import TreeLowering.Json.Decoder
import TreeLowering.Scope.Edit

/-! # Global names: the registry and the global scope built from it -/
namespace TreeLowering
set_option autoImplicit false

/-- Puts a name at its place in an ascending list, unless it is there already. -/
def insertName (name : String) : List String → List String
  | [] => [name]
  | n :: rest =>
    if name < n then name :: n :: rest
    else if name = n then n :: rest
    else n :: insertName name rest

theorem mem_insertName {m name : String} {names : List String} :
    m ∈ insertName name names ↔ m = name ∨ m ∈ names := by
  fun_induction insertName name names <;> grind

theorem pairwise_insertName (name : String) {names : List String}
    (h : names.Pairwise (· < ·)) : (insertName name names).Pairwise (· < ·) := by
  induction names with
  | nil => simp [insertName]
  | cons n rest ih =>
    rw [List.pairwise_cons] at h
    unfold insertName
    split
    · rename_i hlt
      refine List.pairwise_cons.2 ⟨?_, List.pairwise_cons.2 h⟩
      intro m hm
      rcases List.mem_cons.1 hm with rfl | hm
      · exact hlt
      · exact String.lt_trans hlt (h.1 m hm)
    · split
      · exact List.pairwise_cons.2 h
      · rename_i hlt hne
        refine List.pairwise_cons.2 ⟨?_, ih h.2⟩
        intro m hm
        rcases mem_insertName.1 hm with rfl | hm
        · rcases String.le_total m n with hle | hle
          · exact absurd (String.le_antisymm hle (String.not_lt.1 hlt)) hne
          · exact String.not_le.1 fun hmn => hne (String.le_antisymm hmn hle)
        · exact h.1 m hm

/-- The names that the runtime offers, each once, in ascending order of code points. -/
structure Registry where
  names : List String
  ascending : names.Pairwise (· < ·)

namespace Registry

def empty : Registry := ⟨[], .nil⟩

def insert (r : Registry) (name : String) : Registry :=
  ⟨insertName name r.names, pairwise_insertName name r.ascending⟩

def ofNames (names : List String) : Registry := names.foldl insert empty

/-- Member names of an object; the values describe the names and are not looked into. -/
def memberNames : List Member → Except LoadError (List String)
  | [] => pure []
  | .mk key value :: rest =>
    match key with
    | none => throw .malformed
    | some name => do
      (Source.text 1).hold value
      let names ← memberNames rest
      pure (name :: names)

def decoder : Decoder Registry
  | _, .object ms => (memberNames ms).map ofNames
  | _, j => throw (.wrongType j)

/-- Reads a registry from a JSON text. -/
def parse (text : String) : Result Registry :=
  match decoder.load text.toList with
  | .ok r => pure r
  | .error e => fail (.registry e)

/-- The names of the runtime support library. -/
def builtin : Registry := ofNames
  ["abs", "c_black", "c_blue", "c_green", "c_red", "c_white", "ceil", "choose", "cos",
    "current_time", "draw_set_color", "draw_sprite", "draw_text", "ev_global_left_button",
    "ev_global_left_press", "ev_global_left_release", "ev_global_middle_button",
    "ev_global_middle_press", "ev_global_middle_release", "ev_global_right_button",
    "ev_global_right_press", "ev_global_right_release", "ev_joystick1_button1",
    "ev_joystick1_button2", "ev_joystick1_button3", "ev_joystick1_button4",
    "ev_joystick1_button5", "ev_joystick1_button6", "ev_joystick1_button7",
    "ev_joystick1_button8", "ev_joystick1_down", "ev_joystick1_left", "ev_joystick1_right",
    "ev_joystick1_up", "ev_joystick2_button1", "ev_joystick2_button2", "ev_joystick2_button3",
    "ev_joystick2_button4", "ev_joystick2_button5", "ev_joystick2_button6",
    "ev_joystick2_button7", "ev_joystick2_button8", "ev_joystick2_down", "ev_joystick2_left",
    "ev_joystick2_right", "ev_joystick2_up", "ev_left_button", "ev_left_press", "ev_left_release",
    "ev_middle_button", "ev_middle_press", "ev_middle_release", "ev_mouse_enter",
    "ev_mouse_leave", "ev_mouse_wheel_down", "ev_mouse_wheel_up", "ev_no_button",
    "ev_right_button", "ev_right_press", "ev_right_release", "floor", "fps", "game_end",
    "instance_create", "instance_destroy", "instance_exists", "instance_find", "instance_number",
    "irandom", "keyboard_check", "keyboard_check_pressed", "lengthdir_x", "lengthdir_y", "max",
    "min", "mouse_check_button", "mouse_x", "mouse_y", "point_direction", "point_distance",
    "power", "random", "real", "room", "room_goto", "room_goto_next", "room_restart",
    "room_speed", "round", "show_debug_message", "show_message", "sign", "sin", "sound_play",
    "sqr", "sqrt", "string", "string_length", "vk_down", "vk_enter", "vk_escape", "vk_left",
    "vk_right", "vk_space", "vk_up"]

end Registry

namespace Tree

/-- Adds a global name as a member of `container`. -/
def addGlobal (container name : String) : Edit Unit := do
  let _ ← add 0 (.var (Variable.ofMember name container))
  pure ()

/-- A tree with only the global scope: every registry name, then every extra name, as a member of
`container`. -/
def ofGlobals (r : Registry) (extra : List String) (container : String) : Result Tree :=
  Edit.finish ((r.names ++ extra).forM (addGlobal container)) empty

end Tree
end TreeLowering
