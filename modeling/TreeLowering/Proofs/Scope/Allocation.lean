import TreeLowering.Proofs.Scope.FreshName
import TreeLowering.Proofs.Scope.Operation

/-! # Allocation of target names

Slots are the locals and arguments of a function. Naming a binding changes its own target and
nothing else, so allocation names one fixed list of bindings, one after the other. -/
namespace TreeLowering
set_option autoImplicit false

open Relation

/-- The target that is fixed for an entry of its own. -/
def Entry.target? : Entry → Option String
  | .var v => v.target.name?
  | .linked .. => none

namespace Tree

open Edit

def target? (t : Tree) (b : Nat) : Option String := (t.entryAt? b).bind Entry.target?

/-- The binding is a local or an argument, and its scope belongs to the function `f`. -/
def SlotOf (t : Tree) (f b : Nat) : Prop :=
  ∃ x, t.bindings[b]? = some x ∧ x.entry.storage.isFunctionSlot = true ∧ t.functionScope x.owner = f

theorem SlotOf.lt {t : Tree} {f b : Nat} (h : t.SlotOf f b) : b < t.bindings.size := by
  obtain ⟨x, hx, _⟩ := h
  exact (Array.getElem?_eq_some_iff.mp hx).1

theorem slotTarget?_eq_some_iff {e : Entry} {name : String} :
    e.slotTarget? = some name ↔ e.storage.isFunctionSlot = true ∧ e.target? = some name := by
  cases e with
  | linked n link => simp [Entry.slotTarget?, Entry.target?]
  | var v => simp [Entry.slotTarget?, Entry.target?, Entry.storage]

theorem mem_usedTargets {t : Tree} {f : Nat} {name : String} :
    name ∈ t.usedTargets f ↔ ∃ b, t.SlotOf f b ∧ t.target? b = some name := by
  simp only [usedTargets, List.mem_filterMap]
  constructor
  · rintro ⟨x, hx, hName⟩
    split at hName
    · rename_i hFunction
      obtain ⟨hSlot, hTarget⟩ := slotTarget?_eq_some_iff.mp hName
      obtain ⟨b, hb⟩ := Array.mem_iff_getElem?.mp (Array.mem_def.mpr hx)
      exact ⟨b, ⟨x, hb, hSlot, hFunction⟩, by simp [target?, entryAt?, hb, hTarget]⟩
    · cases hName
  · rintro ⟨b, ⟨x, hx, hSlot, hFunction⟩, hTarget⟩
    refine ⟨x, Array.mem_def.mp (Array.mem_of_getElem? hx), ?_⟩
    rw [if_pos hFunction]
    refine slotTarget?_eq_some_iff.mpr ⟨hSlot, ?_⟩
    simpa [target?, entryAt?, hx] using hTarget

/-! ## One naming step -/

theorem target?_eq_of_getElem? {t : Tree} {b : Nat} {x : Binding} (h : t.bindings[b]? = some x) :
    t.target? b = x.entry.target? := by
  simp [target?, entryAt?, h]

theorem target?_setTarget_self {t : Tree} {b owner : Nat} {v : Variable} (name : String)
    (h : t.bindings[b]? = some ⟨owner, .var v⟩) : (t.setTarget b name).target? b = some name := by
  rw [target?, entryAt?_setTarget_self, entryAt?, h]
  rfl

theorem target?_setTarget_of_ne {t : Tree} {b c : Nat} (name : String) (h : b ≠ c) :
    (t.setTarget b name).target? c = t.target? c := by
  rw [target?, entryAt?_setTarget_of_ne name h, target?]

theorem slotOf_setTarget {t : Tree} {f b c : Nat} {name : String} :
    (t.setTarget b name).SlotOf f c ↔ t.SlotOf f c := by
  have hScope : ∀ s, (t.setTarget b name).functionScope s = t.functionScope s :=
    (t.sameFrame_setTarget b name).functionScope
  simp only [SlotOf, getElem?_setTarget, hScope]
  split
  · constructor
    · rintro ⟨x, hx, hSlot, hFunction⟩
      obtain ⟨y, hy, rfl⟩ := Option.map_eq_some_iff.mp hx
      exact ⟨y, hy, by simpa using hSlot, hFunction⟩
    · rintro ⟨x, hx, hSlot, hFunction⟩
      exact ⟨{ x with entry := x.entry.assign name }, by rw [hx, Option.map_some],
        by simpa using hSlot, hFunction⟩
  · rfl

theorem Naming.slotOf {t u : Tree} (h : Naming t u) {f b : Nat} : u.SlotOf f b ↔ t.SlotOf f b := by
  cases h with
  | assign candidate hBinding hPending => exact slotOf_setTarget

theorem Naming.target?_eq {t u : Tree} (h : Naming t u) {b : Nat} {name : String}
    (hBefore : t.target? b = some name) : u.target? b = some name := by
  cases h with
  | @assign c owner v desired candidate hBinding hPending =>
    by_cases hEq : c = b
    · subst hEq
      simp [target?_eq_of_getElem? hBinding, Entry.target?, hPending, Target.name?] at hBefore
    · rwa [target?_setTarget_of_ne _ hEq]

theorem Naming.fresh {t u : Tree} (h : Naming t u) {f b : Nat} {name : String} (hSlot : t.SlotOf f b)
    (hBefore : t.target? b = none) (hAfter : u.target? b = some name) :
    isReserved name = false ∧ name ∉ t.usedTargets f ∧ ∀ c ≠ b, u.target? c = t.target? c := by
  cases h with
  | @assign c owner v desired candidate hBinding hPending =>
    by_cases hEq : c = b
    · subst hEq
      obtain ⟨x, hx, hStorage, hFunction⟩ := hSlot
      obtain rfl : _ = x := Option.some.inj (hBinding.symm.trans hx)
      have hStorage : v.storage.isFunctionSlot = true := hStorage
      rw [target?_setTarget_self _ hBinding] at hAfter
      have hName : name = uniqueName candidate (t.usedTargets f) := by
        rw [← Option.some.inj hAfter, chooseTarget, if_pos hStorage, hFunction]
      rw [hName]
      exact ⟨uniqueName_not_reserved _ _, uniqueName_not_mem _ _,
        fun d hd => target?_setTarget_of_ne _ hd.symm⟩
    · rw [target?_setTarget_of_ne _ hEq, hBefore] at hAfter
      cases hAfter

/-! ## Runs of naming steps -/

theorem names_slotOf {t u : Tree} (h : ReflTransGen Naming t u) {f b : Nat} :
    u.SlotOf f b ↔ t.SlotOf f b := by
  induction h with
  | refl => rfl
  | tail _ hStep ih => exact hStep.slotOf.trans ih

theorem names_target?_eq {t u : Tree} (h : ReflTransGen Naming t u) {b : Nat} {name : String}
    (hBefore : t.target? b = some name) : u.target? b = some name := by
  induction h with
  | refl => exact hBefore
  | tail _ hStep ih => exact hStep.target?_eq ih

/-- A slot that gets its target along the way shares it with no slot of its function. -/
theorem names_fresh {t u : Tree} (h : ReflTransGen Naming t u) {f b : Nat} {name : String}
    (hSlot : t.SlotOf f b) (hBefore : t.target? b = none) (hAfter : u.target? b = some name) :
    isReserved name = false ∧ ∀ c ≠ b, u.SlotOf f c → u.target? c ≠ some name := by
  induction h with
  | refl =>
    rw [hBefore] at hAfter
    cases hAfter
  | @tail w u hPath hStep ih =>
    have hSlotW : w.SlotOf f b := (names_slotOf hPath).mpr hSlot
    cases hMiddle : w.target? b with
    | none =>
      -- The last step names `b`; every other target of the function is used by then.
      obtain ⟨hReserved, hFree, hOthers⟩ := hStep.fresh hSlotW hMiddle hAfter
      refine ⟨hReserved, ?_⟩
      intro c hc hcSlot hcTarget
      rw [hOthers c hc] at hcTarget
      exact hFree (mem_usedTargets.mpr ⟨c, hStep.slotOf.mp hcSlot, hcTarget⟩)
    | some old =>
      -- `b` has its name already; a slot that is named now gets one that is not used.
      obtain rfl : old = name := Option.some.inj ((hStep.target?_eq hMiddle).symm.trans hAfter)
      obtain ⟨hReserved, hOthers⟩ := ih hMiddle
      refine ⟨hReserved, ?_⟩
      intro c hc hcSlot hcTarget
      have hcSlotW := hStep.slotOf.mp hcSlot
      cases hcMiddle : w.target? c with
      | none =>
        obtain ⟨_, hFree, _⟩ := hStep.fresh hcSlotW hcMiddle hcTarget
        exact hFree (mem_usedTargets.mpr ⟨b, hSlotW, hMiddle⟩)
      | some n =>
        have := (hStep.target?_eq hcMiddle).symm.trans hcTarget
        exact hOthers c hc hcSlotW (hcMiddle.trans this)

end Tree
end TreeLowering
