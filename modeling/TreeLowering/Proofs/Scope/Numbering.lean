import Mathlib.Data.List.Nodup
import TreeLowering.Proofs.Scope.Allocation
import TreeLowering.Proofs.Scope.Totality

/-! # The names that allocation gives

Where no slot of a function brings a target or a preference of its own, its slots that want the same
name are numbered in the order they are visited. -/
namespace TreeLowering.Tree
set_option autoImplicit false

open Relation Edit

def isSlot (t : Tree) (b : Nat) : Bool :=
  match t.entryAt? b with
  | some e => e.storage.isFunctionSlot
  | none => false

def isSlotOf (t : Tree) (f b : Nat) : Bool :=
  t.isSlot b && (t.bindings[b]?.map fun x => t.functionScope x.owner) == some f

theorem isSlotOf_iff {t : Tree} {f b : Nat} : t.isSlotOf f b = true ↔ t.SlotOf f b := by
  rw [isSlotOf, isSlot, entryAt?, SlotOf]
  cases t.bindings[b]? with
  | none => simp
  | some x => simp

theorem SlotOf.function_eq {t : Tree} {f g b : Nat} (hf : t.SlotOf f b) (hg : t.SlotOf g b) : f = g := by
  obtain ⟨x, hx, _, rfl⟩ := hf
  obtain ⟨y, hy, _, rfl⟩ := hg
  obtain rfl : x = y := Option.some.inj (hx.symm.trans hy)
  rfl

/-- What a slot without a preference is named after. -/
def slotName (t : Tree) (b : Nat) : String := (t.identifier? b).getD anonymousCandidate

/-- The binding is a slot of `f` that is named after `name`. -/
def wants (t : Tree) (f : Nat) (name : String) (b : Nat) : Bool := t.isSlotOf f b && t.slotName b == name

theorem wants_iff {t : Tree} {f b : Nat} {name : String} :
    t.wants f name b = true ↔ t.SlotOf f b ∧ t.slotName b = name := by
  simp [wants, isSlotOf_iff]

/-- The slots of `f` that are named after `name`, in the order they are named. -/
def slotsNamed (t : Tree) (f : Nat) (name : String) : List Nat := t.namingOrder.filter (t.wants f name)

/-- No slot of `f` has a target or a preference, and none is called like a suffixed name. -/
def PlainSlots (t : Tree) (f : Nat) : Prop :=
  ∀ b, t.SlotOf f b → IsPlain (t.slotName b) ∧
    ∃ v, t.entryAt? b = some (.var v) ∧ v.target = .pending none

/-! ## The order of naming -/

theorem WellFormed.disjoint_visible {t : Tree} (h : t.WellFormed) {r s : Nat} (hNe : r ≠ s) :
    List.Disjoint (t.visible r) (t.visible s) := by
  intro b hr hs
  obtain ⟨e, he⟩ := h.owned r b hr
  obtain ⟨e', he'⟩ := h.owned s b hs
  have hOwners := congrArg Binding.owner (Option.some.inj (he.symm.trans he'))
  exact hNe hOwners

-- Every scope belongs to one function.
theorem nodup_namingScopes (t : Tree) : t.namingScopes.Nodup := by
  have hFunction : ∀ f ∈ t.functionScopes, ∀ s ∈ f :: t.ownedBlocks f, t.functionScope s = f := by
    intro f hf s hs
    rcases List.mem_cons.mp hs with rfl | hs
    · exact functionScope_of_function (mem_functionScopes.mp hf).2
    · exact (mem_ownedBlocks.mp hs).2.2
  rw [namingScopes, List.nodup_flatMap]
  constructor
  · intro f hf
    refine List.nodup_cons.mpr ⟨?_, List.nodup_range.filter _⟩
    intro hMem
    have hBlock := (mem_ownedBlocks.mp hMem).2.1
    rw [(mem_functionScopes.mp hf).2] at hBlock
    cases hBlock
  · refine (List.nodup_range.filter _).imp_of_mem fun hf hg hNe => ?_
    intro s hs hs'
    exact hNe ((hFunction _ hf s hs).symm.trans (hFunction _ hg s hs'))

theorem WellFormed.nodup_namingOrder {t : Tree} (h : t.WellFormed) : t.namingOrder.Nodup := by
  rw [namingOrder_eq, List.nodup_flatMap]
  exact ⟨fun s _ => h.once s, t.nodup_namingScopes.imp fun hNe => h.disjoint_visible hNe⟩

/-! ## What a pass gives -/

/-- The state of a pass that started at `t`, has reached `u` and has visited the bindings `done`, as far
as the function `f` is concerned. -/
structure Numbered (t : Tree) (f : Nat) (u : Tree) (done : List Nat) : Prop where
  names : ReflTransGen Naming t u
  given : ∀ name k b, (done.filter (t.wants f name))[k]? = some b → u.target? b = some (numbered name k)
  waiting : ∀ b ∉ done, u.entryAt? b = t.entryAt? b

namespace Numbered

variable {t u : Tree} {f : Nat} {done : List Nat}

theorem mem_usedTargets_iff (h : Numbered t f u done) (hPlain : t.PlainSlots f) {name : String}
    (hName : IsPlain name) (k : Nat) :
    numbered name k ∈ u.usedTargets f ↔ k < (done.filter (t.wants f name)).length := by
  rw [mem_usedTargets]
  constructor
  · rintro ⟨b, hSlot, hTarget⟩
    have hSlot := (names_slotOf h.names).mp hSlot
    obtain ⟨hb, v, hv, hPending⟩ := hPlain b hSlot
    by_cases hDone : b ∈ done
    · have hMem : b ∈ done.filter (t.wants f (t.slotName b)) :=
        List.mem_filter.mpr ⟨hDone, wants_iff.mpr ⟨hSlot, rfl⟩⟩
      obtain ⟨j, hj⟩ := List.mem_iff_getElem?.mp hMem
      have hEq := Option.some.inj (hTarget.symm.trans (h.given _ j b hj))
      obtain ⟨rfl, rfl⟩ := numbered_inj hName hb hEq
      exact (List.getElem?_eq_some_iff.mp hj).1
    · rw [target?, h.waiting b hDone, hv, Option.bind_some, Entry.target?, hPending] at hTarget
      cases hTarget
  · intro hk
    have hb := List.getElem?_eq_getElem hk
    have hWants := (List.mem_filter.mp (List.mem_of_getElem? hb)).2
    exact ⟨_, (names_slotOf h.names).mpr (wants_iff.mp hWants).1, h.given name k _ hb⟩

theorem target?_visited (h : Numbered t f u done) (hPlain : t.PlainSlots f) {b : Nat} (hb : b ∉ done)
    {w : Tree} (hVisit : allocateOne b u = .ok () w) {name : String}
    (hWants : t.wants f name b = true) :
    w.target? b = some (numbered name (done.filter (t.wants f name)).length) := by
  obtain ⟨hSlot, rfl⟩ := wants_iff.mp hWants
  obtain ⟨hName, v, hv, hPending⟩ := hPlain b hSlot
  have hEntry : u.entryAt? b = some (.var v) := (h.waiting b hb).trans hv
  obtain ⟨rfl, hSettled⟩ | ⟨owner, v', desired, candidate, hBinding, _, hCandidate, rfl⟩ :=
    allocateOne_eq_ok hVisit
  · obtain ⟨n, hn⟩ := hSettled v hEntry
    rw [hPending] at hn
    cases hn
  · obtain rfl : v' = v := by simpa [entryAt?, hBinding] using hEntry
    obtain ⟨x, hx, hStorage, hFunction⟩ := (names_slotOf h.names).mpr hSlot
    obtain rfl : _ = x := Option.some.inj (hBinding.symm.trans hx)
    have hStorage : v'.storage.isFunctionSlot = true := hStorage
    have hSlotName : candidate = t.slotName b := by
      rw [candidateOf, if_pos hStorage, hPending] at hCandidate
      rw [slotName, identifier?, hv]
      exact (Except.ok.inj hCandidate).symm
    rw [target?_setTarget_self _ hBinding, chooseTarget, if_pos hStorage, hFunction, hSlotName,
      uniqueName_eq_numbered (h.mem_usedTargets_iff hPlain hName)]

/-- A visit numbers its binding and leaves the other targets alone. -/
theorem step (h : Numbered t f u done) (hPlain : t.PlainSlots f) {b : Nat} (hb : b ∉ done) {w : Tree}
    (hVisit : allocateOne b u = .ok () w) : Numbered t f w (done ++ [b]) := by
  refine ⟨h.names.trans (after_of_ok hVisit ▸ allocateOne_within b u), ?_, ?_⟩
  · intro name k c hc
    rw [List.filter_append] at hc
    by_cases hk : k < (done.filter (t.wants f name)).length
    · rw [List.getElem?_append_left hk] at hc
      have hDone := (List.mem_filter.mp (List.mem_of_getElem? hc)).1
      rw [target?, entryAt?_allocateOne hVisit (fun hEq => hb (hEq ▸ hDone)), ← target?]
      exact h.given name k c hc
    · rw [List.getElem?_append_right (Nat.le_of_not_lt hk)] at hc
      have hWants := List.mem_filter.mp (List.mem_of_getElem? hc)
      obtain rfl : c = b := by simpa using hWants.1
      have hLength := (List.getElem?_eq_some_iff.mp hc).1
      have hOne := List.length_filter_le (t.wants f name) [c]
      have hkEq : k = (done.filter (t.wants f name)).length := by
        simp only [List.length_singleton] at hOne
        omega
      rw [hkEq]
      exact h.target?_visited hPlain hb hVisit hWants.2
  · intro c hc
    simp only [List.mem_append, List.mem_singleton, not_or] at hc
    rw [entryAt?_allocateOne hVisit (Ne.symm hc.2), h.waiting c hc.1]

theorem run (hPlain : t.PlainSlots f) {rest : List Nat} (h : Numbered t f u done)
    (hNodup : (done ++ rest).Nodup) {w : Tree} (hRun : rest.forM allocateOne u = .ok () w) :
    Numbered t f w (done ++ rest) := by
  induction rest generalizing u done with
  | nil =>
    cases hRun
    rwa [List.append_nil]
  | cons b rest ih =>
    obtain ⟨_, v, hVisit, hRest⟩ := exists_of_run_eq_ok hRun
    have hb : b ∉ done := fun hMem => (List.nodup_append.mp hNodup).2.2 b hMem b List.mem_cons_self rfl
    rw [List.append_cons] at hNodup ⊢
    exact ih (h.step hPlain hb hVisit) hNodup hRest

end Numbered

/-- Allocation numbers the slots of a function that are named after the same name. -/
theorem target?_of_allocate {t u : Tree} {f : Nat} (hWell : t.WellFormed) (hPlain : t.PlainSlots f)
    (h : allocate t = .ok () u) {k b : Nat} {name : String} (hb : (t.slotsNamed f name)[k]? = some b) :
    u.target? b = some (numbered name k) := by
  rw [allocate_apply] at h
  have hStart : Numbered t f t [] := ⟨.refl, by simp, fun _ _ => rfl⟩
  exact (hStart.run hPlain hWell.nodup_namingOrder h).given name k b hb

end TreeLowering.Tree
