import Mathlib.Data.List.Nodup
import TreeLowering.Proofs.Scope.Numbering

/-! # The closed form of allocation

What allocation calls a slot can be told from the tree it starts from. Within a function the slots of one
identifier are counted in the order they are visited, those without identifier together, and the count is
the suffix. Slots of other functions, and of other identifiers, play no part. -/
namespace TreeLowering.Tree
set_option autoImplicit false

open Edit

/-- The slots that `f` names with this identifier, or without one, in the order they are named. -/
def slotsCalled (t : Tree) (f : Nat) (identifier : Option String) : List Nat :=
  (t.allocationOrder f).filter fun b => t.isSlot b && t.identifier? b == identifier

/-- No slot that `f` names has a target or a preference, and no identifier of one has a dollar sign. -/
def Unprescribed (t : Tree) (f : Nat) : Prop :=
  ∀ b ∈ t.allocationOrder f, ∀ v, t.entryAt? b = some (.var v) → v.storage.isFunctionSlot = true →
    v.target = .pending none ∧ ∀ name, v.identifier = some name → '$' ∉ name.toList

/-! ## The slots of one function -/

theorem exists_visible_of_mem_allocationOrder {t : Tree} {f b : Nat} (hb : b ∈ t.allocationOrder f) :
    ∃ s, b ∈ t.visible s := by
  rw [allocationOrder, List.mem_append] at hb
  rcases hb with hb | hb
  · exact ⟨f, hb⟩
  · obtain ⟨s, _, hs⟩ := List.mem_flatMap.mp hb
    exact ⟨s, hs⟩

theorem WellFormed.functionScope_of_mem {t : Tree} (h : t.WellFormed) {f b : Nat}
    (hFunction : t.isFunctionScope f = true) (hb : b ∈ t.allocationOrder f) {x : Binding}
    (hx : t.bindings[b]? = some x) : t.functionScope x.owner = f := by
  have hOwner {s : Nat} (hs : b ∈ t.visible s) : x.owner = s := by
    obtain ⟨e, he⟩ := h.owned s b hs
    rw [Option.some.inj (hx.symm.trans he)]
  rw [allocationOrder, List.mem_append] at hb
  rcases hb with hb | hb
  · rw [hOwner hb, functionScope_of_function hFunction]
  · obtain ⟨s, hs, hb⟩ := List.mem_flatMap.mp hb
    rw [hOwner hb]
    exact (mem_ownedBlocks.mp hs).2.2

theorem WellFormed.isSlotOf_eq {t : Tree} (h : t.WellFormed) {f b : Nat} (hFunction : t.isFunctionScope f = true)
    (hb : b ∈ t.allocationOrder f) : t.isSlotOf f b = t.isSlot b := by
  rw [isSlotOf, isSlot, entryAt?]
  cases hx : t.bindings[b]? with
  | none => rfl
  | some x => simp [h.functionScope_of_mem hFunction hb hx]

theorem SlotOf.mem_allocationOrder {t : Tree} (hWell : t.WellFormed) (hComplete : t.Complete) {f b : Nat}
    (h : t.SlotOf f b) : b ∈ t.allocationOrder f := by
  obtain ⟨x, hx, _, rfl⟩ := h
  exact Tree.mem_allocationOrder (hWell.placed b x hx) (hComplete b x hx)

/-- Of all that allocation visits, what belongs to a function is what the function visits. -/
theorem WellFormed.filter_namingOrder {t : Tree} (h : t.WellFormed) {f : Nat} (hFunction : t.isFunctionScope f = true)
    {p : Nat → Bool} (hp : ∀ b x, p b = true → t.bindings[b]? = some x → t.functionScope x.owner = f) :
    t.namingOrder.filter p = (t.allocationOrder f).filter p := by
  have hOthers : ∀ g ∈ t.functionScopes, g ≠ f → (t.allocationOrder g).filter p = [] := by
    intro g hg hNe
    rw [List.filter_eq_nil_iff]
    intro b hb hTrue
    obtain ⟨s, hs⟩ := exists_visible_of_mem_allocationOrder hb
    obtain ⟨e, he⟩ := h.owned s b hs
    exact hNe ((h.functionScope_of_mem (mem_functionScopes.mp hg).2 hb he).symm.trans (hp b _ hTrue he))
  have hMem : f ∈ t.functionScopes := by
    have hf : f < t.scopes.size := by
      by_contra hf
      simp [isFunctionScope, Array.getElem?_eq_none (Nat.le_of_not_lt hf)] at hFunction
    exact mem_functionScopes.mpr ⟨hf, hFunction⟩
  have hNodup : t.functionScopes.Nodup := List.nodup_range.filter _
  obtain ⟨before, after, hSplit⟩ := List.append_of_mem hMem
  rw [hSplit] at hNodup hOthers
  have hNone {gs : List Nat} (hgs : ∀ g ∈ gs, (t.allocationOrder g).filter p = []) :
      gs.flatMap (fun g => (t.allocationOrder g).filter p) = [] :=
    List.flatMap_eq_nil_iff.mpr hgs
  rw [namingOrder, hSplit, List.filter_flatMap, List.flatMap_append, List.flatMap_cons,
    hNone fun g hg => hOthers g (by simp [hg]) ?_, hNone fun g hg => hOthers g (by simp [hg]) ?_,
    List.nil_append, List.append_nil]
  · rintro rfl
    exact (List.nodup_cons.mp (List.nodup_append.mp hNodup).2.1).1 hg
  · rintro rfl
    exact (List.nodup_append.mp hNodup).2.2 _ hg _ List.mem_cons_self rfl

theorem WellFormed.slotsNamed_eq {t : Tree} (h : t.WellFormed) {f : Nat} (hFunction : t.isFunctionScope f = true)
    (name : String) : t.slotsNamed f name = (t.allocationOrder f).filter (t.wants f name) := by
  apply h.filter_namingOrder hFunction
  intro b x hWants hx
  obtain ⟨y, hy, _, hOwner⟩ := (wants_iff.mp hWants).1
  obtain rfl : x = y := Option.some.inj (hx.symm.trans hy)
  exact hOwner

/-! ## Identifiers and candidates -/

theorem getD_anonymousCandidate_inj {i j : Option String} (hi : ∀ name, i = some name → '$' ∉ name.toList)
    (hj : ∀ name, j = some name → '$' ∉ name.toList)
    (h : i.getD anonymousCandidate = j.getD anonymousCandidate) : i = j := by
  have hDollar : '$' ∈ anonymousCandidate.toList := by decide
  cases i with
  | none =>
    cases j with
    | none => rfl
    | some name =>
      obtain rfl : name = anonymousCandidate := h.symm
      exact absurd hDollar (hj _ rfl)
  | some name =>
    cases j with
    | none =>
      obtain rfl : name = anonymousCandidate := h
      exact absurd hDollar (hi _ rfl)
    | some other => exact congrArg some h

namespace Unprescribed

variable {t : Tree} {f : Nat}

theorem of_isSlot (h : t.Unprescribed f) {b : Nat} (hb : b ∈ t.allocationOrder f) (hSlot : t.isSlot b = true) :
    (∃ v, t.entryAt? b = some (.var v) ∧ v.target = .pending none) ∧
      ∀ name, t.identifier? b = some name → '$' ∉ name.toList := by
  rw [isSlot] at hSlot
  cases hEntry : t.entryAt? b with
  | none =>
    rw [hEntry] at hSlot
    cases hSlot
  | some e =>
    rw [hEntry] at hSlot
    cases e with
    | linked name link => cases hSlot
    | var v =>
      obtain ⟨hPending, hDollar⟩ := h b hb v hEntry hSlot
      refine ⟨⟨v, rfl, hPending⟩, ?_⟩
      rw [identifier?, hEntry]
      exact hDollar

theorem plainSlots (h : t.Unprescribed f) (hWell : t.WellFormed) (hComplete : t.Complete)
    (hFunction : t.isFunctionScope f = true) : t.PlainSlots f := by
  intro b hSlot
  have hb := hSlot.mem_allocationOrder hWell hComplete
  obtain ⟨hVariable, hDollar⟩ := h.of_isSlot hb (hWell.isSlotOf_eq hFunction hb ▸ isSlotOf_iff.mpr hSlot)
  refine ⟨?_, hVariable⟩
  rw [slotName]
  cases hName : t.identifier? b with
  | none => exact .inr rfl
  | some name => exact .inl (hDollar name hName)

/-- Slots of one identifier are those named after it. -/
theorem slotsCalled_eq (h : t.Unprescribed f) (hWell : t.WellFormed) (hFunction : t.isFunctionScope f = true)
    {identifier : Option String} (hIdentifier : ∀ name, identifier = some name → '$' ∉ name.toList) :
    t.slotsCalled f identifier = t.slotsNamed f (identifier.getD anonymousCandidate) := by
  rw [hWell.slotsNamed_eq hFunction, slotsCalled]
  refine List.filter_congr fun b hb => ?_
  rw [wants, hWell.isSlotOf_eq hFunction hb]
  cases hSlot : t.isSlot b with
  | false => rfl
  | true =>
    have hDollar := (h.of_isSlot hb hSlot).2
    rw [Bool.true_and, Bool.true_and, slotName, Bool.eq_iff_iff, beq_iff_eq, beq_iff_eq]
    exact ⟨congrArg (Option.getD · anonymousCandidate), getD_anonymousCandidate_inj hDollar hIdentifier⟩

end Unprescribed

/-- Allocation counts the slots of each identifier in a function: the first one gets the identifier itself
unless that is reserved, and every other one a suffix with its number. -/
theorem target_counts_slots {registry : Registry} {extra : List String} {container : String} {globals t u : Tree}
    {ds : List ScopeDecl} {f : Nat} (hGlobals : ofGlobals registry extra container = .ok globals)
    (hAttach : ScopeDecl.attachAll ds globals = .ok () t) (hFunction : t.isFunctionScope f = true)
    (hPlain : t.Unprescribed f) (hAllocate : allocate t = .ok () u) :
    (∀ x k b, (t.slotsCalled f (some x))[k]? = some b → u.target? b = some
      (if isReserved x then suffixed x (k + 1) else if k = 0 then x else suffixed x k)) ∧
      ∀ k b, (t.slotsCalled f none)[k]? = some b →
        u.target? b = some (if k = 0 then "$tmp" else suffixed "$tmp" k) := by
  obtain ⟨hWell, hComplete⟩ := ScopeDecl.attached_wellFormed hGlobals hAttach
  have hSlots := hPlain.plainSlots hWell hComplete hFunction
  constructor
  · intro x k b hb
    have hDollar : '$' ∉ x.toList := by
      obtain ⟨hMem, hCalled⟩ := List.mem_filter.mp (List.mem_of_getElem? hb)
      rw [Bool.and_eq_true, beq_iff_eq] at hCalled
      exact (hPlain.of_isSlot hMem hCalled.1).2 x hCalled.2
    rw [hPlain.slotsCalled_eq hWell hFunction (by rintro _ ⟨⟩; exact hDollar)] at hb
    exact target?_of_allocate hWell hSlots hAllocate hb
  · intro k b hb
    rw [hPlain.slotsCalled_eq hWell hFunction (by simp)] at hb
    exact target?_of_allocate hWell hSlots hAllocate hb

/-- A function and a block of it with the same identifiers, one of them reserved, and with slots that have
none; a function inside fixes a target of its own. -/
def countedScopes : List ScopeDecl :=
  [⟨0, .function, [.plainLocal "x", .plainLocal "var", .plainLocal none]⟩,
    ⟨1, .block, [.plainLocal none, .plainLocal "var", .plainLocal "x"]⟩,
    ⟨2, .function, [.var "x" "LOCAL" "BARE" "x$1" none none]⟩]

def countedTree : Tree where
  scopes := #[⟨.global, none, []⟩, ⟨.function, some 0, [0, 1, 2]⟩, ⟨.block, some 1, [3, 4, 5]⟩,
    ⟨.function, some 2, [6]⟩]
  bindings := #[⟨1, .var (.fresh "x" .local .direct)⟩, ⟨1, .var (.fresh "var" .local .direct)⟩,
    ⟨1, .var (.fresh none .local .direct)⟩, ⟨2, .var (.fresh none .local .direct)⟩,
    ⟨2, .var (.fresh "var" .local .direct)⟩, ⟨2, .var (.fresh "x" .local .direct)⟩,
    ⟨3, .var ((Variable.ofLocal "x").withTarget "x$1")⟩]

theorem counted_slots_have_their_numbers :
    ScopeDecl.attachAll countedScopes empty = .ok () countedTree ∧ ∃ u, allocate countedTree = .ok () u ∧
      u.target? 0 = some "x" ∧ u.target? 5 = some "x$1" ∧ u.target? 1 = some "var$1" ∧
      u.target? 4 = some "var$2" ∧ u.target? 2 = some "$tmp" ∧ u.target? 3 = some "$tmp$1" := by
  have hGlobals : ofGlobals .empty [] "$G" = .ok empty := by rfl
  have hAttach : ScopeDecl.attachAll countedScopes empty = .ok () countedTree := by rfl
  have hPlain : countedTree.Unprescribed 1 := by
    have hOrder : countedTree.allocationOrder 1 = [0, 1, 2, 3, 4, 5] := by rfl
    rw [Unprescribed, hOrder]
    simp only [List.forall_mem_cons, List.not_mem_nil, false_implies, implies_true, and_true]
    refine ⟨?_, ?_, ?_, ?_, ?_, ?_⟩ <;> rintro v ⟨⟩ - <;> refine ⟨rfl, ?_⟩ <;> rintro _ ⟨⟩ <;> decide
  obtain ⟨u, hAllocate⟩ : ∃ u, allocate countedTree = .ok () u := ⟨_, rfl⟩
  obtain ⟨hNamed, hAnonymous⟩ := target_counts_slots hGlobals hAttach (f := 1) rfl hPlain hAllocate
  exact ⟨hAttach, u, hAllocate, hNamed "x" 0 0 rfl, hNamed "x" 1 5 rfl, hNamed "var" 0 1 rfl,
    hNamed "var" 1 4 rfl, hAnonymous 0 2 rfl, hAnonymous 1 3 rfl⟩

end TreeLowering.Tree
