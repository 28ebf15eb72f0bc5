import TreeLowering.Proofs.Scope.Attached
import TreeLowering.Proofs.Scope.Simulation

/-! # Allocation names every binding

Naming leaves scopes and identifiers alone, so allocation visits one list of bindings that is fixed
at its start. In a tree from which nothing was removed the list holds every binding. -/
namespace TreeLowering.Tree
set_option autoImplicit false

open Relation Edit

/-! ## What naming leaves alone -/

/-- The trees differ in the targets of their variables at most. -/
structure SameView (t u : Tree) : Prop where
  scopes : u.scopes = t.scopes
  size : u.bindings.size = t.bindings.size
  identifier : ∀ b, u.identifier? b = t.identifier? b

namespace SameView

variable {t u : Tree}

theorem frame (h : SameView t u) : SameFrame t u where
  size := congrArg Array.size h.scopes
  parent s := by rw [parent?, parent?, h.scopes]
  function s := by rw [isFunctionScope, isFunctionScope, h.scopes]

theorem visible (h : SameView t u) (s : Nat) : u.visible s = t.visible s := by
  rw [Tree.visible, Tree.visible, h.scopes]

theorem named? (h : SameView t u) (s : Nat) (name : String) : u.named? s name = t.named? s name := by
  simp only [Tree.named?, h.visible, h.identifier]

theorem reference? (h : SameView t u) (ref : Reference) : u.reference? ref = t.reference? ref := by
  cases ref with
  | named s name => exact h.named? s name
  | slot s i => rw [Tree.reference?, Tree.reference?, h.visible]

theorem allocationOrder (h : SameView t u) (f : Nat) : u.allocationOrder f = t.allocationOrder f := by
  have hVisible : u.visible = t.visible := funext h.visible
  rw [Tree.allocationOrder, Tree.allocationOrder, hVisible, h.frame.ownedBlocks]

end SameView

theorem Naming.sameView {t u : Tree} (h : Naming t u) : SameView t u := by
  cases h with
  | assign candidate hBinding hPending => exact ⟨rfl, by simp, by simp⟩

theorem names_sameView {t u : Tree} (h : ReflTransGen Naming t u) : SameView t u := by
  induction h with
  | refl => exact ⟨rfl, rfl, fun _ => rfl⟩
  | tail _ hStep ih =>
    have hLast := hStep.sameView
    exact ⟨hLast.scopes.trans ih.scopes, hLast.size.trans ih.size,
      fun b => (hLast.identifier b).trans (ih.identifier b)⟩

/-! ## Allocation as one pass -/

/-- The bindings that allocation visits, in order. -/
def namingOrder (t : Tree) : List Nat := t.functionScopes.flatMap t.allocationOrder

/-- The scopes that allocation visits, in order. -/
def namingScopes (t : Tree) : List Nat := t.functionScopes.flatMap fun f => f :: t.ownedBlocks f

theorem flatMap_namingScopes (t : Tree) (own : Nat → List Nat) :
    t.namingScopes.flatMap own = t.functionScopes.flatMap fun f => own f ++ (t.ownedBlocks f).flatMap own := by
  simp only [namingScopes, List.flatMap_assoc, List.flatMap_cons]

theorem namingOrder_eq (t : Tree) : t.namingOrder = t.namingScopes.flatMap t.visible :=
  (t.flatMap_namingScopes t.visible).symm

theorem forM_allocateFunction {t u : Tree} (h : SameView t u) (fs : List Nat) :
    fs.forM allocateFunction u = (fs.flatMap t.allocationOrder).forM allocateOne u := by
  induction fs generalizing u with
  | nil => rfl
  | cons f fs ih =>
    have hFirst : allocateFunction f u = (t.allocationOrder f).forM allocateOne u := by
      rw [allocateFunction, get_bind_apply, h.allocationOrder]
    have hAppend : ((f :: fs).flatMap t.allocationOrder).forM allocateOne =
        ((t.allocationOrder f).forM allocateOne >>= fun _ =>
          (fs.flatMap t.allocationOrder).forM allocateOne) := List.forM_append
    rw [hAppend]
    change (allocateFunction f >>= fun _ => fs.forM allocateFunction) u = _
    simp only [bind, EStateM.bind, hFirst]
    cases hRun : (t.allocationOrder f).forM allocateOne u with
    | error e w => rfl
    | ok a w =>
      -- The names given so far do not change what the later functions visit.
      have hNames := after_of_ok hRun ▸ within_forM allocateOne_within (t.allocationOrder f) u
      have hView := names_sameView hNames
      exact ih ⟨hView.scopes.trans h.scopes, hView.size.trans h.size,
        fun b => (hView.identifier b).trans (h.identifier b)⟩

theorem allocate_apply (t : Tree) : allocate t = t.namingOrder.forM allocateOne t :=
  forM_allocateFunction ⟨rfl, rfl, fun _ => rfl⟩ t.functionScopes

theorem mem_allocationOrder {t : Tree} {s b : Nat} (hs : s < t.scopes.size) (hb : b ∈ t.visible s) :
    b ∈ t.allocationOrder (t.functionScope s) := by
  rw [allocationOrder, List.mem_append]
  by_cases hFunction : t.isFunctionScope s = true
  · exact .inl (by rwa [functionScope_of_function hFunction])
  · exact .inr (List.mem_flatMap.mpr ⟨s, mem_ownedBlocks.mpr ⟨hs, by simpa using hFunction, rfl⟩, hb⟩)

theorem mem_namingOrder {t : Tree} (hGrounded : t.Grounded) {s b : Nat} (hs : s < t.scopes.size)
    (hb : b ∈ t.visible s) : b ∈ t.namingOrder :=
  List.mem_flatMap.mpr ⟨t.functionScope s, hGrounded.functionScope_mem hs, mem_allocationOrder hs hb⟩

/-! ## Named bindings -/

/-- The binding is no variable without a target. -/
def Settled (t : Tree) (b : Nat) : Prop := ∀ v, t.entryAt? b = some (.var v) → ∃ name, v.target = .assigned name

theorem settled_setTarget_self (t : Tree) (b : Nat) (name : String) : (t.setTarget b name).Settled b := by
  intro v hv
  rw [entryAt?_setTarget_self] at hv
  obtain ⟨e, he, hAssign⟩ := Option.map_eq_some_iff.mp hv
  cases e with
  | linked n link => cases hAssign
  | var w =>
    cases hAssign
    exact ⟨name, rfl⟩

theorem Settled.names {t u : Tree} {b : Nat} (h : t.Settled b) (hNames : ReflTransGen Naming t u) :
    u.Settled b := by
  induction hNames with
  | refl => exact h
  | tail _ hStep ih =>
    cases hStep with
    | @assign c owner v desired candidate hBinding hPending =>
      by_cases hEq : c = b
      · subst hEq
        exact settled_setTarget_self _ _ _
      · intro w hw
        rw [entryAt?_setTarget_of_ne _ hEq] at hw
        exact ih w hw

theorem allocateOne_eq_ok {b : Nat} {t u : Tree} (h : allocateOne b t = .ok () u) :
    (u = t ∧ t.Settled b) ∨
      ∃ owner v desired candidate, t.bindings[b]? = some ⟨owner, .var v⟩ ∧ v.target = .pending desired ∧
        candidateOf v = .ok candidate ∧
        u = t.setTarget b (t.chooseTarget ⟨owner, .var v⟩ v.storage candidate) := by
  rw [allocateOne, get_bind_apply] at h
  cases hEntry : t.entryAt? b with
  | none =>
    simp only [hEntry] at h
    cases h
    exact .inl ⟨rfl, fun v hv => by simp [hEntry] at hv⟩
  | some e =>
    cases e with
    | linked n link =>
      simp only [hEntry] at h
      cases h
      exact .inl ⟨rfl, fun v hv => by simp [hEntry] at hv⟩
    | var v =>
      simp only [hEntry] at h
      cases hTarget : v.target with
      | assigned name =>
        simp only [hTarget, Target.isPending] at h
        cases h
        refine .inl ⟨rfl, fun w hw => ⟨name, ?_⟩⟩
        rw [hEntry] at hw
        cases hw
        exact hTarget
      | pending desired =>
        simp only [hTarget, Target.isPending, if_true] at h
        obtain ⟨candidate, w, hCandidate, hRest⟩ := exists_of_run_eq_ok h
        obtain ⟨hChosen, rfl⟩ := inspect_eq_ok hCandidate
        obtain ⟨name, w', hAssign, hPure⟩ := exists_of_run_eq_ok hRest
        cases hPure
        obtain ⟨⟨owner, e⟩, hBinding, rfl⟩ := Option.map_eq_some_iff.mp hEntry
        rw [assignTarget_apply, hBinding] at hAssign
        simp only [hTarget] at hAssign
        cases hAssign
        exact .inr ⟨owner, v, desired, candidate, hBinding, hTarget, hChosen, rfl⟩

theorem allocateOne_pending {t : Tree} {b owner : Nat} {v : Variable} {desired : Option String}
    {candidate : String} (hBinding : t.bindings[b]? = some ⟨owner, .var v⟩)
    (hPending : v.target = .pending desired) (hCandidate : candidateOf v = .ok candidate) :
    allocateOne b t = .ok () (t.setTarget b (t.chooseTarget ⟨owner, .var v⟩ v.storage candidate)) := by
  have hEntry : t.entryAt? b = some (.var v) := by rw [entryAt?, hBinding, Option.map_some]
  rw [allocateOne, get_bind_apply]
  simp only [hEntry, hPending, Target.isPending, if_true, bind, EStateM.bind, inspect, hCandidate,
    assignTarget_apply, hBinding]
  rfl

theorem entryAt?_allocateOne {b c : Nat} {t u : Tree} (h : allocateOne b t = .ok () u) (hNe : b ≠ c) :
    u.entryAt? c = t.entryAt? c := by
  obtain ⟨rfl, _⟩ | ⟨owner, v, desired, candidate, _, _, _, rfl⟩ := allocateOne_eq_ok h
  · rfl
  · exact entryAt?_setTarget_of_ne _ hNe

theorem settled_of_allocateOne {b : Nat} {t u : Tree} (h : allocateOne b t = .ok () u) : u.Settled b := by
  obtain ⟨rfl, hSettled⟩ | ⟨owner, v, desired, candidate, _, _, _, rfl⟩ := allocateOne_eq_ok h
  · exact hSettled
  · exact settled_setTarget_self _ _ _

theorem settled_of_forM {bs : List Nat} {t u : Tree} (h : bs.forM allocateOne t = .ok () u) :
    ∀ b ∈ bs, u.Settled b := by
  induction bs generalizing t with
  | nil => simp
  | cons b bs ih =>
    obtain ⟨_, w, hFirst, hRest⟩ := exists_of_run_eq_ok h
    have hNames := after_of_ok hRest ▸ within_forM allocateOne_within bs w
    rintro c hc
    rcases List.mem_cons.mp hc with rfl | hc
    · exact (settled_of_allocateOne hFirst).names hNames
    · exact ih hRest c hc

theorem settled_of_allocate {t u : Tree} (hWell : t.WellFormed) (hComplete : t.Complete)
    (h : allocate t = .ok () u) (b : Nat) : u.Settled b := by
  rw [allocate_apply] at h
  have hNames := after_of_ok h ▸ within_forM allocateOne_within t.namingOrder t
  by_cases hb : b < t.bindings.size
  · have hx := Array.getElem?_eq_getElem hb
    exact settled_of_forM h b (mem_namingOrder hWell.toGrounded (hWell.placed b _ hx) (hComplete b _ hx))
  · intro v hv
    obtain ⟨x, hx, _⟩ := Option.map_eq_some_iff.mp hv
    have hLt := (Array.getElem?_eq_some_iff.mp hx).1
    rw [(names_sameView hNames).size] at hLt
    exact absurd hLt hb

/-! ## Finished trees -/

/-- A tree that lowering can read: every variable has its target. -/
structure Finished (t : Tree) : Prop extends t.WellFormed where
  settled : ∀ b, t.Settled b

theorem exists_entryAt? {t : Tree} {b : Nat} (hb : b < t.bindings.size) : ∃ e, t.entryAt? b = some e :=
  ⟨_, by rw [entryAt?, Array.getElem?_eq_getElem hb, Option.map_some]⟩

theorem WellFormed.resolveFrom {t : Tree} (h : t.WellFormed) {fuel b : Nat} (hFuel : b ≤ fuel)
    (hb : b < t.bindings.size) : ∃ v, t.entryAt? (t.resolveFrom fuel b) = some (.var v) := by
  -- Links lead to earlier bindings, so they end at a variable.
  obtain ⟨e, hEntry⟩ := exists_entryAt? hb
  induction fuel generalizing b e with
  | zero =>
    cases e with
    | var v => exact ⟨v, hEntry⟩
    | linked name link =>
      have hLink := h.earlier b name link hEntry
      omega
  | succ fuel ih =>
    rw [Tree.resolveFrom, hEntry]
    cases e with
    | var v => exact ⟨v, hEntry⟩
    | linked name link =>
      have hLink := h.earlier b name link hEntry
      have hLt : link < t.bindings.size := Nat.lt_trans hLink hb
      obtain ⟨e, hNext⟩ := exists_entryAt? hLt
      exact ih (by omega) hLt e hNext

namespace Finished

variable {t : Tree}

theorem variableOf (h : t.Finished) {b : Nat} (hb : b < t.bindings.size) :
    ∃ v name, t.variableOf b = .ok v ∧ v.target = .assigned name := by
  obtain ⟨v, hv⟩ := h.resolveFrom (Nat.le_refl b) hb
  obtain ⟨name, hName⟩ := h.settled _ v hv
  have hBehind : t.variableBehind? b = some v := by
    rw [variableBehind?, resolve, hv]
  exact ⟨v, name, by rw [Tree.variableOf, hBehind]; rfl, hName⟩

theorem targetIdentifier (h : t.Finished) {b : Nat} (hb : b < t.bindings.size) :
    ∃ name, t.targetIdentifier b = .ok name := by
  obtain ⟨v, name, hv, hName⟩ := h.variableOf hb
  exact ⟨name, by simp [Tree.targetIdentifier, hv, hName, Target.name?, bind, Except.bind, pure, Except.pure]⟩

theorem bindingText (h : t.Finished) {b : Nat} (hb : b < t.bindings.size) :
    ∃ text, t.bindingText b = .ok text := by
  obtain ⟨v, name, hv, hName⟩ := h.variableOf hb
  obtain ⟨name, hTarget⟩ := h.targetIdentifier hb
  simp only [Tree.bindingText, hTarget, hv, bind, Except.bind]
  split <;> exact ⟨_, rfl⟩

end Finished

end TreeLowering.Tree

namespace TreeLowering

theorem Mention.forM_check_eq_ok_iff {t : Tree} {ms : List Mention} :
    ms.forM (Mention.check t) = .ok () ↔ ∀ m ∈ ms, m.existsIn t = true := by
  induction ms with
  | nil => simp [pure, Except.pure]
  | cons m ms ih =>
    have hCons : (m :: ms).forM (Mention.check t) = m.check t >>= fun _ => ms.forM (Mention.check t) := rfl
    rw [hCons, List.forall_mem_cons, ← ih, ← m.check_eq_ok_iff t]
    cases hCheck : m.check t <;> simp [bind, Except.bind]

namespace Document

open TreeLowering.Tree Edit

/-- A tree that a document builds is finished, and the program mentions nothing that it lacks. -/
theorem scopeTree_finished {d : Document} {registry : Registry} {options : Options} {t : Tree}
    (h : d.scopeTree registry options = .ok t) :
    t.Finished ∧ ∀ m ∈ d.program.mentions, m.existsIn t = true := by
  obtain ⟨globals, attached, hGlobals, hAttach, hValid, hAllocate⟩ := scopeTree_eq_ok h
  have hNames := after_of_ok hAllocate ▸ allocate_within attached
  obtain ⟨hWell, hComplete⟩ := ScopeDecl.attached_wellFormed hGlobals hAttach
  have hView := names_sameView hNames
  refine ⟨⟨hWell.names hNames, settled_of_allocate hWell hComplete hAllocate⟩, ?_⟩
  intro m hm
  have hExists := Mention.forM_check_eq_ok_iff.mp hValid m hm
  cases m with
  | scope id loc => rwa [Mention.existsIn, containsScope, hView.frame.size]
  | reference ref loc => rwa [Mention.existsIn, hView.reference?]

end Document
end TreeLowering
