import TreeLowering.Proofs.Scope.ClosedForm
import TreeLowering.Proofs.Scope.WriteOnce

/-! # When allocation gets through

A slot of a function always finds a name. Other variables are called as the source calls them, so the one thing that
stops allocation is such a variable without an identifier. -/
namespace TreeLowering
set_option autoImplicit false

theorem StorageClass.isFunctionSlot_eq_false_iff {storage : StorageClass} :
    storage.isFunctionSlot = false ↔ storage = .namespaced ∨ storage = .unmaterialized := by
  cases storage <;> simp [isFunctionSlot]

/-- A pending variable gets its target; one that is no slot gets its identifier. -/
inductive Binding.Gains : Binding → Binding → Prop where
  | named {owner : Nat} {v : Variable} {name : String} (hPending : v.target.isPending = true)
    (hName : v.storage.isFunctionSlot = true ∨ v.identifier = some name) :
    Gains ⟨owner, .var v⟩ ⟨owner, .var (v.withTarget name)⟩

namespace Tree

open Edit

variable {t u : Tree} {b : Nat}

/-- The binding is a pending variable that neither has an identifier nor is a slot. -/
def Nameless (t : Tree) (b : Nat) : Prop :=
  ∃ v, t.entryAt? b = some (.var v) ∧ v.target.isPending = true ∧ v.identifier = none ∧
    (v.storage = .namespaced ∨ v.storage = .unmaterialized)

/-! ## One visit -/

theorem candidateOf_cases (v : Variable) :
    (∃ candidate, candidateOf v = .ok candidate ∧
        (v.storage.isFunctionSlot = true ∨ v.identifier = some candidate)) ∨
      v.identifier = none ∧ v.storage.isFunctionSlot = false ∧
        candidateOf v = .error (.fault (.anonymousWithoutTarget v.storage) none) := by
  rw [candidateOf]
  cases hSlot : v.storage.isFunctionSlot with
  | true => exact .inl ⟨_, rfl, .inl rfl⟩
  | false =>
    cases hName : v.identifier with
    | none => exact .inr ⟨rfl, rfl, rfl⟩
    | some name => exact .inl ⟨name, rfl, .inr rfl⟩

theorem Settled.not_nameless (h : t.Settled b) : ¬t.Nameless b := by
  rintro ⟨v, hv, hPending, _⟩
  obtain ⟨name, hName⟩ := h v hv
  rw [hName] at hPending
  cases hPending

/-- A visit names its binding, or finds it nameless and fails. -/
theorem allocateOne_cases (b : Nat) (t : Tree) :
    (¬t.Nameless b ∧ ∃ u, allocateOne b t = .ok () u) ∨
      t.Nameless b ∧ ∃ storage, allocateOne b t = .error (.fault (.anonymousWithoutTarget storage) none) t := by
  by_cases hSettled : t.Settled b
  · exact .inl ⟨hSettled.not_nameless, t, allocateOne_of_settled hSettled⟩
  · simp only [Settled, not_forall, not_exists] at hSettled
    obtain ⟨v, hv, hTarget⟩ := hSettled
    obtain ⟨⟨owner, _⟩, hBinding, rfl⟩ := Option.map_eq_some_iff.mp hv
    cases hPending : v.target with
    | assigned name => exact absurd hPending (hTarget name)
    | pending desired =>
      obtain ⟨candidate, hCandidate, hName⟩ | ⟨hAnonymous, hStorage, hCandidate⟩ := candidateOf_cases v
      · refine .inl ⟨?_, _, allocateOne_pending hBinding hPending hCandidate⟩
        rintro ⟨w, hw, _, hAnonymous, hStorage⟩
        cases hv.symm.trans hw
        rw [hAnonymous, StorageClass.isFunctionSlot_eq_false_iff.mpr hStorage] at hName
        simp at hName
      · refine .inr ⟨⟨v, hv, by rw [hPending]; rfl, hAnonymous,
          StorageClass.isFunctionSlot_eq_false_iff.mp hStorage⟩, v.storage, ?_⟩
        rw [allocateOne, get_bind_apply]
        simp only [hv, hPending, Target.isPending, if_true]
        exact run_bind_of_error (by rw [inspect, hCandidate]) _

theorem nameless_allocateOne (h : allocateOne b t = .ok () u) (c : Nat) : u.Nameless c ↔ t.Nameless c := by
  by_cases hEq : b = c
  · subst hEq
    refine iff_of_false (settled_of_allocateOne h).not_nameless ?_
    obtain ⟨hNamed, _⟩ | ⟨_, storage, hFails⟩ := allocateOne_cases b t
    · exact hNamed
    · rw [h] at hFails
      cases hFails
  · rw [Nameless, Nameless, entryAt?_allocateOne h hEq]

theorem getElem?_allocateOne (h : allocateOne b t = .ok () u) {c : Nat} {x : Binding} (hx : t.bindings[c]? = some x) :
    u.bindings[c]? = some x ∨ b = c ∧ ∃ y, u.bindings[c]? = some y ∧ x.Gains y := by
  obtain ⟨rfl, _⟩ | ⟨owner, v, desired, candidate, hBinding, hPending, hCandidate, rfl⟩ := allocateOne_eq_ok h
  · exact .inl hx
  · rw [getElem?_setTarget, hx]
    split
    · rename_i hEq
      subst hEq
      obtain rfl := Option.some.inj (hBinding.symm.trans hx)
      refine .inr ⟨rfl, _, rfl, .named (by rw [hPending]; rfl) ?_⟩
      obtain ⟨name, hName, hSlot | hVerbatim⟩ | ⟨_, _, hFails⟩ := candidateOf_cases v
      · exact .inl hSlot
      · obtain rfl := Except.ok.inj (hCandidate.symm.trans hName)
        cases hSlot : v.storage.isFunctionSlot with
        | true => exact .inl rfl
        | false => exact .inr (by rw [chooseTarget, hSlot, if_neg (by simp), hVerbatim])
      · cases hCandidate.symm.trans hFails
    · exact .inl rfl

/-! ## Whole passes -/

theorem forM_allocateOne_cases (bs : List Nat) (t : Tree) :
    ((∀ b ∈ bs, ¬t.Nameless b) ∧ ∃ u, bs.forM allocateOne t = .ok () u) ∨
      (∃ b ∈ bs, t.Nameless b) ∧
        ∃ storage u, bs.forM allocateOne t = .error (.fault (.anonymousWithoutTarget storage) none) u := by
  induction bs generalizing t with
  | nil => exact .inl ⟨by simp, t, rfl⟩
  | cons b bs ih =>
    change _ ∧ (∃ u, (allocateOne b >>= fun _ => bs.forM allocateOne) t = _) ∨
      _ ∧ ∃ storage u, (allocateOne b >>= fun _ => bs.forM allocateOne) t = _
    obtain ⟨hNamed, m, hVisit⟩ | ⟨hNameless, storage, hFails⟩ := allocateOne_cases b t
    · rw [run_bind_of_ok hVisit]
      have hKept := nameless_allocateOne hVisit
      obtain ⟨hRest, hRun⟩ | ⟨⟨c, hc, hNameless⟩, hRun⟩ := ih m
      · refine .inl ⟨List.forall_mem_cons.mpr ⟨hNamed, ?_⟩, hRun⟩
        intro c hc
        rw [← hKept]
        exact hRest c hc
      · exact .inr ⟨⟨c, List.mem_cons_of_mem _ hc, (hKept c).mp hNameless⟩, hRun⟩
    · rw [run_bind_of_error hFails]
      exact .inr ⟨⟨b, List.mem_cons_self, hNameless⟩, storage, t, rfl⟩

theorem getElem?_of_forM {bs : List Nat} (h : bs.forM allocateOne t = .ok () u) {c : Nat} {x : Binding}
    (hx : t.bindings[c]? = some x) :
    u.bindings[c]? = some x ∨ c ∈ bs ∧ ∃ y, u.bindings[c]? = some y ∧ x.Gains y := by
  induction bs generalizing t x with
  | nil =>
    cases h
    exact .inl hx
  | cons b bs ih =>
    obtain ⟨_, m, hVisit, hRest⟩ := exists_of_run_eq_ok h
    obtain hSame | ⟨rfl, y, hy, hGains⟩ := getElem?_allocateOne hVisit hx
    · obtain hEnd | ⟨hc, hEnd⟩ := ih hRest hSame
      · exact .inl hEnd
      · exact .inr ⟨List.mem_cons_of_mem _ hc, hEnd⟩
    · -- A variable that has been named is not pending any more.
      refine .inr ⟨List.mem_cons_self, y, ?_, hGains⟩
      obtain hEnd | ⟨_, _, _, hAgain⟩ := ih hRest hy
      · exact hEnd
      · cases hGains
        cases hAgain with
        | named hPending => cases hPending

/-! ## The outcome -/

theorem WellFormed.mem_namingOrder_iff (h : t.WellFormed) : b ∈ t.namingOrder ↔ ∃ s, b ∈ t.visible s := by
  constructor
  · intro hb
    obtain ⟨f, _, hf⟩ := List.mem_flatMap.mp hb
    exact exists_visible_of_mem_allocationOrder hf
  · rintro ⟨s, hs⟩
    exact mem_namingOrder h.toGrounded (lt_of_mem_visible hs) hs

/-- What a successful allocation makes of a tree. -/
structure Allocated (t u : Tree) : Prop where
  scopes : u.scopes = t.scopes
  size : u.bindings.size = t.bindings.size
  settled : ∀ s, ∀ b ∈ t.visible s, u.Settled b
  verbatim : ∀ s, ∀ b ∈ t.visible s, ∀ v, t.entryAt? b = some (.var v) → v.target.isPending = true →
    v.storage = .namespaced ∨ v.storage = .unmaterialized →
      ∃ name, v.identifier = some name ∧ u.target? b = some name
  /-- A binding stays as it is, unless it is visible and gets its target. -/
  kept : ∀ b x, t.bindings[b]? = some x →
    u.bindings[b]? = some x ∨ (∃ s, b ∈ t.visible s) ∧ ∃ y, u.bindings[b]? = some y ∧ x.Gains y

theorem WellFormed.allocated (h : t.WellFormed) (hAllocate : allocate t = .ok () u) : Allocated t u := by
  rw [allocate_apply] at hAllocate
  have hView := names_sameView (after_of_ok hAllocate ▸ within_forM allocateOne_within t.namingOrder t)
  have hSettled : ∀ s, ∀ b ∈ t.visible s, u.Settled b := fun s b hb =>
    settled_of_forM hAllocate b (h.mem_namingOrder_iff.mpr ⟨s, hb⟩)
  refine ⟨hView.scopes, hView.size, hSettled, ?_, ?_⟩
  · intro s b hb v hv hPending hStorage
    obtain ⟨⟨owner, _⟩, hx, rfl⟩ := Option.map_eq_some_iff.mp hv
    obtain hSame | ⟨_, y, hy, hGains⟩ := getElem?_of_forM hAllocate hx
    · -- The variable would be pending at the end.
      obtain ⟨name, hName⟩ := hSettled s b hb v (by rw [entryAt?, hSame, Option.map_some])
      rw [hName] at hPending
      cases hPending
    · cases hGains with
      | @named _ _ name _ hName =>
        rw [StorageClass.isFunctionSlot_eq_false_iff.mpr hStorage] at hName
        exact ⟨name, by simpa using hName, target?_eq_of_getElem? hy⟩
  · intro b x hx
    obtain hSame | ⟨hb, hGains⟩ := getElem?_of_forM hAllocate hx
    · exact .inl hSame
    · exact .inr ⟨h.mem_namingOrder_iff.mp hb, hGains⟩

theorem WellFormed.allocate_cases (h : t.WellFormed) :
    ((∀ s, ∀ b ∈ t.visible s, ¬t.Nameless b) ∧ ∃ u, allocate t = .ok () u) ∨
      (∃ s, ∃ b ∈ t.visible s, t.Nameless b) ∧
        ∃ storage u, allocate t = .error (.fault (.anonymousWithoutTarget storage) none) u := by
  rw [allocate_apply]
  obtain ⟨hNamed, hRun⟩ | ⟨⟨b, hb, hNameless⟩, hRun⟩ := forM_allocateOne_cases t.namingOrder t
  · exact .inl ⟨fun s b hb => hNamed b (h.mem_namingOrder_iff.mpr ⟨s, hb⟩), hRun⟩
  · obtain ⟨s, hs⟩ := h.mem_namingOrder_iff.mp hb
    exact .inr ⟨⟨s, b, hs, hNameless⟩, hRun⟩

/-- Allocation fails at nameless bindings only, and a tree that it finishes answers for every binding. -/
theorem allocation_fails_only_at_nameless :
    (∀ t : Tree, t.Reachable →
      ((∃ u, allocate t = .ok () u) ↔ ∀ s, ∀ b ∈ t.visible s, ¬t.Nameless b) ∧
      (∀ e u, allocate t = .error e u → ∃ cause, e = .fault cause none ∧ cause.kind = .unassignedIdentifier) ∧
      ∀ u, allocate t = .ok () u → Allocated t u) ∧
    ∀ (d : Document) (registry : Registry) (options : Options) (t : Tree), d.scopeTree registry options = .ok t →
      ∀ b < t.bindings.size, ∃ name, t.targetIdentifier b = .ok name := by
  constructor
  · intro t hReachable
    have hWell := hReachable.wellFormed
    refine ⟨?_, ?_, fun u => hWell.allocated⟩
    · obtain ⟨hNamed, hRun⟩ | ⟨⟨s, b, hb, hNameless⟩, storage, w, hFails⟩ := hWell.allocate_cases
      · exact iff_of_true hRun hNamed
      · refine iff_of_false ?_ fun hNamed => hNamed s b hb hNameless
        rintro ⟨u, hRun⟩
        cases hRun.symm.trans hFails
    · intro e u hError
      obtain ⟨_, w, hRun⟩ | ⟨_, storage, w, hFails⟩ := hWell.allocate_cases
      · cases hRun.symm.trans hError
      · cases hFails.symm.trans hError
        exact ⟨_, rfl, rfl⟩
  · intro d registry options t hTree b hb
    exact (Document.scopeTree_finished hTree).1.targetIdentifier hb

/-- Blocks outside of any function, with a member that has no target yet. -/
def looseScopes : List ScopeDecl :=
  [⟨0, .block, [.var "p" "NAMESPACED" "MEMBER" none "q" "m"]⟩,
    ⟨1, .block, [.linked "r" (.slot 1 0), .plainLocal none]⟩]

def looseTree : Tree where
  scopes := #[⟨.global, none, []⟩, ⟨.block, some 0, [0]⟩, ⟨.block, some 1, [1, 2]⟩]
  bindings := #[⟨1, .var ⟨"p", .namespaced, .member, .pending "q", "m"⟩⟩, ⟨2, .linked "r" 0⟩,
    ⟨2, .var (.fresh none .local .direct)⟩]

/-- The member gets its identifier and not the name it prefers; a tree with an anonymous member is refused. -/
theorem loose_member_is_named_verbatim :
    looseTree.Reachable ∧ lateTargetTree.Reachable ∧
      (∃ u, allocate looseTree = .ok () u ∧ u.target? 0 = some "p" ∧ u.Settled 2 ∧
        Document.scopeTree ⟨looseScopes, ⟨[], 0⟩⟩ .empty {} = .ok u ∧
          ∃ name, u.targetIdentifier 1 = .ok name) ∧
      ¬∃ u, allocate lateTargetTree = .ok () u := by
  have hLoose : looseTree.Reachable := ⟨[.attach looseScopes], by decide +kernel⟩
  have hLate : lateTargetTree.Reachable := ⟨retakenName ++ lateTarget, by decide +kernel⟩
  obtain ⟨hReachable, hDocument⟩ := allocation_fails_only_at_nameless
  obtain ⟨u, hRun, hTree⟩ : ∃ u, allocate looseTree = .ok () u ∧
      Document.scopeTree ⟨looseScopes, ⟨[], 0⟩⟩ .empty {} = .ok u := ⟨_, rfl, rfl⟩
  have hAllocated := (hReachable _ hLoose).2.2 u hRun
  refine ⟨hLoose, hLate, ⟨u, hRun, ?_, hAllocated.settled 2 2 (by decide), hTree, ?_⟩, ?_⟩
  · obtain ⟨name, hName, hTarget⟩ := hAllocated.verbatim 1 0 (by decide) _ rfl rfl (.inl rfl)
    cases hName
    exact hTarget
  · exact hDocument _ _ _ u hTree 1 (by rw [hAllocated.size]; decide)
  · rw [(hReachable _ hLate).1]
    intro hNamed
    exact hNamed 2 4 (by decide) ⟨_, rfl, rfl, rfl, .inl rfl⟩

end Tree
end TreeLowering
