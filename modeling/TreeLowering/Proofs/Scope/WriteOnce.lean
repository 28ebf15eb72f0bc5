import TreeLowering.Proofs.Scope.Representation

/-! # Bindings are written once

A binding keeps its number and all that it was added with. Only a pending target is filled in, and
only once, and what is read through an alias is what stands at the end of its links. -/
namespace TreeLowering
set_option autoImplicit false

open Relation

namespace Entry

/-- The access class of a variable; an alias has none of its own. -/
def access? : Entry → Option AccessClass
  | var v => some v.access
  | linked .. => none

def container? : Entry → Option String
  | var v => v.container
  | linked .. => none

end Entry

namespace Binding

/-- What a binding may have become later on. -/
structure Becomes (x y : Binding) : Prop where
  owner : y.owner = x.owner
  identifier : y.entry.identifier = x.entry.identifier
  storage : y.entry.storage = x.entry.storage
  access : y.entry.access? = x.entry.access?
  container : y.entry.container? = x.entry.container?
  link : y.entry.link? = x.entry.link?
  target : ∀ name, x.entry.target? = some name → y.entry.target? = some name

theorem Becomes.refl (x : Binding) : x.Becomes x := ⟨rfl, rfl, rfl, rfl, rfl, rfl, fun _ h => h⟩

theorem Becomes.trans {x y z : Binding} (h : x.Becomes y) (h' : y.Becomes z) : x.Becomes z where
  owner := h'.owner.trans h.owner
  identifier := h'.identifier.trans h.identifier
  storage := h'.storage.trans h.storage
  access := h'.access.trans h.access
  container := h'.container.trans h.container
  link := h'.link.trans h.link
  target name hName := h'.target name (h.target name hName)

theorem becomes_assign {x : Binding} (hPending : x.entry.target? = none) (name : String) :
    x.Becomes { x with entry := x.entry.assign name } := by
  obtain ⟨owner, e⟩ := x
  cases e with
  | linked n link => exact .refl _
  | var v =>
    refine ⟨rfl, rfl, rfl, rfl, rfl, rfl, ?_⟩
    intro old hOld
    rw [hPending] at hOld
    cases hOld

end Binding

namespace Tree

open Edit

/-- Every binding of `t` is still one of `u`. -/
def Persists (t u : Tree) : Prop :=
  ∀ (b : Nat) (x : Binding), t.bindings[b]? = some x → ∃ y, u.bindings[b]? = some y ∧ x.Becomes y

/-! ## What a single change keeps -/

theorem Persists.refl (t : Tree) : Persists t t := fun _ x hx => ⟨x, hx, .refl x⟩

theorem Persists.trans {t u w : Tree} (h : Persists t u) (h' : Persists u w) : Persists t w := by
  intro b x hx
  obtain ⟨y, hy, hxy⟩ := h b x hx
  obtain ⟨z, hz, hyz⟩ := h' b y hy
  exact ⟨z, hz, hxy.trans hyz⟩

theorem Naming.persists {t u : Tree} (h : Naming t u) : Persists t u := by
  intro b x hx
  cases h with
  | @assign c owner v desired candidate hBinding hPending =>
    rw [getElem?_setTarget, hx]
    split
    · rename_i hEq
      subst hEq
      obtain rfl := Option.some.inj (hBinding.symm.trans hx)
      refine ⟨_, rfl, Binding.becomes_assign ?_ _⟩
      rw [Entry.target?, hPending]
      rfl
    · exact ⟨x, rfl, .refl x⟩

theorem Change.persists {t u : Tree} (h : Change t u) : Persists t u := by
  cases h with
  | growth hGrowth =>
    intro b x hx
    have hb := (Array.getElem?_eq_some_iff.mp hx).1
    exact ⟨x, (hGrowth.getElem? hb).trans hx, .refl x⟩
  | retract hNamed => exact Persists.refl t
  | naming hNaming => exact hNaming.persists

theorem changes_persist {t u : Tree} (h : ReflTransGen Change t u) : Persists t u := by
  induction h with
  | refl => exact Persists.refl t
  | tail _ hStep ih => exact ih.trans hStep.persists

theorem Persists.size_le {t u : Tree} (h : Persists t u) : t.bindings.size ≤ u.bindings.size := by
  by_contra hLt
  have hb : u.bindings.size < t.bindings.size := by omega
  obtain ⟨y, hy, _⟩ := h _ _ (Array.getElem?_eq_getElem hb)
  simp at hy

/-! ## Links -/

theorem Persists.link? {t u : Tree} (h : Persists t u) {b : Nat} (hb : b < t.bindings.size) :
    u.link? b = t.link? b := by
  have hx := Array.getElem?_eq_getElem hb
  obtain ⟨y, hy, hBecomes⟩ := h b _ hx
  simp only [Tree.link?, entryAt?, hx, hy, Option.map_some, Option.bind_some]
  exact hBecomes.link

/-- Links are never redirected, so an alias stands for one binding for good. -/
theorem Persists.resolve {t u : Tree} (h : Persists t u) (ht : t.WellFormed) (hu : u.WellFormed) {b : Nat}
    (hb : b < t.bindings.size) : u.resolve b = t.resolve b := by
  induction b using Nat.strongRecOn with
  | ind b ih =>
    rw [ht.resolve_eq, hu.resolve_eq, h.link? hb]
    cases hLink : t.link? b with
    | none => rfl
    | some link =>
      have hLt := ht.link_lt hLink
      rw [Option.map_some, Option.map_some, ih link hLt (Nat.lt_trans hLt hb)]

theorem WellFormed.resolve_resolve {t : Tree} (h : t.WellFormed) (b : Nat) :
    t.resolve (t.resolve b) = t.resolve b := by
  induction b using Nat.strongRecOn with
  | ind b ih =>
    cases hLink : t.link? b with
    | none =>
      have hEnd : t.resolve b = b := by rw [h.resolve_eq, hLink]; rfl
      rw [hEnd, hEnd]
    | some link =>
      have hStep : t.resolve b = t.resolve link := by rw [h.resolve_eq, hLink]; rfl
      rw [hStep, ih link (h.link_lt hLink)]

/-- What an alias answers is what the variable at the end of its links says. -/
structure ReadsThrough (t : Tree) (b : Nat) (v : Variable) : Prop where
  behind : t.entryAt? (t.resolve b) = some (.var v)
  alias_reads : t.variableOf b = .ok v
  end_reads : t.variableOf (t.resolve b) = .ok v
  target : ∀ name, t.targetIdentifier b = .ok name ↔ v.target = .assigned name

theorem WellFormed.readsThrough {t : Tree} (h : t.WellFormed) {b : Nat} (hb : b < t.bindings.size) :
    ∃ v, t.ReadsThrough b v := by
  obtain ⟨v, hEnd, hVariable⟩ := h.variableOf hb
  refine ⟨v, hEnd, hVariable, ?_, ?_⟩
  · rw [Tree.variableOf, variableBehind?, h.resolve_resolve, hEnd]
    rfl
  · intro name
    simp only [targetIdentifier, hVariable, bind, Except.bind]
    cases v.target with
    | assigned n => simp [Target.name?, pure, Except.pure]
    | pending desired => simp [Target.name?, fail, throw, throwThe, MonadExceptOf.throw]

theorem WellFormed.targetIdentifier_of_assign {t u : Tree} (h : t.WellFormed) {b : Nat} {candidate name : String}
    (hb : b < t.bindings.size) (hAssign : assignTarget (t.resolve b) candidate t = .ok name u) :
    u.targetIdentifier b = .ok name := by
  have hNames : ReflTransGen Naming t u := after_of_ok hAssign ▸ assignTarget_within (t.resolve b) candidate t
  have hPersists := changes_persist (ReflTransGen.mono (fun _ _ => .naming) _ _ hNames)
  have hu : u.WellFormed := h.names hNames
  obtain ⟨v, hReads⟩ := hu.readsThrough (Nat.lt_of_lt_of_le hb hPersists.size_le)
  rw [hReads.target]
  -- The assigned binding is the end of the links before and after.
  have hEnd : u.target? (t.resolve b) = some name := by
    rw [assignTarget_apply] at hAssign
    split at hAssign
    · cases hAssign
    · rename_i x hx
      obtain ⟨owner, e⟩ := x
      split at hAssign
      · cases hAssign
      · rename_i w hEntry
        obtain rfl : e = .var w := hEntry
        split at hAssign
        · cases hAssign
        · cases hAssign
          exact target?_setTarget_self _ hx
  rw [target?, ← hPersists.resolve h hu hb, hReads.behind] at hEnd
  cases hTarget : v.target with
  | assigned n => simpa [Entry.target?, hTarget, Target.name?] using hEnd
  | pending desired => simp [Entry.target?, hTarget, Target.name?] at hEnd

/-! ## Allocation twice -/

theorem allocateOne_of_settled {t : Tree} {b : Nat} (h : t.Settled b) : allocateOne b t = .ok () t := by
  rw [allocateOne, get_bind_apply]
  cases hEntry : t.entryAt? b with
  | none => rfl
  | some e =>
    cases e with
    | linked n link => rfl
    | var v =>
      obtain ⟨name, hTarget⟩ := h v hEntry
      simp [hTarget, Target.isPending]

theorem forM_allocateOne_of_settled {t : Tree} {bs : List Nat} (h : ∀ b ∈ bs, t.Settled b) :
    bs.forM allocateOne t = .ok () t := by
  induction bs with
  | nil => rfl
  | cons b bs ih =>
    rw [List.forall_mem_cons] at h
    change (allocateOne b >>= fun _ => bs.forM allocateOne) t = _
    simp only [bind, EStateM.bind, allocateOne_of_settled h.1]
    exact ih h.2

theorem allocate_allocate {t u : Tree} (h : allocate t = .ok () u) : allocate u = .ok () u := by
  rw [allocate_apply] at h ⊢
  have hNames := after_of_ok h ▸ within_forM allocateOne_within t.namingOrder t
  have hView := names_sameView hNames
  have hOrder : u.namingOrder = t.namingOrder := by
    rw [namingOrder, namingOrder, hView.frame.functionScopes, funext hView.allocationOrder]
  rw [hOrder]
  exact forM_allocateOne_of_settled (settled_of_forM h)

/-! ## Whole runs -/

/-- Along any run of operations a binding keeps its number, its owner, all that it was added with and
the target it was once given; its number goes to no other binding; an alias answers as the end of its
links does, also for a target that is given later; and a second allocation changes nothing. -/
theorem bindings_are_written_once {t u : Tree} (h : t.Reachable) (ops : List Operation)
    (hRun : Operation.runAll ops t = u) :
    (∀ (b : Nat) (x : Binding), t.bindings[b]? = some x →
      u.resolve b = t.resolve b ∧ ∃ y, u.bindings[b]? = some y ∧ x.Becomes y) ∧
    (∀ s e b w, add s e u = .ok b w → t.bindings.size ≤ b ∧ u.bindings[b]? = none) ∧
    (∀ b < u.bindings.size, (∃ v, u.ReadsThrough b v) ∧
      ∀ candidate name w, assignTarget (u.resolve b) candidate u = .ok name w → w.targetIdentifier b = .ok name) ∧
    ∀ w, allocate u = .ok () w → allocate w = .ok () w := by
  have hPersists : Persists t u := hRun ▸ changes_persist (Operation.runAll_changes ops t)
  have hu : u.WellFormed := hRun ▸ (h.runAll ops).wellFormed
  refine ⟨?_, ?_, ?_, fun w hw => allocate_allocate hw⟩
  · intro b x hx
    have hb := (Array.getElem?_eq_some_iff.mp hx).1
    exact ⟨hPersists.resolve h.wellFormed hu hb, hPersists b x hx⟩
  · intro s e b w hAdd
    obtain ⟨rfl, _⟩ := add_eq_ok hAdd
    exact ⟨hPersists.size_le, by simp⟩
  · intro b hb
    exact ⟨hu.readsThrough hb, fun candidate name w hAssign => hu.targetIdentifier_of_assign hb hAssign⟩

/-- The removed `x` is named, a second name for it is refused, and allocation stops at an anonymous
member after it has named the new `x`, which is then removed too. -/
def lateTarget : List Operation :=
  [.assign 0 "x", .assign 0 "y", .add 2 (.var (Variable.fresh none .namespaced .member)), .allocate,
    .remove 1 "x"]

def lateTargetTree : Tree where
  scopes := #[⟨.global, none, []⟩, ⟨.function, some 0, []⟩, ⟨.block, some 1, [1, 3, 4]⟩]
  bindings := #[⟨1, .var ((Variable.ofLocal "x").withTarget "x")⟩, ⟨2, .linked "y" 0⟩,
    ⟨1, .var ((Variable.ofArgument "x").withTarget "x$1")⟩, ⟨2, .linked "z" 1⟩,
    ⟨2, .var (Variable.fresh none .namespaced .member)⟩]

/-- The alias `z` of the alias `y` had no target at first, and has that of the removed `x` at the end. -/
theorem late_target_is_read_through_aliases :
    Operation.runAll lateTarget retakenTree = lateTargetTree ∧
      (∃ failure, retakenTree.targetIdentifier 3 = .error failure) ∧
      lateTargetTree.resolve 3 = retakenTree.resolve 3 ∧ lateTargetTree.targetIdentifier 3 = .ok "x" := by
  have hReachable : retakenTree.Reachable := ⟨retakenName, by decide⟩
  have hRun : Operation.runAll lateTarget retakenTree = lateTargetTree := by decide +kernel
  obtain ⟨hKept, _, hReads, _⟩ := bindings_are_written_once hReachable lateTarget hRun
  obtain ⟨v, hv⟩ := (hReads 3 (by decide)).1
  have hTarget : v = (Variable.ofLocal "x").withTarget "x" := by
    have hEnd : some (Entry.var ((Variable.ofLocal "x").withTarget "x")) = some (.var v) := hv.behind
    cases hEnd
    rfl
  exact ⟨hRun, ⟨_, rfl⟩, (hKept 3 ⟨2, .linked "z" 1⟩ rfl).1, (hv.target "x").mpr (hTarget ▸ rfl)⟩

end Tree
end TreeLowering
