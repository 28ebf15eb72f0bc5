import TreeLowering.Proofs.Scope.FreshName
import TreeLowering.Proofs.Scope.Totality

/-! # Where target names come from

A finished variable has the target that its declaration fixes, or is named after a candidate: by the
candidate itself or by a suffixed form of it. -/
namespace TreeLowering
set_option autoImplicit false

/-- A name that may be chosen for a candidate. -/
def NamedAfter (candidate name : String) : Prop := name = candidate ∨ ∃ n, name = suffixed candidate n

theorem namedAfter_uniqueName (candidate : String) (used : List String) :
    NamedAfter candidate (uniqueName candidate used) := by
  by_cases h : candidate ∈ used ∨ isReserved candidate = true
  · obtain ⟨n, _, hValue, _, _⟩ := firstFreeSuffix_spec candidate used
    rw [uniqueName_of_taken h, hValue]
    exact .inr ⟨n + 1, rfl⟩
  · rw [not_or, Bool.not_eq_true] at h
    rw [uniqueName_of_free h.1 h.2]
    exact .inl rfl

open TreeLowering.Tree

/-- What allocation makes of a variable: it stays, or it gets a name after its candidate. -/
inductive Variable.Finishes (v : Variable) : Variable → Prop where
  | kept : Finishes v v
  | named {desired : Option String} {candidate name : String} (hPending : v.target = .pending desired)
    (hCandidate : candidateOf v = .ok candidate) (hName : NamedAfter candidate name) :
    Finishes v (v.withTarget name)

theorem Variable.Finishes.container {v w : Variable} (h : v.Finishes w) : w.container = v.container := by
  cases h <;> rfl

namespace Tree

open Edit

theorem allocateOne_finishes {b c : Nat} {t u : Tree} (h : allocateOne b t = .ok () u) {w : Variable}
    (hw : u.entryAt? c = some (.var w)) : ∃ v, t.entryAt? c = some (.var v) ∧ v.Finishes w := by
  obtain ⟨rfl, _⟩ | ⟨owner, v, desired, candidate, hBinding, hPending, hCandidate, rfl⟩ :=
    allocateOne_eq_ok h
  · exact ⟨w, hw, .kept⟩
  · by_cases hEq : b = c
    · subst hEq
      have hv : t.entryAt? b = some (.var v) := by rw [entryAt?, hBinding, Option.map_some]
      rw [entryAt?_setTarget_self, hv] at hw
      cases hw
      refine ⟨v, hv, .named hPending hCandidate ?_⟩
      rw [chooseTarget]
      split
      · exact namedAfter_uniqueName _ _
      · exact .inl rfl
    · rw [entryAt?_setTarget_of_ne _ hEq] at hw
      exact ⟨w, hw, .kept⟩

theorem forM_allocateOne_finishes {bs : List Nat} {t u : Tree} (h : bs.forM allocateOne t = .ok () u)
    {c : Nat} {w : Variable} (hw : u.entryAt? c = some (.var w)) :
    ∃ v, t.entryAt? c = some (.var v) ∧ v.Finishes w := by
  induction bs generalizing t with
  | nil =>
    cases h
    exact ⟨w, hw, .kept⟩
  | cons b bs ih =>
    obtain ⟨_, m, hFirst, hRest⟩ := exists_of_run_eq_ok h
    obtain ⟨x, hx, hxw⟩ := ih hRest
    obtain ⟨v, hv, hvx⟩ := allocateOne_finishes hFirst hx
    refine ⟨v, hv, ?_⟩
    -- A variable that has been named is not pending any more.
    cases hvx with
    | kept => exact hxw
    | named hPending hCandidate hName =>
      cases hxw with
      | kept => exact .named hPending hCandidate hName
      | named hAgain => cases hAgain

theorem allocate_finishes {t u : Tree} (h : allocate t = .ok () u) {b : Nat} {w : Variable}
    (hw : u.entryAt? b = some (.var w)) : ∃ v, t.entryAt? b = some (.var v) ∧ v.Finishes w := by
  rw [allocate_apply] at h
  exact forM_allocateOne_finishes h hw

end Tree

namespace Document

open Edit

/-- The document declares the binding, which is at that place of the finished tree. -/
def DeclaresAt (d : Document) (t : Tree) (b : Nat) (declared : BindingDecl) : Prop :=
  ∃ (s i : Nat) (scope : ScopeDecl), d.scopes[s]? = some scope ∧ (t.visible (s + 1))[i]? = some b ∧
    scope.bindings[i]? = some declared

/-- A variable of a finished tree is a global name, or comes from the declaration at its place. -/
theorem variable_origin {d : Document} {registry : Registry} {options : Options} {t : Tree}
    (h : d.scopeTree registry options = .ok t) {b : Nat} {w : Variable} (hw : t.entryAt? b = some (.var w)) :
    (∃ name ∈ registry.names ++ options.extraGlobals,
        w = Variable.ofMember name options.runtime.globalsIdentifier) ∨
      ∃ declared v, d.DeclaresAt t b declared ∧ declared.Declares (.var v) ∧ v.Finishes w := by
  obtain ⟨globals, attached, hGlobals, hAttach, _, hAllocate⟩ := scopeTree_eq_ok h
  have hView := names_sameView (after_of_ok hAllocate ▸ allocate_within attached)
  obtain ⟨v, hv, hFinishes⟩ := allocate_finishes hAllocate hw
  obtain ⟨⟨owner, e⟩, hx, rfl⟩ := Option.map_eq_some_iff.mp hv
  obtain ⟨name, hName, hGlobal⟩ | ⟨s, i, scope, declared, hScope, hi, hDeclared, hDeclares⟩ :=
    ScopeDecl.binding_declared hGlobals hAttach hx
  · -- A global name has its target from the start.
    cases hGlobal
    cases hFinishes with
    | kept => exact .inl ⟨name, hName, rfl⟩
    | named hPending => cases hPending
  · rw [← hView.visible] at hi
    exact .inr ⟨declared, v, ⟨s, i, scope, hScope, hi, hDeclared⟩, hDeclares, hFinishes⟩

end Document
end TreeLowering
