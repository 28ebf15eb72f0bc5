import TreeLowering.Proofs.Emit.Answers
import TreeLowering.Proofs.Emit.Receivers

/-! # Compilation fails with faults

Building a scope tree asks for scopes and bindings that exist, and so does lowering a validated program.
Only the checks of the program and the look-ups of lowering give a fault a position. -/
namespace TreeLowering
set_option autoImplicit false

/-- A fault without a position. -/
def Failure.IsPlain (e : Failure) : Prop := ∃ cause, e = .fault cause none

/-- Where the computation fails, it does so with a fault that has no position. -/
def FailsPlainly {α : Type} (r : Result α) : Prop := ∀ e, r = .error e → e.IsPlain

section

variable {α β : Type}

theorem failsPlainly_ok (a : α) : FailsPlainly (.ok a : Result α) := failsIn_ok a

theorem failsPlainly_fail (cause : Fault) : FailsPlainly (fail cause : Result α) := failsIn_error ⟨cause, rfl⟩

theorem FailsPlainly.bind {r : Result α} {f : α → Result β} (hr : FailsPlainly r)
    (hf : ∀ a, FailsPlainly (f a)) : FailsPlainly (r >>= f) := FailsIn.bind hr hf

end

namespace Edit

variable {α β : Type} {P : Tree → Prop} {Q : α → Tree → Prop} {R : β → Tree → Prop}

/-- From a tree in `P` the edit succeeds as `Q` says, or fails with a fault that has no position. -/
def Safe (P : Tree → Prop) (m : Edit α) (Q : α → Tree → Prop) : Prop :=
  ∀ t, P t → (∃ a u, m t = .ok a u ∧ Q a u) ∨ ∃ e u, m t = .error e u ∧ e.IsPlain

theorem safe_pure {a : α} (h : ∀ t, P t → Q a t) : Safe P (pure a) Q :=
  fun t ht => .inl ⟨a, t, rfl, h t ht⟩

theorem safe_fail (cause : Fault) : Safe P (fail cause) Q :=
  fun t _ => .inr ⟨_, t, rfl, cause, rfl⟩

theorem safe_inspect {f : Tree → Result α} (h : ∀ t, FailsPlainly (f t)) :
    Safe P (inspect f) fun _ => P := by
  intro t ht
  cases hf : f t with
  | ok a => exact .inl ⟨a, t, by rw [inspect, hf], ht⟩
  | error e => exact .inr ⟨e, t, by rw [inspect, hf], h t e hf⟩

theorem Safe.bind {m : Edit α} {k : α → Edit β} (hm : Safe P m Q)
    (hk : ∀ a, Safe (Q a) (k a) R) : Safe P (m >>= k) R := by
  intro t ht
  rcases hm t ht with ⟨a, u, hOk, hu⟩ | ⟨e, u, hError, hPlain⟩
  · rw [run_bind_of_ok hOk]
    exact hk a u hu
  · exact .inr ⟨e, u, run_bind_of_error hError k, hPlain⟩

theorem safe_get_bind {k : Tree → Edit β} (hk : ∀ t, P t → Safe (fun u => P u ∧ u = t) (k t) R) :
    Safe P (get >>= k) R :=
  fun t ht => hk t ht t ⟨ht, rfl⟩

theorem safe_forM {f : α → Edit Unit} (hf : ∀ a, Safe P (f a) fun _ => P) (xs : List α) :
    Safe P (xs.forM f) fun _ => P := by
  induction xs with
  | nil => exact safe_pure fun _ ht => ht
  | cons x xs ih => exact (hf x).bind fun _ => ih

theorem Safe.plain {m : Edit α} (h : Safe P m Q) {t u : Tree} {e : Failure} (ht : P t)
    (hError : m t = .error e u) : e.IsPlain := by
  rcases h t ht with ⟨a, w, hOk, _⟩ | ⟨e', w, hError', hPlain⟩
  · rw [hOk] at hError
    cases hError
  · rw [hError'] at hError
    cases hError
    exact hPlain

end Edit

/-! ## Scopes and bindings -/

namespace Tree

open Edit

/-- A scope with this number exists. -/
def Has (s : Nat) (t : Tree) : Prop := s < t.scopes.size

theorem isPlain_of_obstacle? {t : Tree} {s : Nat} {e : Entry} {failure : Failure} (hs : t.Has s)
    (h : t.obstacle? s e = some failure) : failure.IsPlain := by
  have hScope : t.containsScope s = true := (containsScope_iff t s).mpr hs
  cases e with
  | linked name link =>
    simp only [obstacle?, hScope, Bool.not_true, Bool.false_eq_true, if_false] at h
    split at h
    · cases h
      exact ⟨_, rfl⟩
    · split at h
      · cases h
        exact ⟨_, rfl⟩
      · cases h
  | var v =>
    simp only [obstacle?, hScope, Bool.not_true, Bool.false_eq_true, if_false] at h
    split at h
    · split at h
      · cases h
        exact ⟨_, rfl⟩
      · cases h
    · cases h

theorem add_safe (s : Nat) (e : Entry) : Safe (Has s) (add s e) fun _ => Has s := by
  intro t hs
  rw [add_apply]
  cases hObstacle : t.obstacle? s e with
  | some failure => exact .inr ⟨failure, t, rfl, isPlain_of_obstacle? hs hObstacle⟩
  | none => exact .inl ⟨_, _, rfl, Nat.lt_of_lt_of_eq hs (size_scopes_insert t s e).symm⟩

theorem pushScope_safe (kind : ScopeKind) (parent : Nat) :
    Safe (fun _ => True) (pushScope kind parent) Has := by
  intro t _
  rw [pushScope_apply]
  split
  · exact .inr ⟨_, t, rfl, _, rfl⟩
  · split
    · exact .inl ⟨_, _, rfl, by simp [Has]⟩
    · exact .inr ⟨_, t, rfl, _, rfl⟩

theorem failsPlainly_resolveReference (t : Tree) (ref : Reference) : FailsPlainly (t.resolveReference ref) := by
  rw [resolveReference]
  split
  · split
    · exact failsPlainly_ok _
    · exact failsPlainly_fail _
  · exact failsPlainly_fail _

theorem failsPlainly_candidateOf (v : Variable) : FailsPlainly (candidateOf v) := by
  rw [candidateOf]
  split
  · exact failsPlainly_ok _
  · split
    · exact failsPlainly_ok _
    · exact failsPlainly_fail _

theorem allocateOne_safe (b : Nat) : Safe (fun _ => True) (allocateOne b) fun _ _ => True := by
  apply safe_get_bind
  intro t _
  split
  · rename_i v hEntry
    split
    · rename_i hPending
      apply (safe_inspect fun _ => failsPlainly_candidateOf v).bind
      intro candidate u hu
      -- The binding has just been found, so naming it cannot miss it.
      obtain ⟨_, rfl⟩ := hu
      obtain ⟨⟨owner, e⟩, hBinding, rfl⟩ := Option.map_eq_some_iff.mp hEntry
      cases hTarget : v.target with
      | assigned name =>
        rw [hTarget] at hPending
        cases hPending
      | pending desired =>
        simp only [bind, EStateM.bind, assignTarget_apply, hBinding, hTarget]
        exact .inl ⟨_, _, rfl, trivial⟩
    · exact safe_pure fun _ _ => trivial
  · exact safe_pure fun _ _ => trivial

theorem allocate_safe : Safe (fun _ => True) allocate fun _ _ => True := by
  intro t ht
  rw [allocate_apply]
  exact safe_forM allocateOne_safe t.namingOrder t ht

theorem failsPlainly_ofGlobals (r : Registry) (extra : List String) (container : String) :
    FailsPlainly (ofGlobals r extra container) := by
  have hAdd (name : String) : Safe (Has 0) (addGlobal container name) fun _ => Has 0 :=
    (add_safe 0 _).bind fun _ => safe_pure fun _ ht => ht
  intro e he
  obtain ⟨u, hRun⟩ := finish_eq_error he
  exact (safe_forM hAdd _).plain (t := empty) Nat.zero_lt_one hRun

end Tree

open TreeLowering.Tree Edit

theorem Variable.failsPlainly_parse (identifier : Option String) (storage access : String) :
    FailsPlainly (Variable.parse identifier storage access) := by
  rw [Variable.parse]
  split
  · exact failsPlainly_fail _
  · split
    · exact failsPlainly_fail _
    · exact failsPlainly_ok _

namespace BindingDecl

theorem failsPlainly_entry (t : Tree) (s : Nat) (d : BindingDecl) : FailsPlainly (d.entry t s) := by
  cases d with
  | linked identifier link =>
    apply (t.failsPlainly_resolveReference link).bind
    exact fun _ => failsPlainly_ok _
  | var identifier storage access fixed desired container =>
    apply (Variable.failsPlainly_parse identifier storage access).bind
    intro v
    refine FailsPlainly.bind ?_ fun _ => failsPlainly_ok _
    rw [agreement.eq_def]
    split
    · exact failsPlainly_ok _
    · exact failsPlainly_ok _
    · exact failsPlainly_fail _
    · exact failsPlainly_fail _

theorem attach_safe (s : Nat) (d : BindingDecl) : Safe (Has s) (d.attach s) fun _ => Has s :=
  (safe_inspect fun t => d.failsPlainly_entry t s).bind fun e =>
    (add_safe s e).bind fun _ => safe_pure fun _ ht => ht

end BindingDecl

namespace ScopeDecl

theorem attach_safe (id : Nat) (d : ScopeDecl) :
    Safe (fun _ => True) (d.attach id) fun _ _ => True := by
  rw [ScopeDecl.attach]
  split
  · exact safe_fail _
  · apply (pushScope_safe d.kind.scopeKind d.parent).bind
    intro s t hs
    rcases safe_forM (BindingDecl.attach_safe s) d.bindings t hs with ⟨a, u, hOk, _⟩ | hError
    · exact .inl ⟨a, u, hOk, trivial⟩
    · exact .inr hError

theorem attachFrom_safe (id : Nat) (ds : List ScopeDecl) :
    Safe (fun _ => True) (attachFrom id ds) fun _ _ => True := by
  induction ds generalizing id with
  | nil => exact safe_pure fun _ _ => trivial
  | cons d ds ih => exact (attach_safe id d).bind fun _ => ih (id + 1)

theorem attachAll_safe (ds : List ScopeDecl) :
    Safe (fun _ => True) (attachAll ds) fun _ _ => True := by
  apply safe_get_bind
  intro t _
  split
  · intro u _
    exact attachFrom_safe 1 ds u trivial
  · exact safe_fail _

end ScopeDecl

/-! ## Documents -/

theorem Mention.check_eq_error {t : Tree} {m : Mention} {e : Failure} (h : m.check t = .error e) :
    m.existsIn t = false ∧ e = m.failure := by
  rw [Mention.check] at h
  split at h
  · cases h
  · rename_i hMissing
    cases h
    exact ⟨by simpa using hMissing, rfl⟩

theorem Program.validate_eq_error {p : Program} {t : Tree} {e : Failure} (h : p.validate t = .error e) :
    ∃ m ∈ p.mentions, m.existsIn t = false ∧ e = m.failure := by
  rw [Program.validate] at h
  generalize p.mentions = ms at h
  induction ms with
  | nil => cases h
  | cons m ms ih =>
    have hCons : (m :: ms).forM (Mention.check t) = m.check t >>= fun _ => ms.forM (Mention.check t) := rfl
    rw [hCons] at h
    cases hCheck : m.check t with
    | error failure =>
      rw [hCheck] at h
      cases h
      exact ⟨m, List.mem_cons_self, Mention.check_eq_error hCheck⟩
    | ok _ =>
      rw [hCheck] at h
      obtain ⟨m', hm', he⟩ := ih h
      exact ⟨m', List.mem_cons_of_mem m hm', he⟩

namespace Document

theorem scopeTree_eq_error {d : Document} {registry : Registry} {options : Options} {e : Failure}
    (h : d.scopeTree registry options = .error e) : e.IsPlain ∨ ∃ m ∈ d.program.mentions, e = m.failure := by
  rw [scopeTree_eq] at h
  cases hGlobals : Tree.ofGlobals registry options.extraGlobals options.runtime.globalsIdentifier with
  | error failure =>
    rw [hGlobals] at h
    cases h
    exact .inl (failsPlainly_ofGlobals _ _ _ _ hGlobals)
  | ok globals =>
    rw [hGlobals] at h
    simp only [Except.bind, finish, grow, bind, EStateM.bind] at h
    cases hAttach : ScopeDecl.attachAll d.scopes globals with
    | error failure u =>
      rw [hAttach] at h
      cases h
      exact .inl ((ScopeDecl.attachAll_safe _).plain trivial hAttach)
    | ok _ attached =>
      rw [hAttach] at h
      cases hValidate : d.program.validate attached with
      | error failure =>
        simp only [inspect, hValidate] at h
        cases h
        obtain ⟨m, hm, _, he⟩ := Program.validate_eq_error hValidate
        exact .inr ⟨m, hm, he⟩
      | ok _ =>
        simp only [inspect, hValidate] at h
        cases hAllocate : Tree.allocate attached with
        | error failure u =>
          rw [hAllocate] at h
          cases h
          exact .inl (allocate_safe.plain trivial hAllocate)
        | ok _ t =>
          rw [hAllocate] at h
          cases h

theorem compile_eq_error {d : Document} {registry : Registry} {options : Options} {e : Failure}
    (h : d.compile registry options = .error e) : ∃ cause loc, e = .fault cause loc := by
  rw [compile] at h
  cases hTree : d.scopeTree registry options with
  | error failure =>
    rw [hTree] at h
    cases h
    rcases scopeTree_eq_error hTree with ⟨cause, rfl⟩ | ⟨m, _, rfl⟩
    · exact ⟨cause, none, rfl⟩
    · cases m with
      | scope id loc => exact ⟨_, loc, rfl⟩
      | reference ref loc => exact ⟨_, loc, rfl⟩
  | ok t =>
    rw [hTree] at h
    obtain ⟨hFinished, hMentions⟩ := scopeTree_finished hTree
    have hServes := Program.lowerModule_serves (g := ⟨t, options.runtime⟩) hFinished hMentions
    simp only [bind, Except.bind, Program.lower] at h
    rcases hServes (Sink.empty options.indent) with ⟨_, text, hOk⟩ | ⟨_, name, seeker, loc, k, hError⟩
    · rw [hOk] at h
      cases h
    · rw [hError] at h
      cases h
      exact ⟨_, loc, rfl⟩

end Document
end TreeLowering
