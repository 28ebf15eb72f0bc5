import Mathlib.Logic.Relation
import TreeLowering.Program.Attach
import TreeLowering.Proofs.Scope.WellFormed
import TreeLowering.Proofs.Sequence

/-! # Operations on scope trees, and runs of them

Every operation, successful or not, leaves a tree that arises by single changes, so what a single
change keeps is kept by every run. -/
namespace TreeLowering
set_option autoImplicit false

open Relation

namespace Edit

variable {σ α β : Type}

@[simp] theorem get_bind_apply (k : σ → EStateM Failure σ β) (t : σ) :
    ((get : EStateM Failure σ σ) >>= k) t = k t t := rfl

@[simp] theorem set_bind_apply (u : σ) (k : PUnit → EStateM Failure σ β) (t : σ) :
    ((set u : EStateM Failure σ PUnit) >>= k) t = k ⟨⟩ u := rfl

@[simp] theorem pure_apply (a : α) (t : σ) : (pure a : EStateM Failure σ α) t = .ok a t := rfl

@[simp] theorem throw_apply (e : Failure) (t : σ) : (throw e : EStateM Failure σ α) t = .error e t := rfl

@[simp] theorem fail_apply (cause : Fault) (t : σ) :
    (fail cause : EStateM Failure σ α) t = .error (.fault cause none) t := rfl

/-- The state that an edit leaves behind, whether it succeeds or fails. -/
def after (m : EStateM Failure σ α) (t : σ) : σ :=
  match m t with
  | .ok _ u | .error _ u => u

theorem after_of_ok {m : EStateM Failure σ α} {t u : σ} {a : α} (h : m t = .ok a u) : after m t = u := by
  rw [after, h]

theorem after_bind_of_ok {m : EStateM Failure σ α} {k : α → EStateM Failure σ β} {t u : σ} {a : α}
    (h : m t = .ok a u) : after (m >>= k) t = after (k a) u := by
  rw [after, run_bind_of_ok h, after]

theorem after_bind_of_error {m : EStateM Failure σ α} {k : α → EStateM Failure σ β} {t u : σ} {e : Failure}
    (h : m t = .error e u) : after (m >>= k) t = after m t := by
  rw [after, run_bind_of_error h, after, h]

theorem inspect_eq_ok {f : σ → Result α} {t u : σ} {a : α} (h : inspect f t = .ok a u) :
    f t = .ok a ∧ u = t := by
  rw [inspect] at h
  cases hRead : f t with
  | ok b => simp_all
  | error e => simp [hRead] at h

theorem finish_eq_ok {m : EStateM Failure σ Unit} {t u : σ} (h : finish m t = .ok u) : m t = .ok () u := by
  rw [finish] at h
  cases hRun : m t with
  | ok _ w =>
    rw [hRun] at h
    cases h
    rfl
  | error e w =>
    rw [hRun] at h
    cases h

theorem finish_eq_error {m : EStateM Failure σ Unit} {t : σ} {e : Failure} (h : finish m t = .error e) :
    ∃ u, m t = .error e u := by
  rw [finish] at h
  cases hRun : m t with
  | ok _ w =>
    rw [hRun] at h
    cases h
  | error e w =>
    rw [hRun] at h
    cases h
    exact ⟨w, rfl⟩

/-- The edit works by steps of the relation. -/
def Within (R : Tree → Tree → Prop) (m : Edit α) : Prop := ∀ t, ReflTransGen R t (after m t)

variable {R : Tree → Tree → Prop}

theorem Within.mono {S : Tree → Tree → Prop} {m : Edit α} (h : Within R m)
    (hSub : ∀ t u, R t u → S t u) : Within S m :=
  fun t => ReflTransGen.mono hSub _ _ (h t)

theorem within_pure (a : α) : Within R (pure a : Edit α) := fun _ => .refl

theorem within_throw (e : Failure) : Within R (throw e : Edit α) := fun _ => .refl

theorem within_inspect (f : Tree → Result α) : Within R (inspect f) := by
  intro t
  rw [after, inspect]
  cases f t <;> exact .refl

theorem within_bind {m : Edit α} {k : α → Edit β} (hm : Within R m) (hk : ∀ a, Within R (k a)) :
    Within R (m >>= k) := by
  intro t
  cases hRun : m t with
  | ok a u =>
    rw [after_bind_of_ok hRun]
    exact (after_of_ok hRun ▸ hm t).trans (hk a u)
  | error e u =>
    rw [after_bind_of_error hRun]
    exact hm t

theorem within_discard {m : Edit α} (hm : Within R m) : Within R (discard m) :=
  within_bind hm fun _ => within_pure ()

theorem within_get_bind {k : Tree → Edit β} (hk : ∀ t, Within R (k t)) : Within R (get >>= k) :=
  fun t => hk t t

theorem within_forM {f : α → Edit Unit} (hf : ∀ a, Within R (f a)) (xs : List α) :
    Within R (xs.forM f) := by
  induction xs with
  | nil => exact within_pure ()
  | cons x xs ih => exact within_bind (hf x) fun _ => ih

end Edit

namespace Tree

open Edit

theorem pushScope_apply (kind : ScopeKind) (parent : Nat) (t : Tree) :
    pushScope kind parent t =
      if kind = .global then .error (.fault .secondGlobalScope none) t
      else if parent < t.scopes.size then
        .ok t.scopes.size { t with scopes := t.scopes.push ⟨kind, some parent, []⟩ }
      else .error (.fault (.missingParent parent) none) t := by
  simp only [pushScope, get_bind_apply, containsScope_iff]
  split
  · rfl
  · split <;> rfl

theorem add_apply (s : Nat) (e : Entry) (t : Tree) :
    add s e t =
      match t.obstacle? s e with
      | some failure => .error failure t
      | none => .ok t.bindings.size (t.insert s e) := by
  simp only [add, get_bind_apply]
  cases t.obstacle? s e <;> rfl

theorem add_eq_ok {s b : Nat} {e : Entry} {t u : Tree} (h : add s e t = .ok b u) :
    b = t.bindings.size ∧ u = t.insert s e := by
  rw [add_apply] at h
  split at h
  · cases h
  · cases h
    exact ⟨rfl, rfl⟩

theorem remove_apply (s : Nat) (name : String) (t : Tree) :
    remove s name t =
      if s < t.scopes.size then
        match t.named? s name with
        | some b => .ok (some b) (t.retract s b)
        | none => .ok none t
      else .error .outOfRange t := by
  simp only [remove, get_bind_apply, containsScope_iff]
  split
  · cases t.named? s name <;> rfl
  · rfl

theorem assignTarget_apply (b : Nat) (candidate : String) (t : Tree) :
    assignTarget b candidate t =
      match t.bindings[b]? with
      | none => .error .outOfRange t
      | some x =>
        match x.entry with
        | .linked name _ => .error (.fault (.aliasAssigned name) none) t
        | .var v =>
          match v.target with
          | .assigned name => .error (.fault (.alreadyAssigned v.identifier name) none) t
          | .pending _ =>
            .ok (t.chooseTarget x v.storage candidate)
              (t.setTarget b (t.chooseTarget x v.storage candidate)) := by
  simp only [assignTarget, get_bind_apply]
  cases t.bindings[b]? with
  | none => rfl
  | some x =>
    obtain ⟨owner, entry⟩ := x
    cases entry with
    | linked name link => rfl
    | var v =>
      obtain ⟨identifier, storage, access, target, container⟩ := v
      cases target <;> rfl

theorem pushScope_within (kind : ScopeKind) (parent : Nat) : Within Growth (pushScope kind parent) := by
  intro t
  rw [after, pushScope_apply]
  by_cases hKind : kind = .global
  · rw [if_pos hKind]
  · by_cases hParent : parent < t.scopes.size
    · rw [if_neg hKind, if_pos hParent]
      exact .single (.push hKind hParent)
    · rw [if_neg hKind, if_neg hParent]

theorem add_within (s : Nat) (e : Entry) : Within Growth (add s e) := by
  intro t
  rw [after, add_apply]
  cases hFree : t.obstacle? s e with
  | some failure => exact .refl
  | none => exact .single (.insert hFree)

theorem remove_within (s : Nat) (name : String) : Within Change (remove s name) := by
  intro t
  rw [after, remove_apply]
  by_cases hs : s < t.scopes.size
  · rw [if_pos hs]
    cases hNamed : t.named? s name with
    | some b => exact .single (.retract hNamed)
    | none => exact .refl
  · rw [if_neg hs]

theorem assignTarget_within (b : Nat) (candidate : String) :
    Within Naming (assignTarget b candidate) := by
  intro t
  rw [after, assignTarget_apply]
  cases hBinding : t.bindings[b]? with
  | none => exact .refl
  | some x =>
    obtain ⟨owner, entry⟩ := x
    cases entry with
    | linked name link => exact .refl
    | var v =>
      cases hTarget : v.target with
      | assigned name => simpa [hTarget] using ReflTransGen.refl
      | pending desired =>
        simpa [hTarget] using ReflTransGen.single (Naming.assign candidate hBinding hTarget)

theorem allocateOne_within (b : Nat) : Within Naming (allocateOne b) := by
  refine within_get_bind fun t => ?_
  split
  · split
    · exact within_bind (within_inspect _) fun candidate =>
        within_bind (assignTarget_within b candidate) fun _ => within_pure ()
    · exact within_pure ()
  · exact within_pure ()

theorem allocateFunction_within (f : Nat) : Within Naming (allocateFunction f) :=
  within_get_bind fun t => within_forM allocateOne_within (t.allocationOrder f)

theorem allocate_within : Within Naming allocate :=
  within_get_bind fun t => within_forM allocateFunction_within t.functionScopes

end Tree

namespace ScopeDecl

open Edit TreeLowering.Tree

theorem attachBinding_within (s : Nat) (d : BindingDecl) : Within Growth (d.attach s) :=
  within_bind (within_inspect _) fun e => within_bind (add_within s e) fun _ => within_pure ()

theorem attach_within (id : Nat) (d : ScopeDecl) : Within Growth (d.attach id) := by
  rw [ScopeDecl.attach]
  split
  · exact within_throw _
  · exact within_bind (pushScope_within _ _) fun s => within_forM (attachBinding_within s) d.bindings

theorem attachFrom_within (id : Nat) (ds : List ScopeDecl) : Within Growth (attachFrom id ds) := by
  induction ds generalizing id with
  | nil => exact within_pure ()
  | cons d ds ih => exact within_bind (attach_within id d) fun _ => ih (id + 1)

theorem attachAll_within (ds : List ScopeDecl) : Within Growth (attachAll ds) := by
  refine within_get_bind fun t => ?_
  split
  · exact attachFrom_within 1 ds
  · exact within_throw _

end ScopeDecl

namespace Tree

open Edit

/-! ## Runs of operations -/

inductive Operation where
  | push (kind : ScopeKind) (parent : Nat)
  | add (scope : Nat) (entry : Entry)
  | remove (scope : Nat) (name : String)
  | assign (binding : Nat) (candidate : String)
  | allocate
  | attach (scopes : List ScopeDecl)

namespace Operation

def edit : Operation → Edit Unit
  | push kind parent => discard (pushScope kind parent)
  | add s e => discard (Tree.add s e)
  | remove s name => discard (Tree.remove s name)
  | assign b candidate => discard (assignTarget b candidate)
  | allocate => Tree.allocate
  | attach ds => ScopeDecl.attachAll ds

/-- The tree after an operation; one that fails may have done a part of its work. -/
def run (op : Operation) (t : Tree) : Tree := after op.edit t

/-- The tree after a run of operations, in order. -/
def runAll (ops : List Operation) (t : Tree) : Tree := ops.foldl (fun u op => op.run u) t

theorem run_changes (op : Operation) (t : Tree) : ReflTransGen Change t (op.run t) := by
  have hGrowth : ∀ t u, Growth t u → Change t u := fun _ _ => .growth
  have hNaming : ∀ t u, Naming t u → Change t u := fun _ _ => .naming
  cases op with
  | push kind parent => exact within_discard ((pushScope_within kind parent).mono hGrowth) t
  | add s e => exact within_discard ((add_within s e).mono hGrowth) t
  | remove s name => exact within_discard (remove_within s name) t
  | assign b candidate => exact within_discard ((assignTarget_within b candidate).mono hNaming) t
  | allocate => exact allocate_within.mono hNaming t
  | attach ds => exact (ScopeDecl.attachAll_within ds).mono hGrowth t

theorem runAll_changes (ops : List Operation) (t : Tree) : ReflTransGen Change t (runAll ops t) := by
  induction ops generalizing t with
  | nil => exact .refl
  | cons op ops ih => exact (op.run_changes t).trans (ih (op.run t))

end Operation

theorem WellFormed.changes {t u : Tree} (h : t.WellFormed) (hChanges : ReflTransGen Change t u) :
    u.WellFormed := by
  induction hChanges with
  | refl => exact h
  | tail _ hChange ih => exact ih.change hChange

theorem WellFormed.grows {t u : Tree} (h : t.WellFormed) (hGrows : ReflTransGen Growth t u) :
    u.WellFormed := h.changes (ReflTransGen.mono (fun _ _ => .growth) _ _ hGrows)

theorem WellFormed.names {t u : Tree} (h : t.WellFormed) (hNames : ReflTransGen Naming t u) :
    u.WellFormed := h.changes (ReflTransGen.mono (fun _ _ => .naming) _ _ hNames)

/-! ## Trees of global names -/

/-- The tree that has just these global names, in this order. -/
def globalTree (container : String) (names : List String) : Tree where
  scopes := #[⟨.global, none, List.range names.length⟩]
  bindings := (names.map fun name => ⟨0, .var (Variable.ofMember name container)⟩).toArray

theorem identifier?_globalTree (container : String) (names : List String) (b : Nat) :
    (globalTree container names).identifier? b = names[b]? := by
  rw [identifier?, entryAt?, globalTree, List.getElem?_toArray, List.getElem?_map]
  cases names[b]? <;> rfl

theorem insert_globalTree (container name : String) (names : List String) :
    (globalTree container names).insert 0 (.var (Variable.ofMember name container)) =
      globalTree container (names ++ [name]) := by
  simp [globalTree, insert, List.range_succ]

theorem forM_addGlobal {container : String} {names : List String} (done : List String) {t : Tree}
    (h : names.forM (addGlobal container) (globalTree container done) = .ok () t) :
    t = globalTree container (done ++ names) := by
  induction names generalizing done with
  | nil =>
    cases h
    rw [List.append_nil]
  | cons name names ih =>
    obtain ⟨_, u, hAdd, hRest⟩ := exists_of_run_eq_ok h
    obtain ⟨b, w, hAdd, hPure⟩ := exists_of_run_eq_ok hAdd
    cases hPure
    rw [add_apply] at hAdd
    split at hAdd
    · cases hAdd
    · cases hAdd
      rw [insert_globalTree] at hRest
      simpa using ih (done ++ [name]) hRest

theorem ofGlobals_run {r : Registry} {extra : List String} {container : String} {t : Tree}
    (h : ofGlobals r extra container = .ok t) :
    (r.names ++ extra).forM (addGlobal container) empty = .ok () t := finish_eq_ok h

theorem ofGlobals_eq_ok {r : Registry} {extra : List String} {container : String} {t : Tree}
    (h : ofGlobals r extra container = .ok t) : t = globalTree container (r.names ++ extra) :=
  forM_addGlobal [] (ofGlobals_run h)

theorem WellFormed.ofGlobals {r : Registry} {extra : List String} {container : String} {t : Tree}
    (h : ofGlobals r extra container = .ok t) : t.WellFormed := by
  have hWithin : Within Growth ((r.names ++ extra).forM (addGlobal container)) :=
    within_forM (fun _ => within_bind (add_within _ _) fun _ => within_pure ()) _
  exact WellFormed.empty.grows (after_of_ok (ofGlobals_run h) ▸ hWithin Tree.empty)

end Tree
end TreeLowering
