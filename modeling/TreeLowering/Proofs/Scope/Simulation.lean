import TreeLowering.Compile
import TreeLowering.Proofs.Scope.Indexed

/-! # Arenas follow trees

An edit of an indexed arena gives the answer that the edit of the same name gives on its tree, and
leaves an indexed arena, whose tree is what the other edit leaves. So a run of operations on an arena
is their run on its tree, and a document has the scope tree that is built without indexes. -/
namespace TreeLowering
set_option autoImplicit false

open Edit

namespace Arena

variable {α β : Type}

/-- The answer of an edit, with the tree of the arena that it leaves behind. -/
def seen : EStateM.Result Failure Arena α → EStateM.Result Failure Tree α
  | .ok x a => .ok x a.tree
  | .error e a => .error e a.tree

def Follows (m : Update α) (e : Edit α) : Prop :=
  ∀ a : Arena, a.Indexed → seen (m a) = e a.tree ∧ (after m a).Indexed

theorem Follows.tree_after {m : Update α} {e : Edit α} (h : Follows m e) {a : Arena} (ha : a.Indexed) :
    (after m a).tree = after e a.tree := by
  rw [after, after, ← (h a ha).1]
  cases m a <;> rfl

theorem Follows.eq_ok {m : Update α} {e : Edit α} (h : Follows m e) {a b : Arena} (ha : a.Indexed) {x : α}
    (hRun : m a = .ok x b) : e a.tree = .ok x b.tree := by
  rw [← (h a ha).1, hRun]
  rfl

theorem Follows.exists_ok_iff {m : Update α} {e : Edit α} (h : Follows m e) {a : Arena} (ha : a.Indexed) {x : α} :
    (∃ b, m a = .ok x b) ↔ ∃ t, e a.tree = .ok x t := by
  rw [← (h a ha).1]
  cases m a <;> simp [seen]

/-! ## Sequences of edits -/

theorem follows_pure (x : α) : Follows (pure x) (pure x) := fun _ h => ⟨rfl, h⟩

theorem follows_throw (e : Failure) : Follows (throw e : Update α) (throw e) := fun _ h => ⟨rfl, h⟩

theorem follows_inspect {f : Arena → Result α} {g : Tree → Result α} (hf : ∀ a, a.Indexed → f a = g a.tree) :
    Follows (inspect f) (inspect g) := by
  intro a h
  rw [after, inspect, inspect, hf a h]
  cases g a.tree <;> exact ⟨rfl, h⟩

theorem follows_bind {m : Update α} {e : Edit α} {k : α → Update β} {l : α → Edit β} (hm : Follows m e)
    (hk : ∀ x, Follows (k x) (l x)) : Follows (m >>= k) (e >>= l) := by
  intro a h
  obtain ⟨hAnswer, hAfter⟩ := hm a h
  cases hRun : m a with
  | ok x b =>
    rw [hRun] at hAnswer
    rw [run_bind_of_ok hRun, after_bind_of_ok hRun, run_bind_of_ok hAnswer.symm]
    exact hk x b (after_of_ok hRun ▸ hAfter)
  | error failure b =>
    rw [hRun] at hAnswer
    rw [run_bind_of_error hRun, after_bind_of_error hRun, run_bind_of_error hAnswer.symm]
    exact ⟨rfl, hAfter⟩

theorem follows_get_bind {k : Arena → Update β} {l : Tree → Edit β}
    (hk : ∀ a, a.Indexed → Follows (k a) (l a.tree)) : Follows (get >>= k) (get >>= l) :=
  fun a h => hk a h a h

theorem follows_discard {m : Update α} {e : Edit α} (hm : Follows m e) : Follows (discard m) (discard e) :=
  follows_bind hm fun _ => follows_pure ()

theorem follows_forM {f : α → Update Unit} {g : α → Edit Unit} (hf : ∀ x, Follows (f x) (g x)) (xs : List α) :
    Follows (xs.forM f) (xs.forM g) := by
  induction xs with
  | nil => exact follows_pure ()
  | cons x xs ih => exact follows_bind (hf x) fun _ => ih

theorem Follows.finish {m : Update Unit} {e : Edit Unit} (h : Follows m e) {a : Arena} (ha : a.Indexed) :
    (finish m a).map tree = finish e a.tree := by
  rw [Edit.finish, Edit.finish, ← (h a ha).1]
  cases m a <;> rfl

theorem Follows.indexed_of_finish {m : Update Unit} {e : Edit Unit} (h : Follows m e) {a b : Arena}
    (ha : a.Indexed) (hRun : Edit.finish m a = .ok b) : b.Indexed :=
  after_of_ok (finish_eq_ok hRun) ▸ (h a ha).2

/-! ## Single edits -/

theorem pushScope_apply (kind : ScopeKind) (parent : Nat) (a : Arena) :
    pushScope kind parent a =
      if kind = .global then .error (.fault .secondGlobalScope none) a
      else if parent < a.scopes.size then
        .ok a.scopes.size { a with scopes := a.scopes.push ⟨a.scopes.size, kind, some parent, [], [], []⟩ }
      else .error (.fault (.missingParent parent) none) a := by
  simp only [pushScope, get_bind_apply]
  split
  · rfl
  · split <;> rfl

theorem add_apply (s : Nat) (e : Entry) (a : Arena) :
    add s e a =
      match (a.dangling? e).or (a.taken? s e) with
      | some failure => .error failure a
      | none => .ok a.bindings.size ((a.reserveFixed s e).append s e) := by
  simp only [add, get_bind_apply]
  cases (a.dangling? e).or (a.taken? s e) <;> rfl

theorem remove_apply (s : Nat) (name : String) (a : Arena) :
    remove s name a =
      if s < a.scopes.size then
        match a.named? s name with
        | some b => .ok (some b) { a with scopes := a.scopes.modify s (·.drop name b) }
        | none => .ok none a
      else .error .outOfRange a := by
  simp only [remove, get_bind_apply, named?]
  by_cases hs : s < a.scopes.size
  · rw [if_pos hs, Array.getElem?_eq_getElem hs]
    simp only [Option.bind_some]
    cases a.scopes[s].names.lookup name <;> rfl
  · rw [if_neg hs, Array.getElem?_eq_none (Nat.not_lt.mp hs)]
    rfl

theorem assignTarget_apply (b : Nat) (candidate : String) (a : Arena) :
    assignTarget b candidate a =
      match a.bindings[b]? with
      | none => .error .outOfRange a
      | some x =>
        match x.entry with
        | .linked name _ => .error (.fault (.aliasAssigned name) none) a
        | .var v =>
          match v.target with
          | .assigned name => .error (.fault (.alreadyAssigned v.identifier name) none) a
          | .pending _ =>
            .ok (a.chooseTarget x v.storage candidate).1
              ((a.chooseTarget x v.storage candidate).2.setTarget b (a.chooseTarget x v.storage candidate).1) := by
  simp only [assignTarget, get_bind_apply]
  cases a.bindings[b]? with
  | none => rfl
  | some x =>
    obtain ⟨owner, entry⟩ := x
    cases entry with
    | linked name link => rfl
    | var v =>
      obtain ⟨identifier, storage, access, target, container⟩ := v
      cases target <;> rfl

theorem follows_pushScope (kind : ScopeKind) (parent : Nat) :
    Follows (pushScope kind parent) (Tree.pushScope kind parent) := by
  intro a h
  rw [after, pushScope_apply, Tree.pushScope_apply, size_tree]
  by_cases hKind : kind = .global
  · rw [if_pos hKind, if_pos hKind]
    exact ⟨rfl, h⟩
  · rw [if_neg hKind, if_neg hKind]
    by_cases hParent : parent < a.scopes.size
    · rw [if_pos hParent, if_pos hParent]
      exact ⟨congrArg _ (a.tree_push ..), h.push hKind hParent⟩
    · rw [if_neg hParent, if_neg hParent]
      exact ⟨rfl, h⟩

theorem follows_add (s : Nat) (e : Entry) : Follows (add s e) (Tree.add s e) := by
  intro a h
  rw [after, add_apply, Tree.add_apply, h.obstacle?_eq]
  cases hFree : a.tree.obstacle? s e with
  | some failure => exact ⟨rfl, h⟩
  | none => exact ⟨congrArg (EStateM.Result.ok a.bindings.size) (a.tree_add s e), h.add hFree⟩

theorem follows_remove (s : Nat) (name : String) : Follows (remove s name) (Tree.remove s name) := by
  intro a h
  rw [after, remove_apply, Tree.remove_apply, size_tree, ← h.named?_eq]
  by_cases hs : s < a.scopes.size
  · rw [if_pos hs, if_pos hs]
    cases hNamed : a.named? s name with
    | some b => exact ⟨congrArg _ (a.tree_drop s name b), h.drop hNamed⟩
    | none => exact ⟨rfl, h⟩
  · rw [if_neg hs, if_neg hs]
    exact ⟨rfl, h⟩

theorem follows_assignTarget (b : Nat) (candidate : String) :
    Follows (assignTarget b candidate) (Tree.assignTarget b candidate) := by
  intro a h
  have hBindings : a.tree.bindings[b]? = a.bindings[b]? := rfl
  rw [after, assignTarget_apply, Tree.assignTarget_apply, hBindings]
  cases hBinding : a.bindings[b]? with
  | none => exact ⟨rfl, h⟩
  | some x =>
    obtain ⟨owner, entry⟩ := x
    cases entry with
    | linked name link => exact ⟨rfl, h⟩
    | var v =>
      have hChoice := h.chooseTarget_eq ⟨owner, .var v⟩ v.storage candidate
      have hReserved := a.tree_chooseTarget ⟨owner, .var v⟩ v.storage candidate
      cases hTarget : v.target with
      | assigned name => simpa only [hTarget] using ⟨rfl, h⟩
      | pending desired =>
        simp only [hTarget, seen, tree_setTarget, hReserved, ← hChoice, true_and]
        exact h.assign hBinding hTarget candidate

/-! ## Naming -/

theorem follows_allocateOne (b : Nat) : Follows (allocateOne b) (Tree.allocateOne b) := by
  refine follows_get_bind fun a h => ?_
  cases a.tree.entryAt? b with
  | none => exact follows_pure ()
  | some e =>
    cases e with
    | linked name link => exact follows_pure ()
    | var v =>
      dsimp only
      split
      · exact follows_bind (follows_inspect fun _ _ => rfl) fun candidate =>
          follows_bind (follows_assignTarget b candidate) fun _ => follows_pure ()
      · exact follows_pure ()

theorem follows_allocateFunction (f : Nat) : Follows (allocateFunction f) (Tree.allocateFunction f) := by
  refine follows_get_bind fun a h => ?_
  rw [h.allocationOrder_eq]
  exact follows_forM follows_allocateOne _

theorem follows_allocate : Follows allocate Tree.allocate := by
  refine follows_get_bind fun a h => ?_
  rw [h.functionScopes_eq]
  exact follows_forM follows_allocateFunction _

theorem follows_addGlobal (container name : String) :
    Follows (addGlobal container name) (Tree.addGlobal container name) :=
  follows_bind (follows_add 0 _) fun _ => follows_pure ()

/-! ## Declared scopes -/

theorem follows_placeBinding (s : Nat) (d : BindingDecl) : Follows (d.place s) (d.attach s) := by
  refine follows_bind (follows_inspect fun a h => ?_) fun e => follows_bind (follows_add s e) fun _ => follows_pure ()
  rw [BindingDecl.entry, funext h.resolveReference_eq]

theorem follows_place (id : Nat) (d : ScopeDecl) : Follows (d.place id) (d.attach id) := by
  rw [ScopeDecl.place, ScopeDecl.attach]
  split
  · exact follows_throw _
  · exact follows_bind (follows_pushScope _ _) fun s => follows_forM (follows_placeBinding s) d.bindings

theorem follows_placeFrom (id : Nat) (ds : List ScopeDecl) :
    Follows (ScopeDecl.placeFrom id ds) (ScopeDecl.attachFrom id ds) := by
  induction ds generalizing id with
  | nil => exact follows_pure ()
  | cons d ds ih => exact follows_bind (follows_place id d) fun _ => ih (id + 1)

theorem follows_placeAll (ds : List ScopeDecl) : Follows (ScopeDecl.placeAll ds) (ScopeDecl.attachAll ds) := by
  refine follows_get_bind fun a h => ?_
  rw [size_tree]
  split
  · exact follows_placeFrom 1 ds
  · exact follows_throw _

end Arena

/-! ## Runs of operations -/

/-- The operation on an arena. -/
def Tree.Operation.update : Tree.Operation → Arena.Update Unit
  | push kind parent => discard (Arena.pushScope kind parent)
  | add s e => discard (Arena.add s e)
  | remove s name => discard (Arena.remove s name)
  | assign b candidate => discard (Arena.assignTarget b candidate)
  | allocate => Arena.allocate
  | attach ds => ScopeDecl.placeAll ds

namespace Arena

theorem follows_update (op : Tree.Operation) : Follows op.update op.edit := by
  cases op with
  | push kind parent => exact follows_discard (follows_pushScope kind parent)
  | add s e => exact follows_discard (follows_add s e)
  | remove s name => exact follows_discard (follows_remove s name)
  | assign b candidate => exact follows_discard (follows_assignTarget b candidate)
  | allocate => exact follows_allocate
  | attach ds => exact follows_placeAll ds

/-- The arena after an operation; one that fails may have done a part of its work. -/
def run (a : Arena) (op : Tree.Operation) : Arena := after op.update a

/-- The arena after a run of operations, in order. -/
def runAll (a : Arena) (ops : List Tree.Operation) : Arena := ops.foldl run a

variable {a : Arena}

theorem Indexed.run (h : a.Indexed) (op : Tree.Operation) : (a.run op).Indexed := (follows_update op a h).2

theorem Indexed.tree_run (h : a.Indexed) (op : Tree.Operation) : (a.run op).tree = op.run a.tree :=
  (follows_update op).tree_after h

theorem Indexed.runAll (h : a.Indexed) (ops : List Tree.Operation) : (a.runAll ops).Indexed := by
  induction ops generalizing a with
  | nil => exact h
  | cons op ops ih => exact ih (h.run op)

theorem Indexed.tree_runAll (h : a.Indexed) (ops : List Tree.Operation) :
    (a.runAll ops).tree = Tree.Operation.runAll ops a.tree := by
  induction ops generalizing a with
  | nil => rfl
  | cons op ops ih =>
    calc (a.runAll (op :: ops)).tree = Tree.Operation.runAll ops (a.run op).tree := ih (h.run op)
      _ = Tree.Operation.runAll (op :: ops) a.tree := by
        rw [h.tree_run]
        rfl

/-! ## Finished arenas -/

theorem follows_globals (names : List String) (container : String) :
    Follows (names.forM (addGlobal container)) (names.forM (Tree.addGlobal container)) :=
  follows_forM (follows_addGlobal container) names

theorem tree_ofGlobals (r : Registry) (extra : List String) (container : String) :
    (ofGlobals r extra container).map tree = Tree.ofGlobals r extra container :=
  (follows_globals _ container).finish Indexed.empty

theorem Indexed.ofGlobals {r : Registry} {extra : List String} {container : String}
    (h : ofGlobals r extra container = .ok a) : a.Indexed :=
  (follows_globals _ container).indexed_of_finish Indexed.empty h

end Arena

namespace Document

open Arena

/-- The work of a document on a tree without indexes. -/
def grow (d : Document) : Edit Unit := do
  ScopeDecl.attachAll d.scopes
  inspect d.program.validate
  Tree.allocate

theorem follows_build (d : Document) : Follows d.build d.grow :=
  follows_bind (follows_placeAll d.scopes) fun _ =>
    follows_bind (follows_inspect fun _ _ => rfl) fun _ => follows_allocate

/-- The scope tree of a document is the one that is built without indexes. -/
theorem scopeTree_eq (d : Document) (registry : Registry) (options : Options) :
    d.scopeTree registry options =
      (Tree.ofGlobals registry options.extraGlobals options.runtime.globalsIdentifier).bind (finish d.grow) := by
  rw [scopeTree, arena, ← tree_ofGlobals]
  cases hGlobals : Arena.ofGlobals registry options.extraGlobals options.runtime.globalsIdentifier with
  | error e => rfl
  | ok globals => exact d.follows_build.finish (Indexed.ofGlobals hGlobals)

theorem indexed_of_arena {d : Document} {registry : Registry} {options : Options} {a : Arena}
    (h : d.arena registry options = .ok a) : a.Indexed := by
  obtain ⟨globals, hGlobals, hBuild⟩ := exists_of_bind_eq_ok h
  exact d.follows_build.indexed_of_finish (Indexed.ofGlobals hGlobals) hBuild

/-- The stages of a finished tree: its globals, the attached scopes, the assigned targets. -/
theorem scopeTree_eq_ok {d : Document} {registry : Registry} {options : Options} {t : Tree}
    (h : d.scopeTree registry options = .ok t) :
    ∃ globals attached, Tree.ofGlobals registry options.extraGlobals
        options.runtime.globalsIdentifier = .ok globals ∧
      ScopeDecl.attachAll d.scopes globals = .ok () attached ∧
      d.program.validate attached = .ok () ∧ Tree.allocate attached = .ok () t := by
  rw [scopeTree_eq] at h
  obtain ⟨globals, hGlobals, hGrow⟩ := exists_of_bind_eq_ok h
  obtain ⟨_, attached, hAttach, hRest⟩ := exists_of_run_eq_ok (finish_eq_ok hGrow)
  obtain ⟨_, u, hValidate, hAllocate⟩ := exists_of_run_eq_ok hRest
  obtain ⟨hValid, rfl⟩ := inspect_eq_ok hValidate
  exact ⟨globals, u, hGlobals, hAttach, hValid, hAllocate⟩

end Document
end TreeLowering
