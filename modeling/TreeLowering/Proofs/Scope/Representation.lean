import Mathlib.Data.List.Nodup
import TreeLowering.Proofs.Scope.Numbering

/-! # The representation of scopes and bindings

Scopes and bindings are entries of two arrays that refer to each other by number: a scope to its
parent and its bindings, twice, in order and by name; a binding to its owner and its link. After any
run of operations these numbers are consistent, and parents and links only lead to smaller numbers, so
that the walks outward and along links end. -/
namespace TreeLowering
set_option autoImplicit false

open Relation Edit

namespace Tree

def link? (t : Tree) (b : Nat) : Option Nat := (t.entryAt? b).bind Entry.link?

/-- The tree arises from the empty one by a run of operations, failing ones included. -/
def Reachable (t : Tree) : Prop := ∃ ops : List Operation, Operation.runAll ops Tree.empty = t

theorem Reachable.wellFormed {t : Tree} (h : t.Reachable) : t.WellFormed := by
  obtain ⟨ops, rfl⟩ := h
  exact WellFormed.empty.changes (Operation.runAll_changes ops Tree.empty)

theorem Reachable.runAll {t : Tree} (h : t.Reachable) (ops : List Operation) :
    (Operation.runAll ops t).Reachable := by
  obtain ⟨before, rfl⟩ := h
  exact ⟨before ++ ops, List.foldl_append⟩

/-! ## Numbers that refer to each other -/

theorem Grounded.kind_eq_global_iff {t : Tree} (h : t.Grounded) {s : Nat} {scope : Scope}
    (hScope : t.scopes[s]? = some scope) : scope.kind = .global ↔ s = 0 := by
  cases s with
  | zero =>
    obtain ⟨order, hRoot⟩ := h.root
    obtain rfl := Option.some.inj (hScope.symm.trans hRoot)
    simp
  | succ s =>
    have hBelow := h.below s scope hScope
    simp [hBelow.1]

theorem Grounded.parent_eq_none_iff {t : Tree} (h : t.Grounded) {s : Nat} {scope : Scope}
    (hScope : t.scopes[s]? = some scope) : scope.parent = none ↔ s = 0 := by
  cases s with
  | zero =>
    obtain ⟨order, hRoot⟩ := h.root
    obtain rfl := Option.some.inj (hScope.symm.trans hRoot)
    simp
  | succ s =>
    obtain ⟨_, p, _, hParent⟩ := h.below s scope hScope
    simp [hParent]

namespace WellFormed

variable {t : Tree}

theorem link_lt (h : t.WellFormed) {b link : Nat} (hLink : t.link? b = some link) : link < b := by
  obtain ⟨e, hEntry, hLink⟩ := Option.bind_eq_some_iff.mp hLink
  cases e with
  | var v => cases hLink
  | linked name l =>
    cases hLink
    exact h.earlier b name link hEntry

theorem nodup_visible (h : t.WellFormed) : ((List.range t.scopes.size).flatMap t.visible).Nodup := by
  rw [List.nodup_flatMap]
  exact ⟨fun s _ => h.once s, List.nodup_range.imp fun hNe => h.disjoint_visible hNe⟩

end WellFormed

/-! ## Walks

Each walk is a loop whose body is one unfolding equation; it ends because its steps are well
founded. -/

theorem Grounded.nearest?_eq {t : Tree} (h : t.Grounded) (s : Nat) (name : String) :
    t.nearest? s name = (t.named? s name).or ((t.parent? s).bind fun p => t.nearest? p name) := by
  cases hParent : t.parent? s with
  | none =>
    rw [nearest?, chain_of_root hParent, List.findSome?_cons]
    cases t.named? s name <;> rfl
  | some p =>
    rw [nearest?, h.chain_of_parent hParent, List.findSome?_cons]
    cases t.named? s name <;> rfl

theorem resolveFrom_succ (t : Tree) (fuel b : Nat) :
    t.resolveFrom (fuel + 1) b = ((t.link? b).map (t.resolveFrom fuel)).getD b := by
  rw [resolveFrom, link?]
  cases (t.entryAt? b).bind Entry.link? <;> rfl

theorem WellFormed.resolveFrom_eq {t : Tree} (h : t.WellFormed) {fuel b : Nat} (hFuel : b ≤ fuel) :
    t.resolveFrom fuel b = t.resolve b := by
  induction b using Nat.strongRecOn generalizing fuel with
  | ind b ih =>
    have step : ∀ n, b ≤ n → t.resolveFrom n b = ((t.link? b).map t.resolve).getD b := by
      intro n hn
      cases hLink : t.link? b with
      | none =>
        cases n with
        | zero => rfl
        | succ n => rw [resolveFrom_succ, hLink, Option.map_none, Option.map_none]
      | some link =>
        have hLt := h.link_lt hLink
        obtain ⟨m, rfl⟩ : ∃ m, n = m + 1 := ⟨n - 1, by omega⟩
        rw [resolveFrom_succ, hLink, Option.map_some, Option.map_some, ih link hLt (by omega)]
    rw [resolve, step fuel hFuel, step b (Nat.le_refl b)]

theorem WellFormed.resolve_eq {t : Tree} (h : t.WellFormed) (b : Nat) :
    t.resolve b = ((t.link? b).map t.resolve).getD b := by
  rw [← h.resolveFrom_eq (Nat.le_succ b), resolveFrom_succ]
  cases hLink : t.link? b with
  | none => rfl
  | some link =>
    have hLt := h.link_lt hLink
    rw [Option.map_some, Option.map_some, h.resolveFrom_eq (Nat.le_of_lt hLt)]

theorem checkScope_eq_ok {t : Tree} {s : Nat} (hs : s < t.scopes.size) : t.checkScope s = .ok () := by
  rw [checkScope, if_pos ((t.containsScope_iff s).mpr hs)]
  rfl

theorem checkBinding_eq_ok {t : Tree} {b : Nat} (hb : b < t.bindings.size) : t.checkBinding b = .ok () := by
  rw [checkBinding, if_pos ((t.containsBinding_iff b).mpr hb)]
  rfl

theorem exists_scope_of_isFunctionScope {t : Tree} {f : Nat} (h : t.isFunctionScope f = true) :
    ∃ scope, t.scopes[f]? = some scope ∧ (scope.kind = .function ∨ scope.kind = .global) := by
  rw [isFunctionScope] at h
  cases hScope : t.scopes[f]? with
  | none => simp [hScope] at h
  | some scope =>
    simp only [hScope] at h
    refine ⟨scope, rfl, ?_⟩
    cases hKind : scope.kind with
    | global => exact .inr rfl
    | function => exact .inl rfl
    | block => simp [hKind, ScopeKind.isFunction] at h

theorem WellFormed.variableOf {t : Tree} (h : t.WellFormed) {b : Nat} (hb : b < t.bindings.size) :
    ∃ v, t.entryAt? (t.resolve b) = some (.var v) ∧ t.variableOf b = .ok v := by
  obtain ⟨v, hv⟩ := h.resolveFrom (Nat.le_refl b) hb
  have hBehind : t.variableBehind? b = some v := by
    rw [variableBehind?, resolve, hv]
  exact ⟨v, hv, by rw [Tree.variableOf, hBehind]; rfl⟩

theorem WellFormed.outward {t : Tree} (h : t.WellFormed) : WellFounded fun p s => t.parent? s = some p :=
  Subrelation.wf (fun hParent => h.parent_lt hParent) Nat.lt_wfRel.wf

theorem WellFormed.backward {t : Tree} (h : t.WellFormed) : WellFounded fun link b => t.link? b = some link :=
  Subrelation.wf (fun hLink => h.link_lt hLink) Nat.lt_wfRel.wf

/-- A name is removed and taken again while an alias of the first binding stays; two edits fail. -/
def retakenName : List Operation :=
  [.push .function 0, .push .block 1, .add 1 (.var (Variable.ofLocal "x")), .add 2 (.linked "y" 0),
    .remove 1 "x", .add 1 (.var (Variable.ofArgument "x")), .add 2 (.linked "z" 1), .add 1 (.linked "x" 0),
    .push .block 7]

def retakenTree : Tree where
  scopes := #[⟨.global, none, []⟩, ⟨.function, some 0, [2]⟩, ⟨.block, some 1, [1, 3]⟩]
  bindings := #[⟨1, .var (Variable.ofLocal "x")⟩, ⟨2, .linked "y" 0⟩, ⟨1, .var (Variable.ofArgument "x")⟩,
    ⟨2, .linked "z" 1⟩]

end Tree

namespace Arena

variable {a : Arena}

/-- The arena arises from the empty one by a run of operations, failing ones included. -/
def Reachable (a : Arena) : Prop := ∃ ops : List Tree.Operation, empty.runAll ops = a

theorem Reachable.indexed (h : a.Reachable) : a.Indexed := by
  obtain ⟨ops, rfl⟩ := h
  exact Indexed.empty.runAll ops

/-- The reachable trees are those of the reachable arenas. -/
theorem reachable_tree_iff {t : Tree} : t.Reachable ↔ ∃ a : Arena, a.Reachable ∧ a.tree = t := by
  constructor
  · rintro ⟨ops, rfl⟩
    exact ⟨empty.runAll ops, ⟨ops, rfl⟩, Indexed.empty.tree_runAll ops⟩
  · rintro ⟨_, ⟨ops, rfl⟩, rfl⟩
    exact ⟨ops, (Indexed.empty.tree_runAll ops).symm⟩

/-! ## Consistent arenas -/

structure Consistent (a : Arena) : Prop where
  nonempty : 0 < a.scopes.size
  numbered : ∀ (s : Nat) (r : IndexedScope), a.scopes[s]? = some r → r.id = s
  global : ∀ (s : Nat) (r : IndexedScope), a.scopes[s]? = some r → (r.kind = .global ↔ s = 0)
  orphan : ∀ (s : Nat) (r : IndexedScope), a.scopes[s]? = some r → (r.parent = none ↔ s = 0)
  outward : ∀ (s : Nat) (r : IndexedScope) (p : Nat), a.scopes[s]? = some r → r.parent = some p → p < s
  owned : ∀ (s : Nat) (r : IndexedScope), a.scopes[s]? = some r →
    ∀ b ∈ r.order, ∃ e, a.bindings[b]? = some ⟨s, e⟩
  once : (a.scopes.toList.flatMap IndexedScope.order).Nodup
  named : ∀ (s : Nat) (r : IndexedScope), a.scopes[s]? = some r → ∀ name b,
    r.names.lookup name = some b ↔
      b ∈ r.order ∧ ∃ x, a.bindings[b]? = some x ∧ x.entry.identifier = some name
  backward : ∀ (b owner : Nat) (name : String) (link : Nat),
    a.bindings[b]? = some ⟨owner, .linked name link⟩ → link < b

theorem plain_of_getElem? {s : Nat} {r : IndexedScope} (hr : a.scopes[s]? = some r) :
    a.tree.scopes[s]? = some r.plain := by
  rw [getElem?_tree, hr, Option.map_some]

theorem visible_of_getElem? {s : Nat} {r : IndexedScope} (hr : a.scopes[s]? = some r) :
    a.tree.visible s = r.order := by
  rw [Tree.visible, plain_of_getElem? hr]
  rfl

theorem identifier?_eq_some_iff {b : Nat} {name : String} : a.tree.identifier? b = some name ↔
    ∃ x, a.bindings[b]? = some x ∧ x.entry.identifier = some name := by
  simp [Tree.identifier?, Tree.entryAt?, tree, Option.bind_eq_some_iff]

theorem flatMap_order (a : Arena) :
    a.scopes.toList.flatMap IndexedScope.order = (List.range a.scopes.size).flatMap a.tree.visible := by
  have hOrders : a.scopes.toList.map IndexedScope.order = (List.range a.scopes.size).map a.tree.visible := by
    refine List.ext_getElem (by simp) fun s hs _ => ?_
    simp only [List.getElem_map, List.getElem_range]
    exact (visible_of_getElem? (by simp)).symm
  rw [List.flatMap_def, hOrders, List.flatMap_def]

theorem Indexed.consistent (h : a.Indexed) : a.Consistent where
  nonempty := size_tree a ▸ h.wellFormed.size_pos
  numbered := h.numbered
  global s r hr := h.wellFormed.kind_eq_global_iff (plain_of_getElem? hr)
  orphan s r hr := h.wellFormed.parent_eq_none_iff (plain_of_getElem? hr)
  outward s r p hr hParent := by
    refine h.wellFormed.parent_lt (s := s) ?_
    rw [Tree.parent?, plain_of_getElem? hr]
    exact hParent
  owned s r hr b hb := h.wellFormed.owned s b (by rwa [visible_of_getElem? hr])
  once := by
    rw [flatMap_order, ← size_tree]
    exact h.wellFormed.nodup_visible
  named s r hr name b := by
    have hNamed := h.names s name b
    rwa [named?, hr, Option.bind_some, visible_of_getElem? hr, identifier?_eq_some_iff] at hNamed
  backward b owner name link hb := by
    refine h.wellFormed.earlier b name link ?_
    rw [Tree.entryAt?]
    exact congrArg (Option.map Binding.entry) hb

/-- The three walks end from wherever they start, and what they find. -/
structure WalksEnd (a : Arena) : Prop where
  outward : WellFounded fun p s => a.tree.parent? s = some p
  backward : WellFounded fun link b => a.tree.link? b = some link
  function_step : ∀ s, a.tree.functionScope s =
    if a.tree.isFunctionScope s then s else ((a.tree.parent? s).map a.tree.functionScope).getD s
  nearest_step : ∀ s name, a.nearest? s name =
    (a.named? s name).or ((a.tree.parent? s).bind fun p => a.nearest? p name)
  resolve_step : ∀ b, a.tree.resolve b = ((a.tree.link? b).map a.tree.resolve).getD b
  function_end : ∀ s < a.scopes.size, a.tree.functionScopeOf s = .ok (a.tree.functionScope s) ∧
    ∃ r, a.scopes[a.tree.functionScope s]? = some r ∧ (r.kind = .function ∨ r.kind = .global)
  nearest_end : ∀ s < a.scopes.size, ∀ name,
    (∃ b < a.bindings.size, a.nearest? s name = some b ∧ a.lookupChain s name = .ok b) ∨
      (a.nearest? s name = none ∧ a.lookupChain s name = .error (.fault (.unresolved name .chain) none))
  resolve_end : ∀ b < a.bindings.size, a.tree.resolveBinding b = .ok (a.tree.resolve b) ∧
    ∃ v, a.tree.entryAt? (a.tree.resolve b) = some (.var v) ∧ a.tree.variableOf b = .ok v

theorem Indexed.walksEnd (h : a.Indexed) : a.WalksEnd where
  outward := h.wellFormed.outward
  backward := h.wellFormed.backward
  function_step := h.wellFormed.functionScope_eq
  nearest_step s name := by
    simp only [h.nearest?_eq, h.named?_eq]
    exact h.wellFormed.nearest?_eq s name
  resolve_step := h.wellFormed.resolve_eq
  function_end s hs := by
    rw [← size_tree] at hs
    obtain ⟨scope, hScope, hKind⟩ :=
      Tree.exists_scope_of_isFunctionScope (h.wellFormed.isFunctionScope_functionScope hs)
    rw [getElem?_tree] at hScope
    obtain ⟨r, hr, rfl⟩ := Option.map_eq_some_iff.mp hScope
    refine ⟨?_, r, hr, hKind⟩
    rw [Tree.functionScopeOf, Tree.checkScope_eq_ok hs]
    rfl
  nearest_end s hs name := by
    rw [← size_tree] at hs
    rw [lookupChain, Tree.checkScope_eq_ok hs, h.nearest?_eq]
    cases hNearest : a.tree.nearest? s name with
    | none => exact .inr ⟨rfl, rfl⟩
    | some b =>
      obtain ⟨r, _, hNamed⟩ := List.exists_of_findSome?_eq_some hNearest
      exact .inl ⟨b, h.wellFormed.lt_of_mem (Tree.mem_of_named? hNamed).1, rfl, rfl⟩
  resolve_end b hb := by
    refine ⟨?_, h.wellFormed.variableOf hb⟩
    rw [Tree.resolveBinding, Tree.checkBinding_eq_ok hb]
    rfl

/-! ## New numbers, and edits that fail -/

/-- A new scope or binding gets the next number, and a single edit that fails changes nothing. -/
structure EditsWhole (a : Arena) : Prop where
  push_ok : ∀ kind parent s u, pushScope kind parent a = .ok s u →
    s = a.scopes.size ∧ u.scopes[s]? = some ⟨s, kind, some parent, [], [], []⟩ ∧
      ∀ r < s, u.scopes[r]? = a.scopes[r]?
  add_ok : ∀ s e b u, add s e a = .ok b u →
    b = a.bindings.size ∧ u.bindings[b]? = some ⟨s, e⟩ ∧ ∀ c < b, u.bindings[c]? = a.bindings[c]?
  push_error : ∀ kind parent failure u, pushScope kind parent a = .error failure u → u = a
  add_error : ∀ s e failure u, add s e a = .error failure u → u = a
  assign_error : ∀ b candidate failure u, assignTarget b candidate a = .error failure u → u = a

theorem pushScope_cases (kind : ScopeKind) (parent : Nat) (a : Arena) :
    (∃ failure, pushScope kind parent a = .error failure a) ∨ pushScope kind parent a =
      .ok a.scopes.size { a with scopes := a.scopes.push ⟨a.scopes.size, kind, some parent, [], [], []⟩ } := by
  rw [pushScope_apply]
  split
  · exact .inl ⟨_, rfl⟩
  · split
    · exact .inr rfl
    · exact .inl ⟨_, rfl⟩

theorem add_cases (s : Nat) (e : Entry) (a : Arena) :
    (∃ failure, add s e a = .error failure a) ∨
      add s e a = .ok a.bindings.size ((a.reserveFixed s e).append s e) := by
  rw [add_apply]
  cases (a.dangling? e).or (a.taken? s e) with
  | some failure => exact .inl ⟨failure, rfl⟩
  | none => exact .inr rfl

theorem assignTarget_cases (b : Nat) (candidate : String) (a : Arena) :
    (∃ failure, assignTarget b candidate a = .error failure a) ∨
      ∃ name u, assignTarget b candidate a = .ok name u := by
  rw [assignTarget_apply]
  split
  · exact .inl ⟨_, rfl⟩
  · split
    · exact .inl ⟨_, rfl⟩
    · split
      · exact .inl ⟨_, rfl⟩
      · exact .inr ⟨_, _, rfl⟩

theorem editsWhole (a : Arena) : a.EditsWhole where
  push_ok kind parent s u h := by
    obtain ⟨failure, hFails⟩ | hDone := a.pushScope_cases kind parent
    · cases hFails.symm.trans h
    · cases hDone.symm.trans h
      refine ⟨rfl, Array.getElem?_push_size, ?_⟩
      intro r hr
      rw [Array.getElem?_push, if_neg (Nat.ne_of_lt hr)]
  add_ok s e b u h := by
    obtain ⟨failure, hFails⟩ | hDone := a.add_cases s e
    · cases hFails.symm.trans h
    · cases hDone.symm.trans h
      simp only [append, bindings_reserveFixed]
      refine ⟨trivial, Array.getElem?_push_size, ?_⟩
      intro c hc
      rw [Array.getElem?_push, if_neg (Nat.ne_of_lt hc)]
  push_error kind parent failure u h := by
    obtain ⟨_, hFails⟩ | hDone := a.pushScope_cases kind parent
    · cases hFails.symm.trans h
      rfl
    · cases hDone.symm.trans h
  add_error s e failure u h := by
    obtain ⟨_, hFails⟩ | hDone := a.add_cases s e
    · cases hFails.symm.trans h
      rfl
    · cases hDone.symm.trans h
  assign_error b candidate failure u h := by
    obtain ⟨_, hFails⟩ | ⟨name, v, hDone⟩ := a.assignTarget_cases b candidate
    · cases hFails.symm.trans h
      rfl
    · cases hDone.symm.trans h

/-- After any run of operations, failing ones included, ids, name maps and orders of an arena are
consistent, the walks in it end, and a single edit either does all of its work or nothing. -/
theorem reachable_arenas_are_consistent (h : a.Reachable) : a.Consistent ∧ a.WalksEnd ∧ a.EditsWhole :=
  ⟨h.indexed.consistent, h.indexed.walksEnd, a.editsWhole⟩

/-- `Tree.retakenTree` with its indexes. -/
def retakenArena : Arena where
  scopes := #[⟨0, .global, none, [], [], []⟩, ⟨1, .function, some 0, [("x", 2)], [2], []⟩,
    ⟨2, .block, some 1, [("z", 3), ("y", 1)], [1, 3], []⟩]
  bindings := Tree.retakenTree.bindings

/-- The name is mapped to the new binding and is found from inside, the aliases lead to the removed one,
and a second `x` is refused without a trace. -/
theorem retaken_name_is_consistent :
    retakenArena.Reachable ∧
      (∃ r, retakenArena.scopes[1]? = some r ∧ r.id = 1 ∧ ∀ b, r.names.lookup "x" = some b ↔ b = 2) ∧
      retakenArena.tree.functionScopeOf 2 = .ok 1 ∧ retakenArena.nearest? 2 "x" = some 2 ∧
      retakenArena.tree.resolveBinding 3 = .ok 0 ∧
      ∃ failure u, add 1 (.linked "x" 0) retakenArena = .error failure u ∧ u = retakenArena := by
  have hReachable : retakenArena.Reachable := ⟨Tree.retakenName, by decide⟩
  obtain ⟨hConsistent, hWalks, hEdits⟩ := reachable_arenas_are_consistent hReachable
  refine ⟨hReachable, ⟨_, rfl, hConsistent.numbered 1 _ rfl, fun b => ?_⟩, (hWalks.function_end 2 (by decide)).1,
    ?_, (hWalks.resolve_end 3 (by decide)).1, _, _, rfl, hEdits.add_error 1 (.linked "x" 0) _ _ rfl⟩
  · rw [hConsistent.named 1 _ rfl "x" b]
    constructor
    · rintro ⟨hb, _⟩
      exact List.mem_singleton.mp hb
    · rintro rfl
      exact ⟨List.mem_singleton_self 2, _, rfl, rfl⟩
  · rw [hWalks.nearest_step]
    decide

end Arena
end TreeLowering
