import TreeLowering.Proofs.Scope.Allocation

/-! # The indexes of an arena

An arena is indexed if its ids, name maps and sets of taken targets say what its scopes and bindings
say. Each of the four changes of a tree has a counterpart that keeps an arena indexed, and what an
indexed arena looks up is what its tree has. -/
namespace TreeLowering
set_option autoImplicit false

namespace NameMap

theorem lookup_erase (m : NameMap) (name n : String) :
    (m.erase name).lookup n = if n = name then none else m.lookup n := by
  induction m with
  | nil => simp [erase]
  | cons x m ih =>
    obtain ⟨key, b⟩ := x
    rw [erase] at ih ⊢
    by_cases hKey : key = name
    · rw [List.filter_cons_of_neg (by simp [hKey]), ih, List.lookup_cons]
      by_cases hn : n = name
      · rw [if_pos hn, if_pos hn]
      · rw [if_neg hn, if_neg hn, hKey, beq_false_of_ne hn]
    · rw [List.filter_cons_of_pos (by simp [hKey]), List.lookup_cons, List.lookup_cons, ih]
      by_cases hn : n = key
      · subst hn
        simp [hKey]
      · rw [beq_false_of_ne hn]

theorem lookup_insert (m : NameMap) (name n : String) (b : Nat) :
    (m.insert name b).lookup n = if n = name then some b else m.lookup n := by
  rw [insert, List.lookup_cons, lookup_erase]
  by_cases hn : n = name
  · subst hn
    simp
  · rw [if_neg hn, if_neg hn, beq_false_of_ne hn]

end NameMap

namespace IndexedScope

theorem plain_hold (r : IndexedScope) (name : Option String) (b : Nat) :
    (r.hold name b).plain = { r.plain with order := r.plain.order ++ [b] } := by
  cases name <;> rfl

theorem lookup_hold (r : IndexedScope) (name : Option String) (b : Nat) (n : String) :
    (r.hold name b).names.lookup n = if name = some n then some b else r.names.lookup n := by
  cases name with
  | none => rfl
  | some name =>
    rw [hold, NameMap.lookup_insert]
    simp only [Option.some.injEq, eq_comm]

theorem id_hold (r : IndexedScope) (name : Option String) (b : Nat) : (r.hold name b).id = r.id := by
  cases name <;> rfl

theorem usedTargets_hold (r : IndexedScope) (name : Option String) (b : Nat) :
    (r.hold name b).usedTargets = r.usedTargets := by
  cases name <;> rfl

end IndexedScope

namespace Tree

/-! ## Taken targets of a changed tree -/

theorem usedTargets_push {t : Tree} (h : t.WellFormed) {kind : ScopeKind} {parent : Nat} (hKind : kind ≠ .global)
    (hParent : parent < t.scopes.size) (f : Nat) :
    usedTargets { t with scopes := t.scopes.push ⟨kind, some parent, []⟩ } f = t.usedTargets f := by
  refine List.filterMap_congr fun x hx => ?_
  obtain ⟨b, hb⟩ := Array.mem_iff_getElem?.mp (Array.mem_def.mpr hx)
  rw [h.functionScope_push hKind hParent (h.placed b x hb)]

theorem usedTargets_insert (t : Tree) (s : Nat) (e : Entry) (f : Nat) :
    (t.insert s e).usedTargets f =
      t.usedTargets f ++ if t.functionScope s = f then e.slotTarget?.toList else [] := by
  simp only [usedTargets, (t.sameFrame_insert s e).functionScope]
  simp only [insert, Array.toList_push, List.filterMap_append]
  split
  · cases hTarget : e.slotTarget? <;> simp [*]
  · simp [*]

theorem usedTargets_retract (t : Tree) (s b f : Nat) : (t.retract s b).usedTargets f = t.usedTargets f := by
  simp only [usedTargets, (t.sameFrame_retract s b).functionScope]
  rfl

theorem mem_usedTargets_setTarget {t : Tree} {b owner : Nat} {v : Variable} {desired : Option String}
    (hBinding : t.bindings[b]? = some ⟨owner, .var v⟩) (hPending : v.target = .pending desired) (name : String)
    (f : Nat) (target : String) :
    target ∈ (t.setTarget b name).usedTargets f ↔
      target ∈ t.usedTargets f ∨ t.SlotOf f b ∧ target = name := by
  simp only [mem_usedTargets, slotOf_setTarget]
  constructor
  · rintro ⟨c, hSlot, hTarget⟩
    by_cases hc : b = c
    · subst hc
      rw [target?_setTarget_self name hBinding] at hTarget
      exact .inr ⟨hSlot, (Option.some.inj hTarget).symm⟩
    · rw [target?_setTarget_of_ne name hc] at hTarget
      exact .inl ⟨c, hSlot, hTarget⟩
  · rintro (⟨c, hSlot, hTarget⟩ | ⟨hSlot, rfl⟩)
    · refine ⟨c, hSlot, ?_⟩
      rwa [target?_setTarget_of_ne]
      rintro rfl
      simp [target?_eq_of_getElem? hBinding, Entry.target?, hPending, Target.name?] at hTarget
    · exact ⟨b, hSlot, target?_setTarget_self target hBinding⟩

end Tree

namespace Arena

variable {a : Arena} {s : Nat}

/-! ## Changes of an arena, and of its tree -/

@[simp] theorem size_tree (a : Arena) : a.tree.scopes.size = a.scopes.size := by
  simp [tree]

theorem getElem?_tree (a : Arena) (s : Nat) : a.tree.scopes[s]? = a.scopes[s]?.map IndexedScope.plain := by
  simp [tree]

/-- A change of one scope, with and without indexes. -/
theorem tree_modify (a : Arena) (s : Nat) (g : IndexedScope → IndexedScope) (f : Scope → Scope)
    (hPlain : ∀ r, (g r).plain = f r.plain) (bindings : Array Binding) :
    tree ⟨a.scopes.modify s g, bindings⟩ = ⟨a.tree.scopes.modify s f, bindings⟩ := by
  refine congrArg (Tree.mk · bindings) (Array.ext_getElem? fun r => ?_)
  have hTree := getElem?_tree ⟨a.scopes.modify s g, bindings⟩ r
  rw [tree] at hTree
  simp only [hTree, Array.getElem?_modify, getElem?_tree]
  split
  · simp only [Option.map_map, Function.comp_def, hPlain]
  · rfl

@[simp] theorem tree_reserve (a : Arena) (f : Nat) (target : String) : (a.reserve f target).tree = a.tree := by
  rw [reserve, a.tree_modify f (·.take target) id fun _ => rfl]
  refine congrArg (Tree.mk · a.bindings) (Array.ext_getElem? fun r => ?_)
  rw [Array.getElem?_modify]
  split
  · exact Option.map_id_apply
  · rfl

@[simp] theorem tree_reserveFixed (a : Arena) (s : Nat) (e : Entry) : (a.reserveFixed s e).tree = a.tree := by
  rw [reserveFixed]
  cases e.slotTarget? with
  | none => rfl
  | some target => exact a.tree_reserve _ target

theorem tree_chooseTarget (a : Arena) (x : Binding) (storage : StorageClass) (candidate : String) :
    (a.chooseTarget x storage candidate).2.tree = a.tree := by
  rw [chooseTarget]
  split
  · exact a.tree_reserve _ _
  · rfl

theorem tree_push (a : Arena) (id : Nat) (kind : ScopeKind) (parent : Option Nat) :
    tree { a with scopes := a.scopes.push ⟨id, kind, parent, [], [], []⟩ } =
      { a.tree with scopes := a.tree.scopes.push ⟨kind, parent, []⟩ } := by
  simp [tree, IndexedScope.plain]

theorem tree_append (a : Arena) (s : Nat) (e : Entry) : (a.append s e).tree = a.tree.insert s e :=
  a.tree_modify s _ (fun scope => { scope with order := scope.order ++ [a.bindings.size] })
    (fun r => r.plain_hold e.identifier a.bindings.size) _

theorem tree_add (a : Arena) (s : Nat) (e : Entry) :
    ((a.reserveFixed s e).append s e).tree = a.tree.insert s e := by
  rw [tree_append, tree_reserveFixed]

theorem tree_drop (a : Arena) (s : Nat) (name : String) (b : Nat) :
    tree { a with scopes := a.scopes.modify s (·.drop name b) } = a.tree.retract s b :=
  a.tree_modify s _ (fun scope => { scope with order := scope.order.filter (· != b) }) (fun _ => rfl) _

theorem tree_setTarget (a : Arena) (b : Nat) (target : String) :
    (a.setTarget b target).tree = a.tree.setTarget b target := rfl

/-! ## Changes of the indexes -/

/-- Every scope has its place in the arena as id. -/
def Numbered (a : Arena) : Prop := ∀ (s : Nat) (r : IndexedScope), a.scopes[s]? = some r → r.id = s

/-- The ids of the scopes with a property are their places. -/
theorem Numbered.map_id_filter (h : a.Numbered) {p : IndexedScope → Bool} {q : Nat → Bool}
    (hp : ∀ s r, a.scopes[s]? = some r → p r = q s) :
    (a.scopes.toList.filter p).map IndexedScope.id = (List.range a.scopes.size).filter q := by
  have hIds : a.scopes.toList.map IndexedScope.id = List.range a.scopes.size := by
    refine List.ext_getElem (by simp) fun s hs _ => ?_
    simp only [List.getElem_map, List.getElem_range]
    exact h s _ (by simp)
  have hFilter : a.scopes.toList.filter p = a.scopes.toList.filter (q ∘ IndexedScope.id) := by
    refine List.filter_congr fun r hr => ?_
    obtain ⟨s, hs⟩ := Array.mem_iff_getElem?.mp (Array.mem_def.mpr hr)
    rw [hp s r hs, Function.comp, h s r hs]
  rw [hFilter, ← List.filter_map, hIds]

section Modified

variable {g : IndexedScope → IndexedScope}

theorem Numbered.modify (h : a.Numbered) (hg : ∀ r, (g r).id = r.id) (bindings : Array Binding) :
    Numbered ⟨a.scopes.modify s g, bindings⟩ := by
  intro r x hx
  rw [Array.getElem?_modify] at hx
  split at hx
  · obtain ⟨y, hy, rfl⟩ := Option.map_eq_some_iff.mp hx
    rw [hg, h r y hy]
  · exact h r x hx

theorem named?_modify (hg : ∀ r, (g r).names = r.names) (bindings : Array Binding) (r : Nat) (name : String) :
    named? ⟨a.scopes.modify s g, bindings⟩ r name = a.named? r name := by
  simp only [named?, Array.getElem?_modify]
  split
  · cases a.scopes[r]? with
    | none => rfl
    | some y => simp only [Option.map_some, Option.bind_some, hg]
  · rfl

theorem usedTargets_modify (hg : ∀ r, (g r).usedTargets = r.usedTargets) (bindings : Array Binding) (f : Nat) :
    usedTargets ⟨a.scopes.modify s g, bindings⟩ f = a.usedTargets f := by
  simp only [usedTargets, Array.getElem?_modify]
  by_cases hf : s = f
  · rw [if_pos hf]
    cases a.scopes[f]? with
    | none => rfl
    | some y => exact hg y
  · rw [if_neg hf]

end Modified

theorem named?_append (hs : s < a.scopes.size) (e : Entry) (r : Nat) (name : String) :
    (a.append s e).named? r name =
      if r = s ∧ e.identifier = some name then some a.bindings.size else a.named? r name := by
  simp only [named?, append, Array.getElem?_modify]
  by_cases hr : r = s
  · subst hr
    rw [if_pos rfl, Array.getElem?_eq_getElem hs]
    simp only [Option.map_some, Option.bind_some, IndexedScope.lookup_hold, true_and]
  · rw [if_neg (Ne.symm hr), if_neg fun h => hr h.1]

theorem named?_drop (s : Nat) (name : String) (b r : Nat) (n : String) :
    named? { a with scopes := a.scopes.modify s (·.drop name b) } r n =
      if r = s ∧ n = name then none else a.named? r n := by
  simp only [named?, Array.getElem?_modify]
  by_cases hr : r = s
  · subst hr
    rw [if_pos rfl]
    cases a.scopes[r]? with
    | none => simp
    | some y => simp only [Option.map_some, Option.bind_some, IndexedScope.drop, NameMap.lookup_erase, true_and]
  · rw [if_neg (Ne.symm hr), if_neg fun h => hr h.1]

theorem mem_usedTargets_reserve {f : Nat} (hf : f < a.scopes.size) (r : Nat) (target x : String) :
    x ∈ (a.reserve f target).usedTargets r ↔ x ∈ a.usedTargets r ∨ r = f ∧ x = target := by
  simp only [usedTargets, reserve, Array.getElem?_modify]
  by_cases hr : r = f
  · subst hr
    rw [if_pos rfl, Array.getElem?_eq_getElem hf]
    simp only [Option.map_some, IndexedScope.take, List.mem_insert_iff, true_and, or_comm]
  · rw [if_neg (Ne.symm hr)]
    simp [hr]

theorem usedTargets_push (a : Arena) (id : Nat) (kind : ScopeKind) (parent : Option Nat) (f : Nat) :
    usedTargets { a with scopes := a.scopes.push ⟨id, kind, parent, [], [], []⟩ } f = a.usedTargets f := by
  simp only [usedTargets, Array.getElem?_push]
  by_cases hf : f = a.scopes.size
  · simp [hf]
  · simp [hf]

theorem named?_push (a : Arena) (id : Nat) (kind : ScopeKind) (parent : Option Nat) (s : Nat) (name : String) :
    named? { a with scopes := a.scopes.push ⟨id, kind, parent, [], [], []⟩ } s name = a.named? s name := by
  simp only [named?, Array.getElem?_push]
  by_cases hs : s = a.scopes.size
  · simp [hs]
  · simp [hs]

theorem named?_reserve (a : Arena) (f : Nat) (target : String) (r : Nat) (name : String) :
    (a.reserve f target).named? r name = a.named? r name :=
  named?_modify (g := (·.take target)) (fun _ => rfl) a.bindings r name

theorem Numbered.reserve (h : a.Numbered) (f : Nat) (target : String) : (a.reserve f target).Numbered :=
  h.modify (g := (·.take target)) (fun _ => rfl) a.bindings

theorem mem_usedTargets_reserveFixed (hs : a.tree.functionScope s < a.scopes.size) (e : Entry) (f : Nat)
    (target : String) : target ∈ (a.reserveFixed s e).usedTargets f ↔
      target ∈ a.usedTargets f ∨ f = a.tree.functionScope s ∧ e.slotTarget? = some target := by
  rw [reserveFixed]
  cases e.slotTarget? with
  | none => simp
  | some x => simp only [mem_usedTargets_reserve hs, Option.some.injEq, eq_comm]

theorem named?_reserveFixed (a : Arena) (s : Nat) (e : Entry) (r : Nat) (name : String) :
    (a.reserveFixed s e).named? r name = a.named? r name := by
  rw [reserveFixed]
  cases e.slotTarget? with
  | none => rfl
  | some x => exact a.named?_reserve _ x r name

theorem Numbered.reserveFixed (h : a.Numbered) (s : Nat) (e : Entry) : (a.reserveFixed s e).Numbered := by
  rw [Arena.reserveFixed]
  cases e.slotTarget? with
  | none => exact h
  | some x => exact h.reserve _ x

@[simp] theorem bindings_reserveFixed (a : Arena) (s : Nat) (e : Entry) :
    (a.reserveFixed s e).bindings = a.bindings := congrArg Tree.bindings (a.tree_reserveFixed s e)

@[simp] theorem size_reserveFixed (a : Arena) (s : Nat) (e : Entry) :
    (a.reserveFixed s e).scopes.size = a.scopes.size := by
  rw [← size_tree, tree_reserveFixed, size_tree]

/-! ## The invariant -/

structure Indexed (a : Arena) : Prop where
  wellFormed : a.tree.WellFormed
  numbered : a.Numbered
  names : ∀ s name b, a.named? s name = some b ↔ b ∈ a.tree.visible s ∧ a.tree.identifier? b = some name
  taken : ∀ f target, target ∈ a.usedTargets f ↔ target ∈ a.tree.usedTargets f

namespace Indexed

theorem empty : Arena.empty.Indexed where
  wellFormed := Tree.WellFormed.empty
  numbered s r hr := by
    cases s with
    | zero =>
      cases hr
      rfl
    | succ s => simp [Arena.empty] at hr
  names s name b := by
    cases s with
    | zero => simp [named?, Arena.empty, Tree.visible, tree, IndexedScope.plain]
    | succ s => simp [named?, Arena.empty, Tree.visible, tree]
  taken f target := by
    cases f with
    | zero => rfl
    | succ f => simp [usedTargets, Arena.empty, Tree.usedTargets, tree]

theorem push (h : a.Indexed) {kind : ScopeKind} {parent : Nat} (hKind : kind ≠ .global)
    (hParent : parent < a.scopes.size) :
    Indexed { a with scopes := a.scopes.push ⟨a.scopes.size, kind, some parent, [], [], []⟩ } where
  wellFormed := by
    rw [tree_push]
    exact h.wellFormed.push hKind (by rwa [size_tree])
  numbered s r hr := by
    simp only [Array.getElem?_push] at hr
    split at hr
    · rename_i hs
      cases hr
      exact hs.symm
    · exact h.numbered s r hr
  names s name b := by
    rw [named?_push, h.names, tree_push, Tree.visible_push]
    rfl
  taken f target := by
    rw [usedTargets_push, h.taken, tree_push, Tree.usedTargets_push h.wellFormed hKind (by rwa [size_tree])]

theorem named?_eq (h : a.Indexed) (s : Nat) (name : String) : a.named? s name = a.tree.named? s name := by
  refine Option.ext fun b => ?_
  rw [h.names, h.wellFormed.named?_eq_some_iff]

/-- What keeps an entry from being added to the arena keeps it from the tree. -/
theorem obstacle?_eq (h : a.Indexed) (s : Nat) (e : Entry) :
    (a.dangling? e).or (a.taken? s e) = a.tree.obstacle? s e := by
  have hScope : a.tree.containsScope s = a.scopes[s]?.isSome := by
    rw [Tree.containsScope, size_tree]
    by_cases hs : s < a.scopes.size <;> simp [hs]
  have hNamed : ∀ name, a.tree.named? s name = a.scopes[s]?.bind fun r => r.names.lookup name :=
    fun name => (h.named?_eq s name).symm
  cases e with
  | linked name link =>
    rw [dangling?, taken?, Tree.obstacle?, hScope, hNamed, Tree.containsBinding]
    cases a.scopes[s]? <;> by_cases hLink : link < a.bindings.size <;> simp [hLink, Entry.identifier, tree]
  | var v =>
    rw [dangling?, taken?, Tree.obstacle?, hScope]
    cases hs : a.scopes[s]? with
    | none => simp
    | some r =>
      cases hName : v.identifier with
      | none => simp [Entry.identifier, hName]
      | some name =>
        have hLookup : a.tree.named? s name = r.names.lookup name := by
          rw [hNamed, hs, Option.bind_some]
        simp only [Entry.identifier, hName, Option.bind_some, Option.none_or, Option.isSome_some, Bool.not_true,
          Bool.false_eq_true, if_false]
        rw [hLookup]

theorem add (h : a.Indexed) {e : Entry} (hFree : a.tree.obstacle? s e = none) :
    ((a.reserveFixed s e).append s e).Indexed := by
  obtain ⟨hs, hName, _⟩ := Tree.obstacle?_eq_none_iff.mp hFree
  refine ⟨?wellFormed, ?numbered, ?names, ?taken⟩
  case wellFormed =>
    rw [tree_add]
    exact h.wellFormed.insert hFree
  case numbered => exact (h.numbered.reserveFixed s e).modify (fun r => r.id_hold _ _) _
  case names =>
    intro r name b
    rw [tree_add, Tree.mem_visible_insert hs, named?_append (by simpa using hs), bindings_reserveFixed,
      named?_reserveFixed]
    have hOld : b ∈ a.tree.visible r → (a.tree.insert s e).identifier? b = a.tree.identifier? b :=
      fun hb => Tree.identifier?_insert_of_lt s e (h.wellFormed.lt_of_mem hb)
    have hNew : (a.tree.insert s e).identifier? a.bindings.size = e.identifier := Tree.identifier?_insert_self ..
    split
    · rename_i hHeld
      obtain ⟨rfl, hHeld⟩ := hHeld
      -- No binding of the scope had the name before, so the new one is the only one.
      constructor
      · rintro ⟨⟩
        exact ⟨.inr ⟨rfl, rfl⟩, hNew.trans hHeld⟩
      · rintro ⟨hb | ⟨_, rfl⟩, hb'⟩
        · exact absurd (hOld hb ▸ hb') (Tree.named?_eq_none_iff.mp (hName name hHeld) b hb)
        · rfl
    · rename_i hHeld
      rw [h.names]
      constructor
      · rintro ⟨hb, hb'⟩
        exact ⟨.inl hb, (hOld hb).trans hb'⟩
      · rintro ⟨hb | ⟨rfl, rfl⟩, hb'⟩
        · exact ⟨hb, (hOld hb).symm.trans hb'⟩
        · exact absurd ⟨rfl, hNew.symm.trans hb'⟩ hHeld
  case taken =>
    intro f target
    have hFunction : a.tree.functionScope s < a.scopes.size := size_tree a ▸ h.wellFormed.functionScope_lt hs
    have hKept : ((a.reserveFixed s e).append s e).usedTargets f = (a.reserveFixed s e).usedTargets f :=
      usedTargets_modify (fun r => r.usedTargets_hold _ _) _ f
    rw [tree_add, Tree.usedTargets_insert, List.mem_append, ← h.taken, hKept, mem_usedTargets_reserveFixed hFunction]
    split
    · rename_i hf
      simp [hf]
    · rename_i hf
      simp [Ne.symm hf]

theorem drop (h : a.Indexed) {name : String} {b : Nat} (hNamed : a.named? s name = some b) :
    Indexed { a with scopes := a.scopes.modify s (·.drop name b) } := by
  obtain ⟨hVisible, hName⟩ := (h.names s name b).mp hNamed
  refine ⟨?wellFormed, ?numbered, ?names, ?taken⟩
  case wellFormed =>
    rw [tree_drop]
    exact h.wellFormed.retract s b
  case numbered => exact h.numbered.modify (g := (·.drop name b)) (fun _ => rfl) _
  case names =>
    intro r n c
    rw [tree_drop, Tree.mem_visible_retract, named?_drop]
    split
    · rename_i hDropped
      obtain ⟨rfl, rfl⟩ := hDropped
      refine iff_of_false (by simp) ?_
      rintro ⟨⟨hc, hNe⟩, hc'⟩
      exact hNe rfl (h.wellFormed.distinct r c hc b hVisible n hc' hName)
    · rename_i hKept
      rw [h.names]
      constructor
      · rintro ⟨hc, hc'⟩
        refine ⟨⟨hc, ?_⟩, hc'⟩
        rintro rfl rfl
        exact hKept ⟨rfl, Option.some.inj (hc'.symm.trans hName)⟩
      · rintro ⟨⟨hc, _⟩, hc'⟩
        exact ⟨hc, hc'⟩
  case taken =>
    intro f target
    rw [tree_drop, Tree.usedTargets_retract, ← h.taken,
      usedTargets_modify (g := (·.drop name b)) (fun _ => rfl) a.bindings f]

/-- The name that is chosen is the one that the tree would choose. -/
theorem chooseTarget_eq (h : a.Indexed) (x : Binding) (storage : StorageClass) (candidate : String) :
    (a.chooseTarget x storage candidate).1 = a.tree.chooseTarget x storage candidate := by
  rw [chooseTarget, Tree.chooseTarget]
  split
  · exact uniqueName_congr (h.taken _) candidate
  · rfl

/-- Only the taken targets depend on whether the binding is a slot. -/
theorem setTarget {u : Arena} (h : a.Indexed) (hTree : u.tree = a.tree) (hNumbered : u.Numbered)
    (hNames : ∀ s name, u.named? s name = a.named? s name) (b : Nat) (name : String)
    (hTaken : ∀ f target, target ∈ u.usedTargets f ↔ target ∈ (a.tree.setTarget b name).usedTargets f) :
    (u.setTarget b name).Indexed where
  wellFormed := by
    rw [tree_setTarget, hTree]
    exact h.wellFormed.setTarget b name
  numbered := hNumbered
  names s n c := by
    rw [tree_setTarget, hTree, Tree.visible_setTarget, Tree.identifier?_setTarget, ← h.names, ← hNames]
    rfl
  taken f target := by
    rw [tree_setTarget, hTree, ← hTaken]
    rfl

theorem assign (h : a.Indexed) {b owner : Nat} {v : Variable} {desired : Option String}
    (hBinding : a.bindings[b]? = some ⟨owner, .var v⟩) (hPending : v.target = .pending desired)
    (candidate : String) : ((a.chooseTarget ⟨owner, .var v⟩ v.storage candidate).2.setTarget b
      (a.chooseTarget ⟨owner, .var v⟩ v.storage candidate).1).Indexed := by
  have hSlot {f : Nat} : a.tree.SlotOf f b ↔ v.storage.isFunctionSlot = true ∧ a.tree.functionScope owner = f := by
    constructor
    · rintro ⟨x, hx, hStorage, hFunction⟩
      obtain rfl := Option.some.inj (hBinding.symm.trans hx)
      exact ⟨hStorage, hFunction⟩
    · rintro ⟨hStorage, hFunction⟩
      exact ⟨_, hBinding, hStorage, hFunction⟩
  rw [chooseTarget]
  split
  · rename_i hStorage
    have hFunction : a.tree.functionScope owner < a.scopes.size :=
      size_tree a ▸ h.wellFormed.functionScope_lt (h.wellFormed.placed b _ hBinding)
    refine h.setTarget (a.tree_reserve _ _) (h.numbered.reserve _ _) (a.named?_reserve _ _) b _ fun f target => ?_
    rw [mem_usedTargets_reserve hFunction, Tree.mem_usedTargets_setTarget hBinding hPending, h.taken, hSlot]
    simp [hStorage, eq_comm]
  · rename_i hStorage
    refine h.setTarget rfl h.numbered (fun _ _ => rfl) b _ fun f target => ?_
    rw [Tree.mem_usedTargets_setTarget hBinding hPending, h.taken, hSlot]
    simp [hStorage]

/-! ## What an indexed arena looks up -/

theorem nearest?_eq (h : a.Indexed) (s : Nat) (name : String) : a.nearest? s name = a.tree.nearest? s name := by
  simp only [nearest?, Tree.nearest?, h.named?_eq]

theorem reference?_eq (h : a.Indexed) (ref : Reference) : a.reference? ref = a.tree.reference? ref := by
  cases ref with
  | named s name => exact h.named?_eq s name
  | slot s i => rfl

theorem resolveReference_eq (h : a.Indexed) (ref : Reference) :
    a.resolveReference ref = a.tree.resolveReference ref := by
  cases hRef : a.tree.reference? ref <;> simp only [resolveReference, Tree.resolveReference, h.reference?_eq, hRef]

theorem functionScopes_eq (h : a.Indexed) : a.functionScopes = a.tree.functionScopes := by
  rw [functionScopes, Tree.functionScopes, size_tree]
  refine h.numbered.map_id_filter fun s r hr => ?_
  rw [Tree.isFunctionScope, getElem?_tree, hr]
  rfl

theorem ownedBlocks_eq (h : a.Indexed) (f : Nat) : a.ownedBlocks f = a.tree.ownedBlocks f := by
  rw [ownedBlocks, Tree.ownedBlocks, size_tree]
  refine h.numbered.map_id_filter fun s r hr => ?_
  rw [h.numbered s r hr, Tree.isFunctionScope, getElem?_tree, hr]
  rfl

theorem allocationOrder_eq (h : a.Indexed) (f : Nat) : a.allocationOrder f = a.tree.allocationOrder f := by
  rw [allocationOrder, Tree.allocationOrder, h.ownedBlocks_eq]

theorem hoistedBindings_eq (h : a.Indexed) (f : Nat) : a.hoistedBindings f = a.tree.hoistedBindings f := by
  rw [hoistedBindings, Tree.hoistedBindings, hoisted, Tree.hoisted, h.ownedBlocks_eq]

theorem lookupLocal_eq (h : a.Indexed) (s : Nat) (name : String) :
    a.lookupLocal s name = a.tree.lookupLocal s name := by
  rw [lookupLocal, Tree.lookupLocal, h.named?_eq]

theorem lookupChain_eq (h : a.Indexed) (s : Nat) (name : String) :
    a.lookupChain s name = a.tree.lookupChain s name := by
  unfold lookupChain Tree.lookupChain
  cases hNearest : a.tree.nearest? s name <;> simp only [h.nearest?_eq, hNearest]

end Indexed
end Arena
end TreeLowering
