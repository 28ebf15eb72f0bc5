import TreeLowering.Proofs.Scope.Representation

/-! # Shadowing

A binding that is added to a scope is found from that scope and from those inside it whose walk outward
meets no nearer binding of its name. Taking it out again uncovers what was found before. -/
namespace TreeLowering.Tree
set_option autoImplicit false

/-- The walk outward from a scope comes to `s` before it comes to any scope that binds the name. -/
inductive Uncovered (t : Tree) (s : Nat) (name : String) : Nat → Prop where
  | here : Uncovered t s name s
  | outward {r p : Nat} (hNe : r ≠ s) (hFree : t.named? r name = none) (hParent : t.parent? r = some p)
    (hRest : Uncovered t s name p) : Uncovered t s name r

theorem lookupLocal_eq_none_iff {t : Tree} {s : Nat} {name : String} :
    t.lookupLocal s name = .ok none ↔ s < t.scopes.size ∧ t.named? s name = none := by
  rw [lookupLocal, checkScope, ← containsScope_iff]
  cases t.containsScope s with
  | false => simp [throw, throwThe, MonadExceptOf.throw, bind, Except.bind]
  | true => simp [pure, Except.pure, bind, Except.bind]

theorem lookupChain_eq_ok_of_nearest? {t : Tree} {s b : Nat} {name : String} (hs : s < t.scopes.size)
    (hb : t.nearest? s name = some b) : t.lookupChain s name = .ok b := by
  rw [lookupChain, checkScope_eq_ok hs, hb]
  rfl

theorem containsScope_congr {t u : Tree} (hSize : u.scopes.size = t.scopes.size) (s : Nat) :
    u.containsScope s = t.containsScope s := by
  rw [containsScope, containsScope, hSize]

theorem checkScope_congr {t u : Tree} (hSize : u.scopes.size = t.scopes.size) (s : Nat) :
    u.checkScope s = t.checkScope s := by
  rw [checkScope, checkScope, containsScope_congr hSize]

theorem lookupChain_congr {t u : Tree} {s : Nat} {name : String} (hSize : u.scopes.size = t.scopes.size)
    (hNearest : u.nearest? s name = t.nearest? s name) : u.lookupChain s name = t.lookupChain s name := by
  rw [lookupChain, lookupChain, checkScope_congr hSize, hNearest]

/-! ## Names after an addition -/

section

variable {t : Tree} (h : t.WellFormed) {s : Nat} {e : Entry} (hFree : t.obstacle? s e = none)

include h hFree

theorem named?_insert (r : Nat) (name : String) :
    (t.insert s e).named? r name =
      if r = s ∧ e.identifier = some name then some t.bindings.size else t.named? r name := by
  have hs := (obstacle?_eq_none_iff.mp hFree).1
  split
  · rename_i hNew
    obtain ⟨rfl, hName⟩ := hNew
    apply (h.insert hFree).named?_eq_some_iff.mpr
    exact ⟨(mem_visible_insert hs).mpr (.inr ⟨rfl, rfl⟩), (t.identifier?_insert_self r e).trans hName⟩
  · rename_i hOld
    apply Option.ext
    intro b
    rw [(h.insert hFree).named?_eq_some_iff, h.named?_eq_some_iff, mem_visible_insert hs]
    constructor
    · rintro ⟨hb | ⟨rfl, rfl⟩, hName⟩
      · exact ⟨hb, (identifier?_insert_of_lt s e (h.lt_of_mem hb)).symm.trans hName⟩
      · exact absurd ⟨rfl, (t.identifier?_insert_self r e).symm.trans hName⟩ hOld
    · rintro ⟨hb, hName⟩
      exact ⟨.inl hb, (identifier?_insert_of_lt s e (h.lt_of_mem hb)).trans hName⟩

theorem nearest?_insert_step (r : Nat) (name : String) :
    (t.insert s e).nearest? r name =
      if r = s ∧ e.identifier = some name then some t.bindings.size
      else (t.named? r name).or ((t.parent? r).bind fun p => (t.insert s e).nearest? p name) := by
  rw [(h.insert hFree).nearest?_eq, named?_insert h hFree, (t.sameFrame_insert s e).parent]
  split <;> rfl

theorem nearest?_insert_of_uncovered {name : String} (hName : e.identifier = some name) {r : Nat}
    (hr : t.Uncovered s name r) : (t.insert s e).nearest? r name = some t.bindings.size := by
  induction hr with
  | here => rw [nearest?_insert_step h hFree, if_pos ⟨rfl, hName⟩]
  | outward hNe hFree' hParent _ ih =>
    rw [nearest?_insert_step h hFree, if_neg fun hHere => hNe hHere.1, hFree', hParent]
    exact ih

theorem nearest?_insert_of_covered {name m : String} (hName : e.identifier = some name) {r : Nat}
    (hr : ¬(m = name ∧ t.Uncovered s name r)) : (t.insert s e).nearest? r m = t.nearest? r m := by
  have hElsewhere : ∀ r, ¬(m = name ∧ t.Uncovered s name r) → ¬(r = s ∧ e.identifier = some m) := by
    rintro r hr ⟨rfl, hm⟩
    exact hr ⟨Option.some.inj (hm.symm.trans hName), .here⟩
  induction r using h.toGrounded.walk with
  | stop r hParent =>
    rw [nearest?_insert_step h hFree, if_neg (hElsewhere r hr), h.nearest?_eq, hParent]
    rfl
  | step r p hParent ih =>
    rw [nearest?_insert_step h hFree, if_neg (hElsewhere r hr), h.nearest?_eq, hParent]
    cases hNamed : t.named? r m with
    | some b => rfl
    | none =>
      -- Nothing at `r` stands in front of what is further out.
      refine ih fun hOuter => hr ⟨hOuter.1, ?_⟩
      obtain ⟨rfl, hUncovered⟩ := hOuter
      by_cases hNe : r = s
      · exact hNe ▸ .here
      · exact .outward hNe hNamed hParent hUncovered

omit h in
theorem Uncovered.lt {name : String} {r : Nat} (hr : t.Uncovered s name r) : r < t.scopes.size := by
  cases hr with
  | here => exact (obstacle?_eq_none_iff.mp hFree).1
  | outward _ _ hParent _ =>
    obtain ⟨scope, hScope, _⟩ := Option.bind_eq_some_iff.mp hParent
    exact (Array.getElem?_eq_some_iff.mp hScope).1

end

/-! ## Trees that show the same bindings -/

/-- The scopes of both trees show the same bindings, whatever else has become of bindings out of sight. -/
structure SameSight (t u : Tree) : Prop where
  frame : SameFrame t u
  visible : ∀ s, u.visible s = t.visible s
  entry : ∀ s, ∀ b ∈ t.visible s, u.entryAt? b = t.entryAt? b

/-- The trees give the same answers to all questions for bindings, failures included. -/
structure SameAnswers (t u : Tree) : Prop where
  lookupLocal : ∀ s name, u.lookupLocal s name = t.lookupLocal s name
  lookupChain : ∀ s name, u.lookupChain s name = t.lookupChain s name
  resolveReference : ∀ ref, u.resolveReference ref = t.resolveReference ref
  localBindings : ∀ s, u.localBindings s = t.localBindings s
  hoistedBindings : ∀ f, u.hoistedBindings f = t.hoistedBindings f

namespace SameSight

variable {t u : Tree} (h : SameSight t u)

include h

theorem checkScope (s : Nat) : u.checkScope s = t.checkScope s := checkScope_congr h.frame.size s

theorem named? (s : Nat) (name : String) : u.named? s name = t.named? s name := by
  rw [Tree.named?, Tree.named?, h.visible, ← List.head?_filter, ← List.head?_filter]
  congr 1
  apply List.filter_congr
  intro b hb
  rw [identifier?, identifier?, h.entry s b hb]

theorem nearest? (s : Nat) (name : String) : u.nearest? s name = t.nearest? s name := by
  simp only [Tree.nearest?, h.frame.chain, h.named?]

theorem reference? (ref : Reference) : u.reference? ref = t.reference? ref := by
  cases ref with
  | named s name => exact h.named? s name
  | slot s i => rw [Tree.reference?, Tree.reference?, h.visible]

theorem locals (s : Nat) : u.locals s = t.locals s := by
  rw [Tree.locals, Tree.locals, h.visible]
  apply List.filter_congr
  intro b hb
  rw [h.entry s b hb]

theorem hoisted (f : Nat) : u.hoisted f = t.hoisted f := by
  rw [Tree.hoisted, Tree.hoisted, h.frame.ownedBlocks, h.locals, funext h.locals]

theorem sameAnswers : SameAnswers t u where
  lookupLocal s name := by rw [Tree.lookupLocal, Tree.lookupLocal, h.checkScope, h.named?]
  lookupChain s name := lookupChain_congr h.frame.size (h.nearest? s name)
  resolveReference ref := by
    rw [Tree.resolveReference, Tree.resolveReference, containsScope_congr h.frame.size, h.reference?]
  localBindings s := by rw [Tree.localBindings, Tree.localBindings, h.checkScope, h.locals]
  hoistedBindings f := by rw [Tree.hoistedBindings, Tree.hoistedBindings, h.checkScope, h.hoisted]

end SameSight

theorem WellFormed.sameSight_retract_insert {t : Tree} (h : t.WellFormed) {s : Nat} (hs : s < t.scopes.size)
    (e : Entry) : SameSight t ((t.insert s e).retract s t.bindings.size) where
  frame := (t.sameFrame_insert s e).trans ((t.insert s e).sameFrame_modify s (·.filter (· != t.bindings.size)) _)
  visible r := by
    by_cases hr : r = s
    · subst hr
      have hOld : (t.visible r).filter (· != t.bindings.size) = t.visible r := by
        apply List.filter_eq_self.mpr
        intro b hb
        simpa using Nat.ne_of_lt (h.lt_of_mem hb)
      rw [visible_retract_self, visible_insert_self e ((t.containsScope_iff r).mpr hs), List.filter_append, hOld]
      simp
    · rw [visible_retract_of_ne _ _ hr, visible_insert_of_ne t e hr]
  entry r b hb := entryAt?_insert_of_lt s e (h.lt_of_mem hb)

/-- Adding a binding under a name that its scope leaves free changes the look-ups of that name from the
scopes where it is uncovered, and no other; removing it again restores every answer. -/
theorem addition_changes_uncovered_lookups {t : Tree} (h : t.Reachable) {s : Nat} {e : Entry} {name : String}
    (hName : e.identifier = some name) (hUnbound : t.lookupLocal s name = .ok none)
    (hLink : ∀ link, e.link? = some link → t.containsBinding link = true) :
    ∃ b u w, add s e t = .ok b u ∧ t.containsBinding b = false ∧ u.bindings[b]? = some ⟨s, e⟩ ∧
      (∀ r, t.Uncovered s name r → u.lookupChain r name = .ok b) ∧
      (∀ r m, ¬(m = name ∧ t.Uncovered s name r) → u.lookupChain r m = t.lookupChain r m) ∧
      remove s name u = .ok (some b) w ∧ SameAnswers t w := by
  have hWell := h.wellFormed
  obtain ⟨hs, hNone⟩ := lookupLocal_eq_none_iff.mp hUnbound
  have hFree : t.obstacle? s e = none := by
    refine obstacle?_eq_none_iff.mpr ⟨hs, ?_, ?_⟩
    · intro n hn
      rw [← Option.some.inj (hName.symm.trans hn), hNone]
    · rintro n link rfl
      exact (t.containsBinding_iff link).mp (hLink link rfl)
  refine ⟨t.bindings.size, t.insert s e, (t.insert s e).retract s t.bindings.size, ?_, ?_, ?_, ?_, ?_, ?_,
    (hWell.sameSight_retract_insert hs e).sameAnswers⟩
  · rw [add_apply, hFree]
  · simp [containsBinding]
  · rw [getElem?_insert, if_pos rfl]
  · intro r hr
    exact lookupChain_eq_ok_of_nearest? ((t.size_scopes_insert s e).symm ▸ hr.lt hFree)
      (nearest?_insert_of_uncovered hWell hFree hName hr)
  · intro r m hr
    exact lookupChain_congr (t.size_scopes_insert s e) (nearest?_insert_of_covered hWell hFree hName hr)
  · rw [remove_apply, if_pos ((t.size_scopes_insert s e).symm ▸ hs), named?_insert hWell hFree,
      if_pos ⟨rfl, hName⟩]

def layers : List Operation :=
  [.push .function 0, .push .block 1, .push .block 2, .add 1 (.var (Variable.ofLocal "x")),
    .add 3 (.var (Variable.ofLocal "x"))]

/-- A function and the inner one of two blocks bind the same name. -/
def layeredTree : Tree where
  scopes := #[⟨.global, none, []⟩, ⟨.function, some 0, [0]⟩, ⟨.block, some 1, []⟩,
    ⟨.block, some 2, [1]⟩]
  bindings := #[⟨1, .var (Variable.ofLocal "x")⟩, ⟨3, .var (Variable.ofLocal "x")⟩]

theorem middle_layer_shadows_outer : layeredTree.Reachable ∧
    ∃ u w, add 2 (.linked "x" 0) layeredTree = .ok 2 u ∧ u.lookupChain 2 "x" = .ok 2 ∧
      u.lookupChain 3 "x" = .ok 1 ∧ u.lookupChain 1 "x" = .ok 0 ∧
      remove 2 "x" u = .ok (some 2) w ∧ w.lookupChain 2 "x" = .ok 0 := by
  have hReachable : layeredTree.Reachable := ⟨layers, by decide⟩
  have hAdd : add 2 (.linked "x" 0) layeredTree = .ok 2 (layeredTree.insert 2 (.linked "x" 0)) := by rfl
  obtain ⟨b, u, w, hAdd', _, _, hNew, hOld, hRemove, hRestored⟩ :=
    addition_changes_uncovered_lookups hReachable (e := .linked "x" 0) rfl (s := 2) (by rfl) (by
      rintro _ ⟨⟩
      rfl)
  obtain ⟨rfl, rfl⟩ : b = 2 ∧ u = layeredTree.insert 2 (.linked "x" 0) := by
    rw [hAdd] at hAdd'
    cases hAdd'
    exact ⟨rfl, rfl⟩
  have hCovered (r : Nat) (hNe : r ≠ 2) (hBound : layeredTree.named? r "x" ≠ none) :
      ¬layeredTree.Uncovered 2 "x" r := by
    intro hUncovered
    cases hUncovered with
    | here => exact hNe rfl
    | outward _ hFree _ _ => exact hBound hFree
  refine ⟨hReachable, _, w, hAdd, hNew 2 .here, ?_, ?_, hRemove, ?_⟩
  · rw [hOld 3 "x" fun hr => hCovered 3 (by decide) (by decide) hr.2]
    rfl
  · rw [hOld 1 "x" fun hr => hCovered 1 (by decide) (by decide) hr.2]
    rfl
  · rw [hRestored.lookupChain]
    rfl

end TreeLowering.Tree
