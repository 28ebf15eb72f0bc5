import TreeLowering.Proofs.Scope.Representation

/-! # Hoisting

A function gathers what counts of its own bindings and then of those of its blocks. Every scope belongs to
one function, the nearest one around it, so the functions of a tree share out the bindings among them. -/
namespace TreeLowering.Tree
set_option autoImplicit false

/-- The block scope has this function scope as the nearest one around it. -/
def IsBlockOf (t : Tree) (f s : Nat) : Prop :=
  (∃ scope, t.scopes[s]? = some scope ∧ scope.kind = .block) ∧ t.functionScopeOf s = .ok f

/-- Where `own` lists what counts of each scope and `gathered` what each function gathers: every binding
that counts is gathered once, by the function of its owner. -/
structure SharesOut (t : Tree) (own gathered : Nat → List Nat) : Prop where
  once : (t.functionScopes.flatMap gathered).Nodup
  all : ∀ b, b ∈ t.functionScopes.flatMap gathered ↔ ∃ s, b ∈ own s
  place : ∀ f ∈ t.functionScopes, ∀ b,
    b ∈ gathered f ↔ ∃ o e, t.bindings[b]? = some ⟨o, e⟩ ∧ b ∈ own o ∧ t.functionScopeOf o = .ok f
  order : ∀ f ∈ t.functionScopes, ∃ blocks : List Nat, blocks.Pairwise (· < ·) ∧
    (∀ s, s ∈ blocks ↔ t.IsBlockOf f s) ∧ gathered f = own f ++ blocks.flatMap own

theorem functionScopeOf_eq {t : Tree} {s : Nat} (hs : s < t.scopes.size) :
    t.functionScopeOf s = .ok (t.functionScope s) := by
  rw [functionScopeOf, checkScope_eq_ok hs]
  rfl

theorem isFunctionScope_iff {t : Tree} {f : Nat} : t.isFunctionScope f = true ↔
    ∃ scope, t.scopes[f]? = some scope ∧ (scope.kind = .function ∨ scope.kind = .global) := by
  constructor
  · exact exists_scope_of_isFunctionScope
  · rintro ⟨scope, hScope, hKind⟩
    rw [isFunctionScope, hScope]
    rcases hKind with hKind | hKind <;> simp [hKind, ScopeKind.isFunction]

theorem mem_functionScopes_iff {t : Tree} {f : Nat} : f ∈ t.functionScopes ↔
    ∃ scope, t.scopes[f]? = some scope ∧ (scope.kind = .function ∨ scope.kind = .global) := by
  rw [mem_functionScopes, isFunctionScope_iff]
  constructor
  · exact And.right
  · rintro ⟨scope, hScope, hKind⟩
    exact ⟨(Array.getElem?_eq_some_iff.mp hScope).1, scope, hScope, hKind⟩

theorem mem_ownedBlocks_iff {t : Tree} {f s : Nat} : s ∈ t.ownedBlocks f ↔ t.IsBlockOf f s := by
  rw [mem_ownedBlocks, IsBlockOf]
  constructor
  · rintro ⟨hs, hBlock, rfl⟩
    refine ⟨⟨t.scopes[s], Array.getElem?_eq_getElem hs, ?_⟩, functionScopeOf_eq hs⟩
    simp only [isFunctionScope, Array.getElem?_eq_getElem hs] at hBlock
    cases hKind : t.scopes[s].kind with
    | block => rfl
    | function | global => simp [hKind, ScopeKind.isFunction] at hBlock
  · rintro ⟨⟨scope, hScope, hKind⟩, hFunction⟩
    have hs := (Array.getElem?_eq_some_iff.mp hScope).1
    rw [functionScopeOf_eq hs] at hFunction
    exact ⟨hs, by simp [isFunctionScope, hScope, hKind, ScopeKind.isFunction], Except.ok.inj hFunction⟩

namespace WellFormed

variable {t : Tree} (h : t.WellFormed) {own : Nat → List Nat} (hOwn : ∀ s, (own s).Sublist (t.visible s))

include h hOwn

theorem nodup_gathered : (t.functionScopes.flatMap fun f => own f ++ (t.ownedBlocks f).flatMap own).Nodup := by
  rw [← flatMap_namingScopes, List.nodup_flatMap]
  constructor
  · intro s _
    exact (hOwn s).nodup (h.once s)
  · apply t.nodup_namingScopes.imp
    intro r s hNe b hr hs
    exact h.disjoint_visible hNe ((hOwn r).subset hr) ((hOwn s).subset hs)

omit h in
theorem mem_gathered_iff {f : Nat} (hf : t.isFunctionScope f = true) {b : Nat} :
    b ∈ own f ++ (t.ownedBlocks f).flatMap own ↔ ∃ s, b ∈ own s ∧ t.functionScope s = f := by
  rw [List.mem_append, List.mem_flatMap]
  constructor
  · rintro (hb | ⟨s, hs, hb⟩)
    · exact ⟨f, hb, functionScope_of_function hf⟩
    · exact ⟨s, hb, (mem_ownedBlocks.mp hs).2.2⟩
  · rintro ⟨s, hb, rfl⟩
    have hs := lt_of_mem_visible ((hOwn s).subset hb)
    cases hFunction : t.isFunctionScope s with
    | true => exact .inl (by rwa [functionScope_of_function hFunction])
    | false => exact .inr ⟨s, mem_ownedBlocks.mpr ⟨hs, hFunction, rfl⟩, hb⟩

theorem sharesOut : t.SharesOut own fun f => own f ++ (t.ownedBlocks f).flatMap own where
  once := h.nodup_gathered hOwn
  all b := by
    rw [List.mem_flatMap]
    constructor
    · rintro ⟨f, hf, hb⟩
      obtain ⟨s, hs, _⟩ := (mem_gathered_iff hOwn (mem_functionScopes.mp hf).2).mp hb
      exact ⟨s, hs⟩
    · rintro ⟨s, hs⟩
      have hFunction := h.functionScope_mem (lt_of_mem_visible ((hOwn s).subset hs))
      exact ⟨_, hFunction, (mem_gathered_iff hOwn (mem_functionScopes.mp hFunction).2).mpr ⟨s, hs, rfl⟩⟩
  place f hf b := by
    rw [mem_gathered_iff hOwn (mem_functionScopes.mp hf).2]
    constructor
    · rintro ⟨s, hs, rfl⟩
      have hVisible := (hOwn s).subset hs
      obtain ⟨e, he⟩ := h.owned s b hVisible
      exact ⟨s, e, he, hs, functionScopeOf_eq (lt_of_mem_visible hVisible)⟩
    · rintro ⟨o, e, _, ho, hFunction⟩
      rw [functionScopeOf_eq (lt_of_mem_visible ((hOwn o).subset ho))] at hFunction
      exact ⟨o, ho, Except.ok.inj hFunction⟩
  order f _ := ⟨t.ownedBlocks f, List.pairwise_lt_range.filter _, fun _ => mem_ownedBlocks_iff, rfl⟩

end WellFormed

theorem mem_locals_iff {t : Tree} {s b : Nat} :
    b ∈ t.locals s ↔ b ∈ t.visible s ∧ ∃ v, t.entryAt? b = some (.var v) ∧ v.storage = .local := by
  rw [locals, List.mem_filter]
  apply and_congr_right
  intro _
  cases t.entryAt? b with
  | none => simp
  | some e =>
    cases e with
    | var v => simp [Entry.storage]
    | linked name link => simp [Entry.storage]

/-- The functions of a tree share out its visible local variables by hoisting, and all its visible bindings
by the order in which they name them. -/
theorem functions_share_out_bindings {t : Tree} (h : t.Reachable) :
    (∀ f, f ∈ t.functionScopes ↔
      ∃ scope, t.scopes[f]? = some scope ∧ (scope.kind = .function ∨ scope.kind = .global)) ∧
    (∀ f ∈ t.functionScopes, t.hoistedBindings f = .ok (t.hoisted f)) ∧
    (∀ s b, b ∈ t.locals s ↔ b ∈ t.visible s ∧ ∃ v, t.entryAt? b = some (.var v) ∧ v.storage = .local) ∧
    t.SharesOut t.locals t.hoisted ∧ t.SharesOut t.visible t.allocationOrder := by
  refine ⟨fun _ => mem_functionScopes_iff, ?_, fun _ _ => mem_locals_iff, ?_, ?_⟩
  · intro f hf
    rw [hoistedBindings, checkScope_eq_ok (mem_functionScopes.mp hf).1]
    rfl
  · exact h.wellFormed.sharesOut fun _ => List.filter_sublist
  · exact h.wellFormed.sharesOut fun _ => List.Sublist.refl _

def scatteredLocals : List Operation :=
  [.push .function 0, .push .block 1, .push .function 2, .push .block 2, .push .block 3, .push .block 0,
    .add 4 (.var (Variable.ofLocal "a")), .add 1 (.var (Variable.ofLocal "b")), .add 2 (.linked "c" 0),
    .add 2 (.var (Variable.ofLocal "d")), .add 3 (.var (Variable.ofArgument "e")),
    .add 5 (.var (Variable.ofLocal "f")), .add 6 (.var (Variable.ofLocal "g"))]

/-- A function inside a block of another one, and a block at the top. -/
def scatteredTree : Tree where
  scopes := #[⟨.global, none, []⟩, ⟨.function, some 0, [1]⟩, ⟨.block, some 1, [2, 3]⟩,
    ⟨.function, some 2, [4]⟩, ⟨.block, some 2, [0]⟩, ⟨.block, some 3, [5]⟩, ⟨.block, some 0, [6]⟩]
  bindings := #[⟨4, .var (Variable.ofLocal "a")⟩, ⟨1, .var (Variable.ofLocal "b")⟩, ⟨2, .linked "c" 0⟩,
    ⟨2, .var (Variable.ofLocal "d")⟩, ⟨3, .var (Variable.ofArgument "e")⟩, ⟨5, .var (Variable.ofLocal "f")⟩,
    ⟨6, .var (Variable.ofLocal "g")⟩]

theorem scattered_locals_are_hoisted_once : scatteredTree.Reachable ∧
    scatteredTree.functionScopes.flatMap scatteredTree.hoisted = [6, 1, 3, 0, 5] ∧
    scatteredTree.functionScopes.flatMap scatteredTree.allocationOrder = [6, 1, 2, 3, 0, 4, 5] ∧
    scatteredTree.hoistedBindings 1 = .ok [1, 3, 0] ∧
    scatteredTree.SharesOut scatteredTree.locals scatteredTree.hoisted ∧
    scatteredTree.SharesOut scatteredTree.visible scatteredTree.allocationOrder := by
  have hReachable : scatteredTree.Reachable := ⟨scatteredLocals, by decide +kernel⟩
  obtain ⟨_, hHoisted, _, hLocals, hVisible⟩ := functions_share_out_bindings hReachable
  exact ⟨hReachable, by decide, by decide, hHoisted 1 (by decide), hLocals, hVisible⟩

end TreeLowering.Tree
