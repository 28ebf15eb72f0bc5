import TreeLowering.Scope.Naming

/-! # The frame of a scope tree: kinds and parents of its scopes

Walks outward depend on kinds and parents alone. In a grounded tree every scope but the global one
has an earlier parent, so a walk from any existing scope ends at the global scope. -/
namespace TreeLowering.Tree
set_option autoImplicit false

theorem containsScope_iff (t : Tree) (s : Nat) : t.containsScope s = true ↔ s < t.scopes.size := by
  simp [containsScope]

theorem containsBinding_iff (t : Tree) (b : Nat) :
    t.containsBinding b = true ↔ b < t.bindings.size := by
  simp [containsBinding]

/-- Two trees whose scopes have the same kinds and parents. -/
structure SameFrame (t u : Tree) : Prop where
  size : u.scopes.size = t.scopes.size
  parent : ∀ s, u.parent? s = t.parent? s
  function : ∀ s, u.isFunctionScope s = t.isFunctionScope s

namespace SameFrame

variable {t u : Tree}

theorem trans {w : Tree} (h : SameFrame t u) (h' : SameFrame u w) : SameFrame t w :=
  ⟨h'.size.trans h.size, fun s => (h'.parent s).trans (h.parent s),
    fun s => (h'.function s).trans (h.function s)⟩

theorem chainFrom (h : SameFrame t u) (fuel s : Nat) : u.chainFrom fuel s = t.chainFrom fuel s := by
  induction fuel generalizing s with
  | zero => rfl
  | succ fuel ih =>
    rw [Tree.chainFrom, Tree.chainFrom, h.parent s]
    cases t.parent? s with
    | none => rfl
    | some p => simp only [ih]

theorem chain (h : SameFrame t u) (s : Nat) : u.chain s = t.chain s := h.chainFrom s s

theorem functionScope (h : SameFrame t u) (s : Nat) : u.functionScope s = t.functionScope s := by
  have hFunction : u.isFunctionScope = t.isFunctionScope := funext h.function
  rw [Tree.functionScope, Tree.functionScope, h.chain, hFunction]

theorem functionScopes (h : SameFrame t u) : u.functionScopes = t.functionScopes := by
  have hFunction : u.isFunctionScope = t.isFunctionScope := funext h.function
  rw [Tree.functionScopes, Tree.functionScopes, h.size, hFunction]

theorem ownedBlocks (h : SameFrame t u) (f : Nat) : u.ownedBlocks f = t.ownedBlocks f := by
  simp only [Tree.ownedBlocks, h.size, h.function, h.functionScope]

end SameFrame

theorem sameFrame_modify (t : Tree) (s : Nat) (order : List Nat → List Nat) (bindings : Array Binding) :
    SameFrame t
      ⟨t.scopes.modify s fun scope => { scope with order := order scope.order }, bindings⟩ where
  size := by simp
  parent r := by
    by_cases hr : s = r
    · simp only [parent?, Array.getElem?_modify, if_pos hr]
      cases t.scopes[r]? <;> rfl
    · simp only [parent?, Array.getElem?_modify, if_neg hr]
  function r := by
    by_cases hr : s = r
    · simp only [isFunctionScope, Array.getElem?_modify, if_pos hr]
      cases t.scopes[r]? <;> rfl
    · simp only [isFunctionScope, Array.getElem?_modify, if_neg hr]

theorem sameFrame_insert (t : Tree) (s : Nat) (e : Entry) : SameFrame t (t.insert s e) :=
  t.sameFrame_modify s (· ++ [t.bindings.size]) _

theorem sameFrame_retract (t : Tree) (s b : Nat) : SameFrame t (t.retract s b) :=
  t.sameFrame_modify s (·.filter (· != b)) _

theorem sameFrame_setTarget (t : Tree) (b : Nat) (name : String) : SameFrame t (t.setTarget b name) :=
  ⟨rfl, fun _ => rfl, fun _ => rfl⟩

/-- The first scope is the global one, and every other scope is below an earlier one. -/
structure Grounded (t : Tree) : Prop where
  root : ∃ order, t.scopes[0]? = some ⟨.global, none, order⟩
  below : ∀ s scope, t.scopes[s + 1]? = some scope →
    scope.kind ≠ .global ∧ ∃ p ≤ s, scope.parent = some p

namespace Grounded

variable {t : Tree}

theorem size_pos (h : t.Grounded) : 0 < t.scopes.size := by
  obtain ⟨order, hRoot⟩ := h.root
  exact (Array.getElem?_eq_some_iff.mp hRoot).1

theorem parent?_zero (h : t.Grounded) : t.parent? 0 = none := by
  obtain ⟨order, hRoot⟩ := h.root
  simp [parent?, hRoot]

theorem isFunctionScope_zero (h : t.Grounded) : t.isFunctionScope 0 = true := by
  obtain ⟨order, hRoot⟩ := h.root
  simp [isFunctionScope, hRoot, ScopeKind.isFunction]

theorem parent_lt (h : t.Grounded) {s p : Nat} (hParent : t.parent? s = some p) : p < s := by
  cases s with
  | zero => simp [h.parent?_zero] at hParent
  | succ s =>
    obtain ⟨scope, hScope, hUp⟩ := Option.bind_eq_some_iff.mp hParent
    obtain ⟨_, q, hq, hEq⟩ := h.below s scope hScope
    rw [hUp] at hEq
    cases hEq
    omega

theorem exists_parent (h : t.Grounded) {s : Nat} (hs : s < t.scopes.size) (hPos : s ≠ 0) :
    ∃ p, t.parent? s = some p := by
  obtain ⟨s, rfl⟩ := Nat.exists_eq_succ_of_ne_zero hPos
  obtain ⟨_, p, _, hUp⟩ := h.below s _ (Array.getElem?_eq_getElem hs)
  exact ⟨p, by simp [parent?, Array.getElem?_eq_getElem hs, hUp]⟩

/-- Fuel beyond the number of the starting scope changes nothing. -/
theorem chainFrom_eq (h : t.Grounded) {fuel s : Nat} (hFuel : s ≤ fuel) :
    t.chainFrom fuel s = t.chain s := by
  induction s using Nat.strongRecOn generalizing fuel with
  | ind s ih =>
    cases hParent : t.parent? s with
    | none =>
      have stop : ∀ n, t.chainFrom n s = [s] := by
        intro n
        cases n <;> simp [Tree.chainFrom, hParent]
      rw [Tree.chain, stop, stop]
    | some p =>
      have hLt := h.parent_lt hParent
      have step : ∀ n, s ≤ n → t.chainFrom n s = s :: t.chain p := by
        intro n hn
        obtain ⟨m, rfl⟩ : ∃ m, n = m + 1 := ⟨n - 1, by omega⟩
        simp only [Tree.chainFrom, hParent]
        rw [ih p hLt (by omega)]
      rw [Tree.chain, step fuel hFuel, step s (Nat.le_refl s)]

theorem chain_of_parent (h : t.Grounded) {s p : Nat} (hParent : t.parent? s = some p) :
    t.chain s = s :: t.chain p := by
  have hLt := h.parent_lt hParent
  obtain ⟨m, rfl⟩ : ∃ m, s = m + 1 := ⟨s - 1, by omega⟩
  rw [Tree.chain, Tree.chainFrom, hParent]
  simp only [h.chainFrom_eq (show p ≤ m by omega)]

theorem chain_of_root {s : Nat} (hParent : t.parent? s = none) : t.chain s = [s] := by
  rw [Tree.chain]
  cases s <;> simp [Tree.chainFrom, hParent]

theorem modify (h : t.Grounded) (s : Nat) (order : List Nat → List Nat) (bindings : Array Binding) :
    Grounded ⟨t.scopes.modify s fun scope => { scope with order := order scope.order }, bindings⟩ where
  root := by
    obtain ⟨old, hRoot⟩ := h.root
    by_cases hs : s = 0
    · exact ⟨order old, by simp [Array.getElem?_modify, hs, hRoot]⟩
    · exact ⟨old, by simp [Array.getElem?_modify, hs, hRoot]⟩
  below r scope hScope := by
    simp only [Array.getElem?_modify] at hScope
    split at hScope
    · obtain ⟨old, hOld, rfl⟩ := Option.map_eq_some_iff.mp hScope
      exact h.below r old hOld
    · exact h.below r scope hScope

theorem push (h : t.Grounded) {kind : ScopeKind} {parent : Nat} (hKind : kind ≠ .global)
    (hParent : parent < t.scopes.size) :
    Grounded { t with scopes := t.scopes.push ⟨kind, some parent, []⟩ } where
  root := by
    obtain ⟨order, hRoot⟩ := h.root
    exact ⟨order, by rw [Array.getElem?_push, if_neg (Nat.ne_of_lt h.size_pos), hRoot]⟩
  below s scope hScope := by
    simp only [Array.getElem?_push] at hScope
    split at hScope
    · cases hScope
      exact ⟨hKind, parent, by omega, rfl⟩
    · exact h.below s scope hScope

end Grounded

/-! ## Walks outward -/

theorem exists_chain_eq_cons (t : Tree) (s : Nat) : ∃ outer, t.chain s = s :: outer := by
  rw [chain]
  cases s with
  | zero => exact ⟨[], rfl⟩
  | succ s => cases hParent : t.parent? (s + 1) <;> simp [chainFrom, hParent]

theorem self_mem_chain (t : Tree) (s : Nat) : s ∈ t.chain s := by
  obtain ⟨outer, hOuter⟩ := t.exists_chain_eq_cons s
  rw [hOuter]
  exact List.mem_cons_self

namespace Grounded

variable {t : Tree}

/-- Induction along the walk outward from a scope. -/
theorem walk (h : t.Grounded) {motive : Nat → Prop}
    (stop : ∀ s, t.parent? s = none → motive s)
    (step : ∀ s p, t.parent? s = some p → motive p → motive s) (s : Nat) : motive s := by
  induction s using Nat.strongRecOn with
  | ind s ih =>
    cases hParent : t.parent? s with
    | none => exact stop s hParent
    | some p => exact step s p hParent (ih p (h.parent_lt hParent))

theorem le_of_mem_chain (h : t.Grounded) {r s : Nat} (hr : r ∈ t.chain s) : r ≤ s := by
  induction s using h.walk with
  | stop s hParent => simp_all [chain_of_root hParent]
  | step s p hParent ih =>
    have hLt := h.parent_lt hParent
    rcases List.mem_cons.mp (h.chain_of_parent hParent ▸ hr) with rfl | hr
    · exact Nat.le_refl r
    · have := ih hr
      omega

theorem chain_suffix (h : t.Grounded) {r s : Nat} (hr : r ∈ t.chain s) :
    ∃ inner, t.chain s = inner ++ t.chain r ∧ ∀ q ∈ inner, r < q := by
  induction s using h.walk with
  | stop s hParent =>
    obtain rfl : r = s := by simpa [chain_of_root hParent] using hr
    exact ⟨[], rfl, by simp⟩
  | step s p hParent ih =>
    rw [h.chain_of_parent hParent] at hr ⊢
    rcases List.mem_cons.mp hr with rfl | hUp
    · exact ⟨[], by rw [h.chain_of_parent hParent, List.nil_append], by simp⟩
    · obtain ⟨inner, hInner, hAbove⟩ := ih hUp
      refine ⟨s :: inner, by rw [hInner, List.cons_append], ?_⟩
      intro q hq
      rcases List.mem_cons.mp hq with rfl | hq
      · exact Nat.lt_of_le_of_lt (h.le_of_mem_chain hUp) (h.parent_lt hParent)
      · exact hAbove q hq

theorem chain_trans (h : t.Grounded) {q r s : Nat} (hq : q ∈ t.chain r) (hr : r ∈ t.chain s) :
    q ∈ t.chain s := by
  obtain ⟨inner, hInner, _⟩ := h.chain_suffix hr
  rw [hInner]
  exact List.mem_append_right inner hq

end Grounded

/-! ## Function scopes -/

theorem functionScope_of_function {t : Tree} {s : Nat} (hs : t.isFunctionScope s = true) :
    t.functionScope s = s := by
  rw [functionScope, chain]
  cases s with
  | zero => simp [chainFrom, hs]
  | succ s => cases hParent : t.parent? (s + 1) <;> simp [chainFrom, hParent, hs]

theorem mem_functionScopes {t : Tree} {f : Nat} :
    f ∈ t.functionScopes ↔ f < t.scopes.size ∧ t.isFunctionScope f = true := by
  simp [functionScopes]

theorem mem_ownedBlocks {t : Tree} {s f : Nat} :
    s ∈ t.ownedBlocks f ↔ s < t.scopes.size ∧ t.isFunctionScope s = false ∧ t.functionScope s = f := by
  simp [ownedBlocks]

namespace Grounded

variable {t : Tree}

theorem parent_lt_size (h : t.Grounded) {s p : Nat} (hParent : t.parent? s = some p) :
    p < t.scopes.size := by
  obtain ⟨scope, hScope, _⟩ := Option.bind_eq_some_iff.mp hParent
  have hs := (Array.getElem?_eq_some_iff.mp hScope).1
  exact Nat.lt_trans (h.parent_lt hParent) hs

theorem zero_mem_chain (h : t.Grounded) {s : Nat} (hs : s < t.scopes.size) : 0 ∈ t.chain s := by
  induction s using h.walk with
  | stop s hParent =>
    by_cases hZero : s = 0
    · rw [hZero]
      exact t.self_mem_chain 0
    · obtain ⟨p, hp⟩ := h.exists_parent hs hZero
      simp [hp] at hParent
  | step s p hParent ih =>
    rw [h.chain_of_parent hParent]
    exact List.mem_cons_of_mem s (ih (h.parent_lt_size hParent))

theorem find?_chain (h : t.Grounded) {s : Nat} (hs : s < t.scopes.size) :
    (t.chain s).find? t.isFunctionScope = some (t.functionScope s) := by
  have hSome : ((t.chain s).find? t.isFunctionScope).isSome = true :=
    List.find?_isSome.mpr ⟨0, h.zero_mem_chain hs, h.isFunctionScope_zero⟩
  obtain ⟨f, hf⟩ := Option.isSome_iff_exists.mp hSome
  rw [functionScope, hf, Option.getD_some]

theorem functionScope_eq (h : t.Grounded) (s : Nat) :
    t.functionScope s =
      if t.isFunctionScope s then s else ((t.parent? s).map t.functionScope).getD s := by
  by_cases hFunction : t.isFunctionScope s = true
  · rw [if_pos hFunction, functionScope_of_function hFunction]
  · rw [if_neg hFunction]
    cases hParent : t.parent? s with
    | none => simp [functionScope, chain_of_root hParent, hFunction]
    | some p =>
      have hp : p < t.scopes.size := h.parent_lt_size hParent
      rw [functionScope, h.chain_of_parent hParent, List.find?_cons_of_neg hFunction, h.find?_chain hp]
      rfl

/-- A new scope leaves the function scopes of the others as they are. -/
theorem functionScope_push (h : t.Grounded) {kind : ScopeKind} {parent : Nat} (hKind : kind ≠ .global)
    (hParent : parent < t.scopes.size) {s : Nat} (hs : s < t.scopes.size) :
    functionScope { t with scopes := t.scopes.push ⟨kind, some parent, []⟩ } s = t.functionScope s := by
  have hScope {r : Nat} (hr : r < t.scopes.size) : (t.scopes.push ⟨kind, some parent, []⟩)[r]? = t.scopes[r]? := by
    rw [Array.getElem?_push, if_neg (Nat.ne_of_lt hr)]
  induction s using h.walk with
  | stop s hRoot =>
    rw [(h.push hKind hParent).functionScope_eq, h.functionScope_eq]
    simp only [isFunctionScope, parent?, hScope hs] at hRoot ⊢
    simp only [hRoot, Option.map_none]
  | step s p hUp ih =>
    have hp := h.parent_lt_size hUp
    rw [(h.push hKind hParent).functionScope_eq, h.functionScope_eq]
    simp only [isFunctionScope, parent?, hScope hs] at hUp ⊢
    simp only [hUp, Option.map_some, ih hp]

theorem isFunctionScope_functionScope (h : t.Grounded) {s : Nat} (hs : s < t.scopes.size) :
    t.isFunctionScope (t.functionScope s) = true := List.find?_some (h.find?_chain hs)

theorem functionScope_mem_chain (h : t.Grounded) {s : Nat} (hs : s < t.scopes.size) :
    t.functionScope s ∈ t.chain s := List.mem_of_find?_eq_some (h.find?_chain hs)

theorem functionScope_lt (h : t.Grounded) {s : Nat} (hs : s < t.scopes.size) :
    t.functionScope s < t.scopes.size :=
  Nat.lt_of_le_of_lt (h.le_of_mem_chain (h.functionScope_mem_chain hs)) hs

theorem functionScope_mem (h : t.Grounded) {s : Nat} (hs : s < t.scopes.size) :
    t.functionScope s ∈ t.functionScopes :=
  mem_functionScopes.mpr ⟨h.functionScope_lt hs, h.isFunctionScope_functionScope hs⟩

end Grounded
end TreeLowering.Tree
