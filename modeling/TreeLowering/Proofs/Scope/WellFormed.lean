import TreeLowering.Proofs.Scope.Frame

/-! # Well-formed scope trees

What a tree is made of changes in four ways only: a scope is pushed, a binding is inserted, a
binding is retracted from its scope, a pending target is assigned. Each of them keeps the tree
well formed. -/
namespace TreeLowering
set_option autoImplicit false

namespace Entry

@[simp] theorem identifier_assign (name : String) (e : Entry) :
    (e.assign name).identifier = e.identifier := by
  cases e <;> rfl

@[simp] theorem storage_assign (name : String) (e : Entry) : (e.assign name).storage = e.storage := by
  cases e <;> rfl

end Entry

namespace Tree

/-! ## Views of a changed tree -/

theorem getElem?_insert (t : Tree) (s b : Nat) (e : Entry) :
    (t.insert s e).bindings[b]? = if b = t.bindings.size then some ⟨s, e⟩ else t.bindings[b]? :=
  Array.getElem?_push

theorem identifier?_insert_self (t : Tree) (s : Nat) (e : Entry) :
    (t.insert s e).identifier? t.bindings.size = e.identifier := by
  simp [identifier?, entryAt?_insert_self]

theorem identifier?_insert_of_lt {t : Tree} {b : Nat} (s : Nat) (e : Entry)
    (h : b < t.bindings.size) : (t.insert s e).identifier? b = t.identifier? b := by
  simp [identifier?, entryAt?_insert_of_lt s e h]

theorem mem_visible_insert {t : Tree} {s r b : Nat} {e : Entry} (hs : s < t.scopes.size) :
    b ∈ (t.insert s e).visible r ↔ b ∈ t.visible r ∨ r = s ∧ b = t.bindings.size := by
  by_cases hr : r = s
  · subst hr
    simp [visible_insert_self e ((t.containsScope_iff r).mpr hs)]
  · simp [visible_insert_of_ne t e hr, hr]

theorem mem_visible_retract {t : Tree} {s r b c : Nat} :
    c ∈ (t.retract s b).visible r ↔ c ∈ t.visible r ∧ (r = s → c ≠ b) := by
  by_cases hr : r = s
  · subst hr
    simp [visible_retract_self]
  · simp [visible_retract_of_ne t b hr, hr]

theorem getElem?_setTarget (t : Tree) (b c : Nat) (name : String) :
    (t.setTarget b name).bindings[c]? =
      if b = c then t.bindings[c]?.map fun x => { x with entry := x.entry.assign name }
      else t.bindings[c]? := by
  simp only [setTarget, Array.getElem?_modify]

theorem entryAt?_setTarget_self (t : Tree) (b : Nat) (name : String) :
    (t.setTarget b name).entryAt? b = (t.entryAt? b).map (Entry.assign name) := by
  simp [entryAt?, getElem?_setTarget, Option.map_map, Function.comp_def]

theorem entryAt?_setTarget_of_ne {t : Tree} {b c : Nat} (name : String) (h : b ≠ c) :
    (t.setTarget b name).entryAt? c = t.entryAt? c := by
  simp [entryAt?, getElem?_setTarget, h]

@[simp] theorem identifier?_setTarget (t : Tree) (b c : Nat) (name : String) :
    (t.setTarget b name).identifier? c = t.identifier? c := by
  by_cases h : b = c
  · subst h
    rw [identifier?, entryAt?_setTarget_self, identifier?]
    cases t.entryAt? b <;> simp
  · rw [identifier?, entryAt?_setTarget_of_ne name h, identifier?]

@[simp] theorem visible_setTarget (t : Tree) (b s : Nat) (name : String) :
    (t.setTarget b name).visible s = t.visible s := rfl

@[simp] theorem size_bindings_setTarget (t : Tree) (b : Nat) (name : String) :
    (t.setTarget b name).bindings.size = t.bindings.size := by
  simp [setTarget]

theorem visible_push (t : Tree) (kind : ScopeKind) (parent : Option Nat) (s : Nat) :
    visible { t with scopes := t.scopes.push ⟨kind, parent, []⟩ } s = t.visible s := by
  simp only [visible, Array.getElem?_push]
  by_cases hs : s = t.scopes.size
  · simp [hs]
  · simp [hs]

/-! ## Names of a scope -/

theorem named?_eq_none_iff {t : Tree} {s : Nat} {name : String} :
    t.named? s name = none ↔ ∀ b ∈ t.visible s, t.identifier? b ≠ some name := by
  simp [named?]

theorem mem_of_named? {t : Tree} {s b : Nat} {name : String} (h : t.named? s name = some b) :
    b ∈ t.visible s ∧ t.identifier? b = some name :=
  ⟨List.mem_of_find?_eq_some h, by simpa using List.find?_some h⟩

theorem lt_of_mem_visible {t : Tree} {s b : Nat} (h : b ∈ t.visible s) : s < t.scopes.size := by
  rw [visible] at h
  split at h
  · rename_i hScope
    exact (Array.getElem?_eq_some_iff.mp hScope).1
  · cases h

theorem mem_visible_of_reference? {t : Tree} {ref : Reference} {b : Nat} (h : t.reference? ref = some b) :
    b ∈ t.visible ref.scope := by
  cases ref with
  | named s name => exact (mem_of_named? h).1
  | slot s i => exact List.mem_of_getElem? h

theorem resolveReference_eq_ok_iff {t : Tree} {ref : Reference} {b : Nat} :
    t.resolveReference ref = .ok b ↔ t.reference? ref = some b := by
  rw [resolveReference]
  cases hFound : t.reference? ref with
  | none => split <;> simp [fail]
  | some c =>
    rw [if_pos ((t.containsScope_iff _).mpr (lt_of_mem_visible (mem_visible_of_reference? hFound)))]
    simp [pure, Except.pure]

theorem obstacle?_eq_none_iff {t : Tree} {s : Nat} {e : Entry} :
    t.obstacle? s e = none ↔ s < t.scopes.size ∧
      (∀ name, e.identifier = some name → t.named? s name = none) ∧
      (∀ name link, e = .linked name link → link < t.bindings.size) := by
  cases e with
  | linked name link =>
    simp only [obstacle?, Entry.identifier, ← containsScope_iff, ← containsBinding_iff]
    cases hLink : t.containsBinding link <;> cases t.containsScope s <;>
      cases hNamed : t.named? s name <;> simp [hLink, hNamed]
  | var v =>
    simp only [obstacle?, Entry.identifier, ← containsScope_iff]
    cases t.containsScope s <;> cases v.identifier with
    | none => simp
    | some name => cases hNamed : t.named? s name <;> simp [hNamed]

/-! ## The invariant -/

structure WellFormed (t : Tree) : Prop extends t.Grounded where
  /-- What is visible in a scope is owned by it. -/
  owned : ∀ s, ∀ b ∈ t.visible s, ∃ e : Entry, t.bindings[b]? = some ⟨s, e⟩
  once : ∀ s, (t.visible s).Nodup
  distinct : ∀ s, ∀ b ∈ t.visible s, ∀ c ∈ t.visible s, ∀ name,
    t.identifier? b = some name → t.identifier? c = some name → b = c
  placed : ∀ (b : Nat) (x : Binding), t.bindings[b]? = some x → x.owner < t.scopes.size
  earlier : ∀ b name link, t.entryAt? b = some (.linked name link) → link < b

/-- A tree gains a scope or a binding. -/
inductive Growth : Tree → Tree → Prop where
  | push {t : Tree} {kind : ScopeKind} {parent : Nat} (hKind : kind ≠ .global)
    (hParent : parent < t.scopes.size) :
    Growth t { t with scopes := t.scopes.push ⟨kind, some parent, []⟩ }
  | insert {t : Tree} {s : Nat} {e : Entry} (hFree : t.obstacle? s e = none) : Growth t (t.insert s e)

/-- A pending variable of a tree gets its target. -/
inductive Naming : Tree → Tree → Prop where
  | assign {t : Tree} {b owner : Nat} {v : Variable} {desired : Option String} (candidate : String)
    (hBinding : t.bindings[b]? = some ⟨owner, .var v⟩) (hPending : v.target = .pending desired) :
    Naming t (t.setTarget b (t.chooseTarget ⟨owner, .var v⟩ v.storage candidate))

/-- A single change of a tree. -/
inductive Change : Tree → Tree → Prop where
  | growth {t u : Tree} (h : Growth t u) : Change t u
  | retract {t : Tree} {s b : Nat} {name : String} (hNamed : t.named? s name = some b) :
    Change t (t.retract s b)
  | naming {t u : Tree} (h : Naming t u) : Change t u

namespace WellFormed

variable {t : Tree}

theorem lt_of_mem (h : t.WellFormed) {s b : Nat} (hb : b ∈ t.visible s) : b < t.bindings.size := by
  obtain ⟨e, he⟩ := h.owned s b hb
  exact (Array.getElem?_eq_some_iff.mp he).1

theorem named?_eq_some_iff (h : t.WellFormed) {s b : Nat} {name : String} :
    t.named? s name = some b ↔ b ∈ t.visible s ∧ t.identifier? b = some name := by
  constructor
  · exact mem_of_named?
  · rintro ⟨hMem, hName⟩
    cases hNamed : t.named? s name with
    | none => exact absurd hName (named?_eq_none_iff.mp hNamed b hMem)
    | some c =>
      obtain ⟨hMem', hName'⟩ := mem_of_named? hNamed
      rw [h.distinct s b hMem c hMem' name hName hName']

theorem empty : Tree.empty.WellFormed where
  root := ⟨[], rfl⟩
  below s scope hScope := by simp [Tree.empty] at hScope
  owned s b hb := by
    cases s with
    | zero => cases hb
    | succ s => simp [visible, Tree.empty] at hb
  once s := by
    cases s with
    | zero => exact List.nodup_nil
    | succ s => simp [visible, Tree.empty]
  distinct s b hb := by
    cases s with
    | zero => cases hb
    | succ s => simp [visible, Tree.empty] at hb
  placed b x hx := by simp [Tree.empty] at hx
  earlier b name link hLink := by simp [entryAt?, Tree.empty] at hLink

theorem push (h : t.WellFormed) {kind : ScopeKind} {parent : Nat} (hKind : kind ≠ .global)
    (hParent : parent < t.scopes.size) :
    WellFormed { t with scopes := t.scopes.push ⟨kind, some parent, []⟩ } where
  toGrounded := h.toGrounded.push hKind hParent
  owned s b hb := h.owned s b (t.visible_push kind parent s ▸ hb)
  once s := (t.visible_push kind parent s).symm ▸ h.once s
  distinct s b hb c hc := h.distinct s b (t.visible_push kind parent s ▸ hb) c
    (t.visible_push kind parent s ▸ hc)
  placed b x hx := by
    have := h.placed b x hx
    simp only [Array.size_push]
    omega
  earlier := h.earlier

theorem insert (h : t.WellFormed) {s : Nat} {e : Entry} (hFree : t.obstacle? s e = none) :
    (t.insert s e).WellFormed := by
  -- The new binding is the last one, so nothing visible before can be taken for it.
  obtain ⟨hs, hName, hLink⟩ := obstacle?_eq_none_iff.mp hFree
  have hNew : ∀ b ∈ t.visible s, ∀ name, t.identifier? b = some name → e.identifier ≠ some name := by
    intro b hb name hb' he
    exact named?_eq_none_iff.mp (hName name he) b hb hb'
  have hId : ∀ {r b : Nat}, b ∈ t.visible r → (t.insert s e).identifier? b = t.identifier? b :=
    fun hb => identifier?_insert_of_lt s e (h.lt_of_mem hb)
  refine ⟨h.toGrounded.modify s (· ++ [t.bindings.size]) _, ?owned, ?once, ?distinct, ?placed, ?earlier⟩
  case owned =>
    intro r b hb
    rw [getElem?_insert]
    rcases (mem_visible_insert hs).mp hb with hb | ⟨rfl, rfl⟩
    · rw [if_neg (Nat.ne_of_lt (h.lt_of_mem hb))]
      exact h.owned r b hb
    · exact ⟨e, if_pos rfl⟩
  case once =>
    intro r
    by_cases hr : r = s
    · subst hr
      rw [visible_insert_self e ((t.containsScope_iff r).mpr hs)]
      refine List.nodup_append.mpr ⟨h.once r, by simp, ?_⟩
      intro b hb c hc
      have hLt := h.lt_of_mem hb
      simp only [List.mem_singleton] at hc
      omega
    · rw [visible_insert_of_ne t e hr]
      exact h.once r
  case distinct =>
    intro r b hb c hc name hbName hcName
    rcases (mem_visible_insert hs).mp hb with hbOld | ⟨rfl, rfl⟩ <;>
      rcases (mem_visible_insert hs).mp hc with hcOld | ⟨hEq, rfl⟩
    · rw [hId hbOld] at hbName
      rw [hId hcOld] at hcName
      exact h.distinct r b hbOld c hcOld name hbName hcName
    · subst hEq
      rw [hId hbOld] at hbName
      rw [identifier?_insert_self] at hcName
      exact absurd hcName (hNew b hbOld name hbName)
    · rw [hId hcOld] at hcName
      rw [identifier?_insert_self] at hbName
      exact absurd hbName (hNew c hcOld name hcName)
    · rfl
  case placed =>
    intro b x hx
    rw [getElem?_insert] at hx
    rw [size_scopes_insert]
    split at hx
    · cases hx
      exact hs
    · exact h.placed b x hx
  case earlier =>
    intro b name link hb
    by_cases hLast : b = t.bindings.size
    · subst hLast
      rw [entryAt?_insert_self] at hb
      exact hLink name link (Option.some.inj hb)
    · simp only [entryAt?, getElem?_insert, if_neg hLast] at hb
      exact h.earlier b name link hb

theorem retract (h : t.WellFormed) (s b : Nat) : (t.retract s b).WellFormed where
  toGrounded := h.toGrounded.modify s (·.filter (· != b)) _
  owned r c hc := h.owned r c (mem_visible_retract.mp hc).1
  once r := by
    by_cases hr : r = s
    · subst hr
      rw [visible_retract_self]
      exact (h.once r).filter _
    · rw [visible_retract_of_ne t b hr]
      exact h.once r
  distinct r c hc d hd := h.distinct r c (mem_visible_retract.mp hc).1 d (mem_visible_retract.mp hd).1
  placed c x hx := by simpa [Tree.retract] using h.placed c x hx
  earlier := h.earlier

theorem setTarget (h : t.WellFormed) (b : Nat) (name : String) : (t.setTarget b name).WellFormed where
  toGrounded := ⟨h.root, h.below⟩
  owned s c hc := by
    obtain ⟨e, he⟩ := h.owned s c hc
    rw [getElem?_setTarget, he]
    split
    · exact ⟨_, rfl⟩
    · exact ⟨e, rfl⟩
  once := h.once
  distinct s c hc d hd n hcName hdName :=
    h.distinct s c hc d hd n (by simpa using hcName) (by simpa using hdName)
  placed c x hx := by
    rw [getElem?_setTarget] at hx
    split at hx
    · obtain ⟨y, hy, rfl⟩ := Option.map_eq_some_iff.mp hx
      exact h.placed c y hy
    · exact h.placed c x hx
  earlier c n link hc := by
    by_cases hEq : b = c
    · subst hEq
      rw [entryAt?_setTarget_self] at hc
      obtain ⟨e, he, hAssign⟩ := Option.map_eq_some_iff.mp hc
      cases e with
      | var v => cases hAssign
      | linked m l =>
        cases hAssign
        exact h.earlier b n link he
    · rw [entryAt?_setTarget_of_ne name hEq] at hc
      exact h.earlier c n link hc

theorem growth (h : t.WellFormed) {u : Tree} (hGrowth : Growth t u) : u.WellFormed := by
  cases hGrowth with
  | push hKind hParent => exact h.push hKind hParent
  | insert hFree => exact h.insert hFree

theorem naming (h : t.WellFormed) {u : Tree} (hNaming : Naming t u) : u.WellFormed := by
  cases hNaming with
  | assign candidate hBinding hPending => exact h.setTarget _ _

theorem change (h : t.WellFormed) {u : Tree} (hChange : Change t u) : u.WellFormed := by
  cases hChange with
  | growth hGrowth => exact h.growth hGrowth
  | retract hNamed => exact h.retract _ _
  | naming hNaming => exact h.naming hNaming

end WellFormed
end Tree
end TreeLowering
