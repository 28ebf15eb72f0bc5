import Mathlib.Data.List.Forall2
import TreeLowering.Proofs.Scope.Operation

/-! # Attached scopes are the declared ones

After the scopes of a document have been attached, scope `i + 1` has the kind and the parent of
declaration `i`, and its visible bindings are the declared ones in order. -/
namespace TreeLowering
set_option autoImplicit false

open Relation Edit

/-- The entry is what a declaration says; an alias is only said to keep its name. -/
def BindingDecl.Declares : BindingDecl → Entry → Prop
  | .linked identifier _, .linked name _ => name = identifier
  | .var identifier storage access fixed desired container, .var v =>
    v.identifier = identifier ∧ StorageClass.parse? storage = some v.storage ∧
      AccessClass.parse? access = some v.access ∧ v.container = container ∧
      v.target = BindingDecl.target fixed desired
  | _, _ => False

/-- A local that has neither a target nor a preference. -/
def BindingDecl.plainLocal (identifier : Option String) : BindingDecl :=
  .var identifier "LOCAL" "BARE" none none none

theorem BindingDecl.declares_of_entry {t : Tree} {s : Nat} {d : BindingDecl} {e : Entry}
    (h : d.entry t s = .ok e) : d.Declares e := by
  cases d with
  | linked identifier link =>
    rw [BindingDecl.entry, BindingDecl.entryBy] at h
    cases hLink : t.resolveReference link with
    | error failure => simp [hLink, bind, Except.bind] at h
    | ok b =>
      simp only [hLink, bind, Except.bind] at h
      cases h
      rfl
  | var identifier storage access fixed desired container =>
    rw [BindingDecl.entry, BindingDecl.entryBy, Variable.parse] at h
    cases hStorage : StorageClass.parse? storage with
    | none => simp [hStorage, fail, bind, Except.bind] at h
    | some st =>
      cases hAccess : AccessClass.parse? access with
      | none => simp [hStorage, hAccess, fail, bind, Except.bind] at h
      | some ac =>
        simp only [hStorage, hAccess, bind, Except.bind, pure, Except.pure] at h
        split at h
        · cases h
        · cases h
          exact ⟨rfl, hStorage, hAccess, rfl, rfl⟩

namespace Tree

theorem Growth.getElem? {t u : Tree} (h : Growth t u) {b : Nat} (hb : b < t.bindings.size) :
    u.bindings[b]? = t.bindings[b]? := by
  cases h with
  | push hKind hParent => rfl
  | insert hFree => rw [getElem?_insert, if_neg (Nat.ne_of_lt hb)]

theorem Growth.size_le {t u : Tree} (h : Growth t u) : t.bindings.size ≤ u.bindings.size := by
  cases h with
  | push hKind hParent => exact Nat.le_refl _
  | insert hFree => simp

theorem grows_getElem? {t u : Tree} (h : ReflTransGen Growth t u) :
    t.bindings.size ≤ u.bindings.size ∧
      ∀ b < t.bindings.size, u.bindings[b]? = t.bindings[b]? := by
  induction h with
  | refl => exact ⟨Nat.le_refl _, fun _ _ => rfl⟩
  | tail _ hStep ih =>
    refine ⟨Nat.le_trans ih.1 hStep.size_le, ?_⟩
    intro b hb
    rw [hStep.getElem? (Nat.lt_of_lt_of_le hb ih.1), ih.2 b hb]

theorem getElem?_scopes_insert (t : Tree) (s r : Nat) (e : Entry) :
    (t.insert s e).scopes[r]? =
      if s = r then t.scopes[r]?.map fun scope => { scope with order := scope.order ++ [t.bindings.size] }
      else t.scopes[r]? := by
  simp only [insert, Array.getElem?_modify]

/-- Nothing has been removed: every binding is visible in its scope. -/
def Complete (t : Tree) : Prop :=
  ∀ (b : Nat) (x : Binding), t.bindings[b]? = some x → b ∈ t.visible x.owner

theorem Complete.growth {t u : Tree} (h : t.Complete) (hGrowth : Growth t u) : u.Complete := by
  intro b x hx
  cases hGrowth with
  | push hKind hParent =>
    rw [visible_push]
    exact h b x hx
  | insert hFree =>
    obtain ⟨hs, _⟩ := obstacle?_eq_none_iff.mp hFree
    rw [mem_visible_insert hs]
    rw [getElem?_insert] at hx
    split at hx
    · cases hx
      exact .inr ⟨rfl, by assumption⟩
    · exact .inl (h b x hx)

theorem Complete.grows {t u : Tree} (h : t.Complete) (hGrows : ReflTransGen Growth t u) : u.Complete := by
  induction hGrows with
  | refl => exact h
  | tail _ hStep ih => exact ih.growth hStep

theorem Complete.globalTree (container : String) (names : List String) :
    (Tree.globalTree container names).Complete := by
  intro b x hx
  obtain ⟨hLt, hEq⟩ := Array.getElem?_eq_some_iff.mp hx
  simp only [Tree.globalTree, List.getElem_toArray, List.getElem_map] at hEq
  rw [← hEq]
  simpa [visible, Tree.globalTree] using hLt

/-- The entry was made for the declaration in a tree that has grown since. -/
def MadeFrom (u : Tree) (s : Nat) (declared : BindingDecl) (e : Entry) : Prop :=
  ∃ t : Tree, t.WellFormed ∧ ReflTransGen Growth t u ∧ declared.entry t s = .ok e

theorem MadeFrom.declares {u : Tree} {s : Nat} {declared : BindingDecl} {e : Entry}
    (h : u.MadeFrom s declared e) : declared.Declares e := by
  obtain ⟨_, _, _, hEntry⟩ := h
  exact BindingDecl.declares_of_entry hEntry

/-- A scope that holds what a declaration says. -/
def Holds (t : Tree) (s : Nat) (d : ScopeDecl) : Prop :=
  ∃ order, t.scopes[s]? = some ⟨d.kind.scopeKind, some d.parent, order⟩ ∧
    List.Forall₂ (fun declared b => ∃ e, t.bindings[b]? = some ⟨s, e⟩ ∧ t.MadeFrom s declared e)
      d.bindings order

theorem Holds.declared {t : Tree} {s i b : Nat} {d : ScopeDecl} (h : t.Holds s d)
    (hb : (t.visible s)[i]? = some b) :
    ∃ declared e, d.bindings[i]? = some declared ∧ t.bindings[b]? = some ⟨s, e⟩ ∧ declared.Declares e := by
  obtain ⟨order, hOrder, hBindings⟩ := h
  simp only [visible, hOrder] at hb
  generalize d.bindings = declarations at hBindings ⊢
  clear hOrder
  induction hBindings generalizing i with
  | nil => simp at hb
  | @cons declared c declarations order hFirst _ ih =>
    cases i with
    | zero =>
      obtain rfl : c = b := by simpa using hb
      obtain ⟨e, he, hMade⟩ := hFirst
      exact ⟨declared, e, rfl, he, hMade.declares⟩
    | succ i => exact ih (by simpa using hb)

theorem Holds.grows {t u : Tree} {s : Nat} {d : ScopeDecl} (h : t.Holds s d)
    (hGrows : ReflTransGen Growth t u) (hScope : u.scopes[s]? = t.scopes[s]?) : u.Holds s d := by
  obtain ⟨order, hOrder, hBindings⟩ := h
  refine ⟨order, hScope.trans hOrder, hBindings.imp ?_⟩
  rintro declared b ⟨e, hb, start, hWell, hStart, hEntry⟩
  have hLt := (Array.getElem?_eq_some_iff.mp hb).1
  exact ⟨e, ((grows_getElem? hGrows).2 b hLt).trans hb, start, hWell, hStart.trans hGrows, hEntry⟩

end Tree

open TreeLowering.Tree

theorem BindingDecl.attach_eq_ok_iff {t t' : Tree} {s : Nat} {d : BindingDecl} :
    d.attach s t = .ok () t' ↔
      ∃ e, d.entry t s = .ok e ∧ t.obstacle? s e = none ∧ t' = t.insert s e := by
  constructor
  · intro h
    obtain ⟨e, w, hEntry, hRest⟩ := exists_of_run_eq_ok h
    obtain ⟨hEntry, rfl⟩ := inspect_eq_ok hEntry
    obtain ⟨b, v, hAdd, hPure⟩ := exists_of_run_eq_ok hRest
    cases hPure
    rw [add_apply] at hAdd
    split at hAdd
    · cases hAdd
    · rename_i hFree
      cases hAdd
      exact ⟨e, hEntry, hFree, rfl⟩
  · rintro ⟨e, hEntry, hFree, rfl⟩
    simp only [BindingDecl.attach, bind, EStateM.bind, inspect, hEntry, add_apply, hFree]
    rfl

theorem forM_attach {s : Nat} {ds : List BindingDecl} {t u : Tree} {scope : Scope} (hWell : t.WellFormed)
    (h : ds.forM (BindingDecl.attach s) t = .ok () u) (hScope : t.scopes[s]? = some scope) :
    ∃ news, u.scopes[s]? = some { scope with order := scope.order ++ news } ∧
      u.scopes.size = t.scopes.size ∧ (∀ r ≠ s, u.scopes[r]? = t.scopes[r]?) ∧
      List.Forall₂ (fun declared b => ∃ e, u.bindings[b]? = some ⟨s, e⟩ ∧ u.MadeFrom s declared e)
        ds news := by
  induction ds generalizing t scope with
  | nil =>
    cases h
    exact ⟨[], by simp [hScope], rfl, fun _ _ => rfl, .nil⟩
  | cons d ds ih =>
    obtain ⟨_, w, hFirst, hRest⟩ := exists_of_run_eq_ok h
    obtain ⟨e, hEntry, hFree, rfl⟩ := BindingDecl.attach_eq_ok_iff.mp hFirst
    have hScope' : (t.insert s e).scopes[s]? =
        some { scope with order := scope.order ++ [t.bindings.size] } := by
      simp [getElem?_scopes_insert, hScope]
    obtain ⟨news, hOrder, hSize, hOthers, hNews⟩ := ih (hWell.insert hFree) hRest hScope'
    have hSize' : (t.insert s e).scopes.size = t.scopes.size := (sameFrame_insert t s e).size
    have hGrows : ReflTransGen Growth (t.insert s e) u :=
      after_of_ok hRest ▸ within_forM (ScopeDecl.attachBinding_within s) ds (t.insert s e)
    refine ⟨t.bindings.size :: news, by simpa using hOrder, hSize.trans hSize', ?_, .cons ⟨e, ?_, ?_⟩ hNews⟩
    · intro r hr
      rw [hOthers r hr, getElem?_scopes_insert, if_neg hr.symm]
    · rw [(grows_getElem? hGrows).2 _ (by simp), getElem?_insert, if_pos rfl]
    · exact ⟨t, hWell, .head (.insert hFree) hGrows, hEntry⟩

namespace ScopeDecl

theorem attach_apply (id : Nat) (d : ScopeDecl) {t : Tree} (hOrder : ¬id ≤ d.parent)
    (hParent : d.parent < t.scopes.size) :
    d.attach id t = d.bindings.forM (BindingDecl.attach t.scopes.size)
      { t with scopes := t.scopes.push ⟨d.kind.scopeKind, some d.parent, []⟩ } := by
  have hKind : d.kind.scopeKind ≠ .global := by cases d.kind <;> decide
  simp only [ScopeDecl.attach, if_neg hOrder, bind, EStateM.bind, pushScope_apply, if_neg hKind, if_pos hParent]

theorem attach_eq_ok {id : Nat} {d : ScopeDecl} {t u : Tree} (hWell : t.WellFormed) (h : d.attach id t = .ok () u)
    (hSize : t.scopes.size = id) :
    u.scopes.size = id + 1 ∧ u.Holds id d ∧ ∀ r < id, u.scopes[r]? = t.scopes[r]? := by
  rw [ScopeDecl.attach] at h
  split at h
  · cases h
  · obtain ⟨s, w, hPush, hBindings⟩ := exists_of_run_eq_ok h
    rw [pushScope_apply] at hPush
    split at hPush
    · cases hPush
    · rename_i hKind
      split at hPush
      · rename_i hParent
        cases hPush
        subst hSize
        obtain ⟨news, hOrder, hSize, hOthers, hNews⟩ :=
          forM_attach (hWell.push hKind hParent) hBindings Array.getElem?_push_size
        refine ⟨by simpa using hSize, ⟨news, by simpa using hOrder, hNews⟩, ?_⟩
        intro r hr
        rw [hOthers r (Nat.ne_of_lt hr), Array.getElem?_push, if_neg (Nat.ne_of_lt hr)]
      · cases hPush

/-- Declarations become scopes one after the other, and a later one leaves an earlier one as it is. -/
theorem attachFrom_eq_ok {id : Nat} {ds : List ScopeDecl} {t u : Tree} (hWell : t.WellFormed)
    (h : attachFrom id ds t = .ok () u) (hSize : t.scopes.size = id) :
    u.scopes.size = id + ds.length ∧ (∀ i d, ds[i]? = some d → u.Holds (id + i) d) ∧
      ∀ r < id, u.scopes[r]? = t.scopes[r]? := by
  induction ds generalizing id t with
  | nil =>
    cases h
    exact ⟨hSize, by simp, fun _ _ => rfl⟩
  | cons d ds ih =>
    obtain ⟨_, w, hFirst, hRest⟩ := exists_of_run_eq_ok h
    obtain ⟨hSizeFirst, hHolds, hKeptFirst⟩ := attach_eq_ok hWell hFirst hSize
    have hWell' := hWell.grows (after_of_ok hFirst ▸ attach_within id d t)
    obtain ⟨hSizeRest, hHoldsRest, hKept⟩ := ih hWell' hRest hSizeFirst
    have hGrows := after_of_ok hRest ▸ attachFrom_within (id + 1) ds w
    refine ⟨?_, ?_, ?_⟩
    · rw [hSizeRest, List.length_cons, Nat.add_right_comm, Nat.add_assoc]
    · rintro (_ | i) d' hd
      · cases hd
        exact hHolds.grows hGrows (hKept id (Nat.lt_succ_self id))
      · have hNext := hHoldsRest i d' (by simpa using hd)
        rwa [Nat.add_right_comm, Nat.add_assoc] at hNext
    · intro r hr
      rw [hKept r (Nat.lt_succ_of_lt hr), hKeptFirst r hr]

theorem attachAll_eq_ok {ds : List ScopeDecl} {t u : Tree} (hWell : t.WellFormed) (h : attachAll ds t = .ok () u) :
    u.scopes.size = ds.length + 1 ∧ (∀ i d, ds[i]? = some d → u.Holds (i + 1) d) ∧
      u.scopes[0]? = t.scopes[0]? := by
  rw [attachAll, get_bind_apply] at h
  split at h
  · rename_i hSize
    obtain ⟨hAll, hHolds, hKept⟩ := attachFrom_eq_ok hWell h hSize
    refine ⟨by rw [hAll, Nat.add_comm], ?_, hKept 0 Nat.zero_lt_one⟩
    intro i d hd
    rw [Nat.add_comm]
    exact hHolds i d hd
  · cases h

section

variable {ds : List ScopeDecl} {registry : Registry} {extra : List String} {container : String}
  {globals attached : Tree}

theorem attached_wellFormed (hGlobals : ofGlobals registry extra container = .ok globals)
    (hAttach : attachAll ds globals = .ok () attached) : attached.WellFormed ∧ attached.Complete := by
  have hGrows := after_of_ok hAttach ▸ attachAll_within ds globals
  have hComplete : globals.Complete := ofGlobals_eq_ok hGlobals ▸ Complete.globalTree _ _
  exact ⟨(WellFormed.ofGlobals hGlobals).grows hGrows, hComplete.grows hGrows⟩

/-- A binding is a global name, or what the declaration at its place says. -/
theorem binding_declared (hGlobals : ofGlobals registry extra container = .ok globals)
    (hAttach : attachAll ds globals = .ok () attached) {b : Nat} {x : Binding}
    (hx : attached.bindings[b]? = some x) :
    (∃ name ∈ registry.names ++ extra, x.entry = .var (Variable.ofMember name container)) ∨
      ∃ (s i : Nat) (scope : ScopeDecl) (declared : BindingDecl), ds[s]? = some scope ∧
        (attached.visible (s + 1))[i]? = some b ∧ scope.bindings[i]? = some declared ∧
        declared.Declares x.entry := by
  obtain ⟨hSize, hHolds, hRoot⟩ := attachAll_eq_ok (WellFormed.ofGlobals hGlobals) hAttach
  obtain ⟨hWell, hComplete⟩ := attached_wellFormed hGlobals hAttach
  obtain ⟨owner, e⟩ := x
  have hMem : b ∈ attached.visible owner := hComplete b _ hx
  have hOwner : owner < attached.scopes.size := hWell.placed b _ hx
  cases owner with
  | zero =>
    have hGrows := after_of_ok hAttach ▸ attachAll_within ds globals
    have hEq := ofGlobals_eq_ok hGlobals
    rw [visible, hRoot, ← visible, hEq] at hMem
    have hLt : b < (registry.names ++ extra).length := by simpa [visible, globalTree] using hMem
    rw [(grows_getElem? hGrows).2 b (by simpa [hEq, globalTree] using hLt), hEq, globalTree,
      List.getElem?_toArray, List.getElem?_map] at hx
    obtain ⟨name, hName, hMember⟩ := Option.map_eq_some_iff.mp hx
    cases hMember
    exact .inl ⟨name, List.mem_of_getElem? hName, rfl⟩
  | succ s =>
    obtain ⟨scope, hScope⟩ : ∃ scope, ds[s]? = some scope := ⟨_, List.getElem?_eq_getElem (by omega)⟩
    obtain ⟨i, hi⟩ := List.mem_iff_getElem?.mp hMem
    obtain ⟨declared, e', hDeclared, hx', hDeclares⟩ := (hHolds s scope hScope).declared hi
    obtain rfl : e' = e := by simpa [hx] using hx'.symm
    exact .inr ⟨s, i, scope, declared, hScope, hi, hDeclared, hDeclares⟩

theorem slot_declared (hGlobals : ofGlobals registry extra container = .ok globals)
    (hAttach : attachAll ds globals = .ok () attached) {b : Nat} {x : Binding}
    (hx : attached.bindings[b]? = some x) (hSlot : x.entry.storage.isFunctionSlot = true) :
    ∃ (s i : Nat) (scope : ScopeDecl) (identifier : Option String) (storage access : String)
        (fixed desired container : Option String) (v : Variable),
      ds[s]? = some scope ∧ (attached.visible (s + 1))[i]? = some b ∧
      scope.bindings[i]? = some (.var identifier storage access fixed desired container) ∧
      x.entry = .var v ∧ (BindingDecl.var identifier storage access fixed desired container).Declares (.var v) := by
  -- Global names are members, so a slot comes from the declaration of a variable.
  obtain ⟨name, _, hGlobal⟩ | ⟨s, i, scope, declared, hScope, hi, hDeclared, hDeclares⟩ :=
    binding_declared hGlobals hAttach hx
  · rw [hGlobal] at hSlot
    cases hSlot
  · obtain ⟨owner, e⟩ := x
    cases e with
    | linked n l => cases hSlot
    | var v =>
      cases declared with
      | linked identifier link => exact hDeclares.elim
      | var identifier storage access fixed desired container =>
        exact ⟨s, i, scope, identifier, storage, access, fixed, desired, container, v, hScope, hi,
          hDeclared, rfl, hDeclares⟩

end

end ScopeDecl
end TreeLowering
