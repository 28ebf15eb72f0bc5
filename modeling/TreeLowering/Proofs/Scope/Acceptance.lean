import TreeLowering.Proofs.Scope.Attached
import TreeLowering.Proofs.Scope.Simulation

/-! # Which declared scopes are accepted

Links are looked up while the declarations are still being read. What they can see by then is an outline: the
identifiers of the bindings made so far, scope by scope. -/
namespace TreeLowering
set_option autoImplicit false

open Relation Edit

/-! ## Spellings of classes -/

namespace StorageClass

/-- The words that a declaration may use for the class. -/
def spellings : StorageClass → List String
  | .local => ["LOCAL"]
  | argument => ["ARGUMENT"]
  | namespaced => ["NAMESPACED", "PROP_ASSIGNMENT"]
  | unmaterialized => ["UNMATERIALIZED", "NONE"]

theorem parse?_eq_some_iff {word : String} {c : StorageClass} : parse? word = some c ↔ word ∈ c.spellings := by
  constructor
  · intro h
    unfold parse? at h
    split at h <;> cases h <;> simp [spellings]
  · intro h
    cases c <;> simp only [spellings, List.mem_cons, List.not_mem_nil, or_false] at h
    case «local» | argument => exact h ▸ rfl
    case namespaced | unmaterialized => obtain rfl | rfl := h <;> rfl

end StorageClass

namespace AccessClass

def spellings : AccessClass → List String
  | direct => ["DIRECT", "BARE"]
  | member => ["MEMBER", "PROP_ACCESS"]

theorem parse?_eq_some_iff {word : String} {c : AccessClass} : parse? word = some c ↔ word ∈ c.spellings := by
  constructor
  · intro h
    unfold parse? at h
    split at h <;> cases h <;> simp [spellings]
  · intro h
    cases c <;> simp only [spellings, List.mem_cons, List.not_mem_nil, or_false] at h
    all_goals obtain rfl | rfl := h <;> rfl

end AccessClass

/-! ## Declarations that fit -/

/-- The identifiers of the bindings of each scope, in order. -/
abbrev Outline := List (List (Option String))

/-- The reference leads to a binding. -/
def Reference.FoundIn (outline : Outline) : Reference → Prop
  | named s name => ∃ identifiers, outline[s]? = some identifiers ∧ some name ∈ identifiers
  | slot s i => ∃ identifiers, outline[s]? = some identifiers ∧ i < identifiers.length

namespace BindingDecl

def identifier? : BindingDecl → Option String
  | linked name _ => some name
  | var name .. => name

/-- Both classes of a variable are spelled in a known way. -/
def Recognized : BindingDecl → Prop
  | linked .. => True
  | var _ storage access .. =>
    (∃ c : StorageClass, storage ∈ c.spellings) ∧ ∃ c : AccessClass, access ∈ c.spellings

/-- A container is named for members and for nothing else. -/
def Contained : BindingDecl → Prop
  | linked .. => True
  | var _ _ access _ _ container => container.isSome = true ↔ access ∈ AccessClass.member.spellings

/-- A scope with the bindings `own` that stands after the scopes `before` can take the declaration. -/
structure Fits (before : Outline) (own : List (Option String)) (d : BindingDecl) : Prop where
  recognized : d.Recognized
  contained : d.Contained
  linked : ∀ name link, d = .linked name link → link.FoundIn (before ++ [own])
  fresh : ∀ name, d.identifier? = some name → some name ∉ own

theorem Declares.identifier_eq {d : BindingDecl} {e : Entry} (h : d.Declares e) : e.identifier = d.identifier? := by
  cases d with
  | linked name link =>
    cases e with
    | var v => exact h.elim
    | linked n b => exact congrArg some h
  | var name storage access fixed desired container =>
    cases e with
    | var v => exact h.1
    | linked n b => exact h.elim

end BindingDecl

namespace Tree

variable {t u : Tree}

/-! ## The outline of a tree -/

def outline (t : Tree) : Outline := t.scopes.toList.map fun scope => scope.order.map t.identifier?

theorem length_outline (t : Tree) : t.outline.length = t.scopes.size := by
  rw [outline, List.length_map, Array.length_toList]

theorem getElem?_outline (t : Tree) (s : Nat) :
    t.outline[s]? = t.scopes[s]?.map fun scope => scope.order.map t.identifier? := by
  rw [outline, List.getElem?_map, Array.getElem?_toList]

theorem getElem?_outline_eq_some_iff {s : Nat} {identifiers : List (Option String)} :
    t.outline[s]? = some identifiers ↔ s < t.scopes.size ∧ identifiers = (t.visible s).map t.identifier? := by
  rw [getElem?_outline, visible]
  cases hScope : t.scopes[s]? with
  | none => simp [Nat.not_lt.mpr (Array.getElem?_eq_none_iff.mp hScope)]
  | some scope => simp [(Array.getElem?_eq_some_iff.mp hScope).1, eq_comm]

theorem outline_globalTree (container : String) (names : List String) :
    (globalTree container names).outline = [names.map some] := by
  have hNames : (List.range names.length).map (globalTree container names).identifier? = names.map some := by
    apply List.ext_getElem
    · simp
    · simp [identifier?_globalTree]
  rw [outline, ← hNames]
  rfl

theorem outline_push (t : Tree) (kind : ScopeKind) (parent : Option Nat) :
    outline { t with scopes := t.scopes.push ⟨kind, parent, []⟩ } = t.outline ++ [[]] := by
  rw [outline, Array.toList_push, List.map_append]
  rfl

theorem WellFormed.outline_insert (h : t.WellFormed) (s : Nat) (e : Entry) :
    (t.insert s e).outline = t.outline.modify s (· ++ [e.identifier]) := by
  -- The bindings that are there keep their identifiers.
  have hOld : ∀ (r : Nat) (scope : Scope), t.scopes[r]? = some scope →
      scope.order.map (t.insert s e).identifier? = scope.order.map t.identifier? := by
    intro r scope hScope
    apply List.map_congr_left
    intro b hb
    exact identifier?_insert_of_lt s e (h.lt_of_mem (s := r) (by rwa [visible, hScope]))
  apply List.ext_getElem?
  intro r
  rw [getElem?_outline, getElem?_scopes_insert, List.getElem?_modify, getElem?_outline]
  cases hScope : t.scopes[r]? with
  | none => split <;> rfl
  | some scope =>
    split
    · rw [Option.map_some, Option.map_some, List.map_append, hOld r scope hScope]
      simp [identifier?_insert_self]
    · rw [Option.map_some, hOld r scope hScope]
      rfl

theorem WellFormed.outline_insert_last (h : t.WellFormed) {before : Outline} {own : List (Option String)}
    (hOutline : t.outline = before ++ [own]) (e : Entry) :
    (t.insert before.length e).outline = before ++ [own ++ [e.identifier]] := by
  rw [h.outline_insert, hOutline, List.modify_eq_take_cons_drop (by simp)]
  simp

theorem exists_resolveReference_iff {ref : Reference} :
    (∃ b, t.resolveReference ref = .ok b) ↔ ref.FoundIn t.outline := by
  simp only [resolveReference_eq_ok_iff]
  cases ref with
  | named s name =>
    simp only [Reference.FoundIn, getElem?_outline_eq_some_iff, reference?]
    constructor
    · rintro ⟨b, hb⟩
      obtain ⟨hMem, hName⟩ := mem_of_named? hb
      exact ⟨_, ⟨lt_of_mem_visible hMem, rfl⟩, List.mem_map.mpr ⟨b, hMem, hName⟩⟩
    · rintro ⟨_, ⟨_, rfl⟩, hMem⟩
      obtain ⟨b, hb, hName⟩ := List.mem_map.mp hMem
      cases hFound : t.named? s name with
      | none => exact absurd hName (named?_eq_none_iff.mp hFound b hb)
      | some c => exact ⟨c, rfl⟩
  | slot s i =>
    simp only [Reference.FoundIn, getElem?_outline_eq_some_iff, reference?]
    constructor
    · rintro ⟨b, hb⟩
      refine ⟨_, ⟨lt_of_mem_visible (List.mem_of_getElem? hb), rfl⟩, ?_⟩
      rw [List.length_map]
      exact (List.getElem?_eq_some_iff.mp hb).1
    · rintro ⟨_, ⟨_, rfl⟩, hi⟩
      rw [List.length_map] at hi
      exact ⟨_, List.getElem?_eq_getElem hi⟩

end Tree

open TreeLowering.Tree

/-! ## One binding -/

namespace BindingDecl

variable {t u : Tree} {d : BindingDecl} {s : Nat} {before : Outline} {own : List (Option String)}

theorem entry_linked_eq_ok_iff {name : String} {link : Reference} {e : Entry} :
    (linked name link).entry t s = .ok e ↔ ∃ b, t.resolveReference link = .ok b ∧ e = .linked name b := by
  rw [entry, entryBy]
  cases t.resolveReference link <;> simp [bind, Except.bind, pure, Except.pure, eq_comm]

theorem exists_entry_iff : (∃ e, d.entry t s = .ok e) ↔
    d.Recognized ∧ d.Contained ∧ ∀ name link, d = .linked name link → link.FoundIn t.outline := by
  cases d with
  | linked name link =>
    simp only [entry_linked_eq_ok_iff, ← exists_resolveReference_iff]
    simp [Recognized, Contained]
  | var name storage access fixed desired container =>
    simp only [Recognized, Contained, ← StorageClass.parse?_eq_some_iff, ← AccessClass.parse?_eq_some_iff,
      reduceCtorEq, false_implies, implies_true, and_true]
    rw [entry, entryBy, Variable.parse]
    cases StorageClass.parse? storage with
    | none => simp [fail, bind, Except.bind]
    | some st =>
      cases AccessClass.parse? access with
      | none => simp [fail, bind, Except.bind]
      | some ac =>
        cases ac <;> cases container <;>
          simp [agreement, Variable.fresh, fail, bind, Except.bind, pure, Except.pure]

theorem link_lt_of_entry (hWell : t.WellFormed) {name : String} {link : Nat}
    (h : d.entry t s = .ok (.linked name link)) : link < t.bindings.size := by
  cases d with
  | linked n ref =>
    obtain ⟨b, hRef, hEq⟩ := entry_linked_eq_ok_iff.mp h
    cases hEq
    exact hWell.lt_of_mem (mem_visible_of_reference? (resolveReference_eq_ok_iff.mp hRef))
  | var n storage access fixed desired container => exact (declares_of_entry h).elim

theorem exists_attach_iff (hWell : t.WellFormed) (hOutline : t.outline = before ++ [own]) :
    (∃ u, d.attach before.length t = .ok () u) ↔ d.Fits before own := by
  obtain ⟨hs, rfl⟩ := getElem?_outline_eq_some_iff.mp (show t.outline[before.length]? = some own by simp [hOutline])
  have hFresh : ∀ name, t.named? before.length name = none ↔
      some name ∉ (t.visible before.length).map t.identifier? := by
    intro name
    rw [named?_eq_none_iff]
    simp
  simp only [attach_eq_ok_iff, obstacle?_eq_none_iff, hFresh]
  constructor
  · rintro ⟨_, e, hEntry, ⟨_, hFree, _⟩, _⟩
    obtain ⟨hRecognized, hContained, hLinked⟩ := exists_entry_iff.mp ⟨e, hEntry⟩
    rw [(declares_of_entry hEntry).identifier_eq] at hFree
    exact ⟨hRecognized, hContained, hOutline ▸ hLinked, hFree⟩
  · rintro ⟨hRecognized, hContained, hLinked, hFree⟩
    obtain ⟨e, hEntry⟩ := exists_entry_iff.mpr ⟨hRecognized, hContained, hOutline ▸ hLinked⟩
    refine ⟨_, e, hEntry, ⟨hs, ?_, ?_⟩, rfl⟩
    · rwa [(declares_of_entry hEntry).identifier_eq]
    · rintro name link rfl
      exact link_lt_of_entry hWell hEntry

theorem outline_attach (hWell : t.WellFormed) (hOutline : t.outline = before ++ [own])
    (h : d.attach before.length t = .ok () u) : u.outline = before ++ [own ++ [d.identifier?]] := by
  obtain ⟨e, hEntry, _, rfl⟩ := attach_eq_ok_iff.mp h
  rw [hWell.outline_insert_last hOutline, (declares_of_entry hEntry).identifier_eq]

end BindingDecl

/-! ## Declarations one after the other -/

/-- A run over a list takes one step for each item. `I` tells what the tree is like after the items `done`, and `P` when
the step for the next item is possible. -/
structure Stepwise {α : Type} (step : List α → α → Edit Unit) (run : List α → List α → Edit Unit)
    (I : List α → Tree → Prop) (P : List α → α → Prop) : Prop where
  nil : ∀ done, run done [] = pure ()
  cons : ∀ done x xs, run done (x :: xs) = step done x >>= fun _ => run (done ++ [x]) xs
  possible : ∀ done x t, I done t → ((∃ u, step done x t = .ok () u) ↔ P done x)
  kept : ∀ done x t u, I done t → step done x t = .ok () u → I (done ++ [x]) u

theorem Stepwise.succeeds_iff {α : Type} {step : List α → α → Edit Unit}
    {run : List α → List α → Edit Unit} {I : List α → Tree → Prop} {P : List α → α → Prop}
    (h : Stepwise step run I P) (done : List α) {t : Tree} (hStart : I done t) (xs : List α) :
    ((∃ u, run done xs t = .ok () u) ↔ ∀ i x, xs[i]? = some x → P (done ++ xs.take i) x) ∧
      ∀ u, run done xs t = .ok () u → I (done ++ xs) u := by
  induction xs generalizing done t with
  | nil =>
    rw [h.nil]
    refine ⟨iff_of_true ⟨t, rfl⟩ (by simp), ?_⟩
    rintro u ⟨⟩
    rwa [List.append_nil]
  | cons x xs ih =>
    rw [h.cons]
    have hRest : ∀ m, step done x t = .ok () m →
        ((∃ u, run (done ++ [x]) xs m = .ok () u) ↔
            ∀ i y, xs[i]? = some y → P (done ++ (x :: xs).take (i + 1)) y) ∧
          ∀ u, run (done ++ [x]) xs m = .ok () u → I (done ++ x :: xs) u := by
      intro m hm
      simpa using ih (done ++ [x]) (h.kept done x t m hStart hm)
    refine ⟨⟨?_, ?_⟩, ?_⟩
    · rintro ⟨u, hRun⟩
      obtain ⟨_, m, hm, hAfter⟩ := exists_of_run_eq_ok hRun
      rintro (_ | i) y hy
      · cases hy
        simpa using (h.possible done x t hStart).mp ⟨m, hm⟩
      · exact (hRest m hm).1.mp ⟨u, hAfter⟩ i y hy
    · intro hAll
      obtain ⟨m, hm⟩ := (h.possible done x t hStart).mpr (by simpa using hAll 0 x rfl)
      obtain ⟨u, hAfter⟩ := (hRest m hm).1.mpr fun i y hy => hAll (i + 1) y hy
      exact ⟨u, (run_bind_of_ok hm _).trans hAfter⟩
    · intro u hRun
      obtain ⟨_, m, hm, hAfter⟩ := exists_of_run_eq_ok hRun
      exact (hRest m hm).2 u hAfter

theorem nodup_filterMap_iff {α β : Type} {f : α → Option β} {xs : List α} :
    (xs.filterMap f).Nodup ↔
      ∀ (j : Nat) (x : α), xs[j]? = some x → ∀ y, f x = some y → some y ∉ (xs.take j).map f := by
  rw [List.Nodup, List.pairwise_filterMap, List.pairwise_iff_getElem]
  constructor
  · intro h j x hx y hy hMem
    obtain ⟨hj, rfl⟩ := List.getElem?_eq_some_iff.mp hx
    obtain ⟨x', hx', hEq⟩ := List.mem_map.mp hMem
    obtain ⟨i, hi, rfl⟩ := List.mem_take_iff_getElem.mp hx'
    exact h i j (by omega) hj (by omega) y hEq y hy rfl
  · intro h i j hi hj hLt y hy z hz hEq
    subst hEq
    refine h j xs[j] (List.getElem?_eq_getElem hj) y hz (List.mem_map.mpr ⟨xs[i], ?_, hy⟩)
    exact List.mem_take_iff_getElem.mpr ⟨i, by omega, rfl⟩

namespace ScopeDecl

def identifiers (d : ScopeDecl) : List (Option String) := d.bindings.map BindingDecl.identifier?

/-- The declaration can follow the scopes `before`. -/
structure Fits (before : Outline) (d : ScopeDecl) : Prop where
  parent : d.parent < before.length
  bindings : ∀ (j : Nat) (declared : BindingDecl), d.bindings[j]? = some declared →
    declared.Fits before ((d.bindings.take j).map BindingDecl.identifier?)

variable {t u : Tree} {d : ScopeDecl}

theorem stepwise_bindings (before : Outline) :
    Stepwise (fun _ => BindingDecl.attach before.length) (fun _ bs => bs.forM (BindingDecl.attach before.length))
      (fun done t => t.WellFormed ∧ t.outline = before ++ [done.map BindingDecl.identifier?])
      (fun done declared => declared.Fits before (done.map BindingDecl.identifier?)) where
  nil _ := rfl
  cons _ _ _ := rfl
  possible := by
    rintro done declared t ⟨hWell, hOutline⟩
    exact BindingDecl.exists_attach_iff hWell hOutline
  kept := by
    rintro done declared t u ⟨hWell, hOutline⟩ hAttach
    refine ⟨hWell.grows (after_of_ok hAttach ▸ attachBinding_within _ declared t), ?_⟩
    rw [BindingDecl.outline_attach hWell hOutline hAttach, List.map_append]
    rfl

/-- What attaching a scope comes down to: its parent is there, and its bindings fit. -/
theorem attach_cases (hWell : t.WellFormed) (d : ScopeDecl) :
    ((∃ u, d.attach t.scopes.size t = .ok () u) ↔ d.Fits t.outline) ∧
      ∀ u, d.attach t.scopes.size t = .ok () u → u.WellFormed ∧ u.outline = t.outline ++ [d.identifiers] := by
  by_cases hParent : d.parent < t.scopes.size
  · have hKind : d.kind.scopeKind ≠ .global := by cases d.kind <;> decide
    have hBindings := (stepwise_bindings t.outline).succeeds_iff []
      ⟨hWell.push hKind hParent, t.outline_push d.kind.scopeKind (some d.parent)⟩ d.bindings
    rw [attach_apply _ d (Nat.not_le.mpr hParent) hParent]
    rw [length_outline] at hBindings
    refine ⟨hBindings.1.trans ⟨fun h => ⟨by rwa [length_outline], h⟩, fun h => h.bindings⟩, hBindings.2⟩
  · have hFails : ∀ u, d.attach t.scopes.size t ≠ .ok () u := by
      intro u hAttach
      rw [ScopeDecl.attach, if_pos (Nat.not_lt.mp hParent)] at hAttach
      cases hAttach
    refine ⟨iff_of_false (not_exists.mpr hFails) ?_, fun u hAttach => absurd hAttach (hFails u)⟩
    intro h
    exact hParent (length_outline t ▸ h.parent)

theorem size_of_outline {names : List String} {done : List ScopeDecl}
    (h : t.outline = names.map some :: done.map identifiers) : t.scopes.size = done.length + 1 := by
  rw [← length_outline, h, List.length_cons, List.length_map]

theorem stepwise_scopes (names : List String) :
    Stepwise (fun done d => d.attach (done.length + 1)) (fun done ds => attachFrom (done.length + 1) ds)
      (fun done t => t.WellFormed ∧ t.outline = names.map some :: done.map identifiers)
      (fun done d => d.Fits (names.map some :: done.map identifiers)) where
  nil _ := rfl
  cons done d ds := by
    rw [List.length_append]
    rfl
  possible := by
    rintro done d t ⟨hWell, hOutline⟩
    rw [← size_of_outline hOutline, ← hOutline]
    exact (attach_cases hWell d).1
  kept := by
    rintro done d t u ⟨hWell, hOutline⟩ hAttach
    rw [← size_of_outline hOutline] at hAttach
    obtain ⟨hWell', hOutline'⟩ := (attach_cases hWell d).2 u hAttach
    refine ⟨hWell', ?_⟩
    rw [hOutline', hOutline, List.map_append]
    rfl

/-- The declarations of scopes that are accepted below the global names. -/
structure WellDeclared (names : List String) (ds : List ScopeDecl) : Prop where
  parent : ∀ (i : Nat) (d : ScopeDecl), ds[i]? = some d → d.parent ≤ i
  recognized : ∀ d ∈ ds, ∀ declared ∈ d.bindings, declared.Recognized
  contained : ∀ d ∈ ds, ∀ declared ∈ d.bindings, declared.Contained
  /-- A link leads to a global name, to a scope further up, or further up in its own scope. -/
  linked : ∀ (i : Nat) (d : ScopeDecl), ds[i]? = some d → ∀ (j : Nat) (name : String) (link : Reference),
    d.bindings[j]? = some (.linked name link) → link.FoundIn
      (names.map some :: (ds.take i).map identifiers ++ [(d.bindings.take j).map BindingDecl.identifier?])
  distinct : ∀ d ∈ ds, (d.bindings.filterMap BindingDecl.identifier?).Nodup

theorem wellDeclared_iff {names : List String} {ds : List ScopeDecl} : WellDeclared names ds ↔
    ∀ (i : Nat) (d : ScopeDecl), ds[i]? = some d → d.Fits (names.map some :: (ds.take i).map identifiers) := by
  have hLength : ∀ (i : Nat) (d : ScopeDecl), ds[i]? = some d →
      (names.map some :: (ds.take i).map identifiers).length = i + 1 := by
    intro i d hd
    have hi := (List.getElem?_eq_some_iff.mp hd).1
    simp only [List.length_cons, List.length_map, List.length_take]
    omega
  constructor
  · intro h i d hd
    have hMem := List.mem_of_getElem? hd
    constructor
    · rw [hLength i d hd]
      exact Nat.lt_succ_of_le (h.parent i d hd)
    · intro j declared hj
      have hDeclared := List.mem_of_getElem? hj
      refine ⟨h.recognized d hMem declared hDeclared, h.contained d hMem declared hDeclared, ?_,
        nodup_filterMap_iff.mp (h.distinct d hMem) j declared hj⟩
      rintro name link rfl
      exact h.linked i d hd j name link hj
  · intro h
    have hEach : ∀ d ∈ ds, ∀ declared ∈ d.bindings, declared.Recognized ∧ declared.Contained := by
      intro d hMem declared hDeclared
      obtain ⟨i, hd⟩ := List.mem_iff_getElem?.mp hMem
      obtain ⟨j, hj⟩ := List.mem_iff_getElem?.mp hDeclared
      have hFits := (h i d hd).bindings j declared hj
      exact ⟨hFits.recognized, hFits.contained⟩
    refine ⟨?_, fun d hd declared hMem => (hEach d hd declared hMem).1, fun d hd declared hMem =>
      (hEach d hd declared hMem).2, ?_, ?_⟩
    · intro i d hd
      have hParent := (h i d hd).parent
      rw [hLength i d hd] at hParent
      exact Nat.le_of_lt_succ hParent
    · intro i d hd j name link hj
      exact ((h i d hd).bindings j _ hj).linked name link rfl
    · intro d hMem
      obtain ⟨i, hd⟩ := List.mem_iff_getElem?.mp hMem
      exact nodup_filterMap_iff.mpr fun j declared hj => ((h i d hd).bindings j declared hj).fresh

theorem exists_attachAll_iff {registry : Registry} {extra : List String} {container : String} {globals : Tree}
    (h : ofGlobals registry extra container = .ok globals) (ds : List ScopeDecl) :
    (∃ u, attachAll ds globals = .ok () u) ↔ WellDeclared (registry.names ++ extra) ds := by
  have hOutline : globals.outline = [(registry.names ++ extra).map some] := by
    rw [ofGlobals_eq_ok h, outline_globalTree]
  have hSize : globals.scopes.size = 1 := by
    rw [← length_outline, hOutline]
    rfl
  have hScopes := (stepwise_scopes (registry.names ++ extra)).succeeds_iff [] ⟨WellFormed.ofGlobals h, hOutline⟩ ds
  rw [wellDeclared_iff, attachAll, get_bind_apply, if_pos hSize]
  exact hScopes.1

end ScopeDecl

/-! ## What the declarations become -/

namespace Tree

variable {t u : Tree}

theorem Growth.visible_prefix (h : Growth t u) (s : Nat) : t.visible s <+: u.visible s := by
  cases h with
  | push hKind hParent => exact ⟨[], by rw [List.append_nil, visible_push]⟩
  | @insert r e hFree =>
    by_cases hr : s = r
    · subst hr
      rw [visible_insert_self e ((t.containsScope_iff s).mpr (obstacle?_eq_none_iff.mp hFree).1)]
      exact List.prefix_append _ _
    · exact ⟨[], by rw [List.append_nil, visible_insert_of_ne t e hr]⟩

/-- A reference that leads to a binding leads to it still when the tree has grown. -/
theorem WellFormed.resolveReference_growth (h : t.WellFormed) (hGrowth : Growth t u) {ref : Reference} {b : Nat}
    (hRef : t.resolveReference ref = .ok b) : u.resolveReference ref = .ok b := by
  rw [resolveReference_eq_ok_iff] at hRef ⊢
  cases ref with
  | named s name =>
    obtain ⟨hMem, hName⟩ := mem_of_named? hRef
    refine (h.growth hGrowth).named?_eq_some_iff.mpr ⟨(hGrowth.visible_prefix s).subset hMem, ?_⟩
    rwa [identifier?, entryAt?, hGrowth.getElem? (h.lt_of_mem hMem)]
  | slot s i =>
    obtain ⟨rest, hRest⟩ := hGrowth.visible_prefix s
    rw [reference?] at hRef ⊢
    rw [← hRest, List.getElem?_append_left (List.getElem?_eq_some_iff.mp hRef).1, hRef]

theorem WellFormed.resolveReference_grows (h : t.WellFormed) (hGrows : ReflTransGen Growth t u) {ref : Reference}
    {b : Nat} (hRef : t.resolveReference ref = .ok b) : u.resolveReference ref = .ok b := by
  induction hGrows with
  | refl => exact hRef
  | tail hBefore hStep ih => exact (h.grows hBefore).resolveReference_growth hStep ih

/-- The entry is what the declaration says, and an alias is linked to the binding that its reference leads to. -/
def Realizes (u : Tree) : BindingDecl → Entry → Prop
  | .linked name link, e => ∃ b, u.resolveReference link = .ok b ∧ e = .linked name b
  | .var name storage access fixed desired container, e =>
    ∃ v, e = .var v ∧ v.identifier = name ∧ storage ∈ v.storage.spellings ∧ access ∈ v.access.spellings ∧
      v.container = container ∧ v.target = fixed.elim (.pending desired) .assigned

theorem MadeFrom.realizes {s : Nat} {declared : BindingDecl} {e : Entry} (h : u.MadeFrom s declared e) :
    u.Realizes declared e := by
  obtain ⟨t, hWell, hGrows, hEntry⟩ := h
  cases declared with
  | linked name link =>
    obtain ⟨b, hRef, rfl⟩ := BindingDecl.entry_linked_eq_ok_iff.mp hEntry
    exact ⟨b, hWell.resolveReference_grows hGrows hRef, rfl⟩
  | var name storage access fixed desired container =>
    have hDeclares := BindingDecl.declares_of_entry hEntry
    cases e with
    | linked n link => exact hDeclares.elim
    | var v =>
      obtain ⟨hName, hStorage, hAccess, hContainer, hTarget⟩ := hDeclares
      refine ⟨v, rfl, hName, StorageClass.parse?_eq_some_iff.mp hStorage, AccessClass.parse?_eq_some_iff.mp hAccess,
        hContainer, hTarget.trans ?_⟩
      cases fixed <;> rfl

/-- The tree has the declared scopes below the global one, and nothing else. -/
structure Builds (u globals : Tree) (ds : List ScopeDecl) : Prop where
  size : u.scopes.size = ds.length + 1
  declared : ∀ (i : Nat) (d : ScopeDecl), ds[i]? = some d →
    ∃ order, u.scopes[i + 1]? = some ⟨if d.kind = .function then .function else .block, some d.parent, order⟩ ∧
      List.Forall₂ (fun declared b => ∃ e, u.bindings[b]? = some ⟨i + 1, e⟩ ∧ u.Realizes declared e)
        d.bindings order
  complete : u.Complete
  global : u.scopes[0]? = globals.scopes[0]?
  kept : ∀ b < globals.bindings.size, u.bindings[b]? = globals.bindings[b]?

end Tree

namespace ScopeDecl

theorem attachAll_builds {registry : Registry} {extra : List String} {container : String} {globals u : Tree}
    (h : ofGlobals registry extra container = .ok globals) {ds : List ScopeDecl}
    (hAttach : attachAll ds globals = .ok () u) : u.Builds globals ds := by
  obtain ⟨hSize, hHolds, hRoot⟩ := attachAll_eq_ok (WellFormed.ofGlobals h) hAttach
  have hGrows := after_of_ok hAttach ▸ attachAll_within ds globals
  refine ⟨hSize, ?_, (attached_wellFormed h hAttach).2, hRoot, (grows_getElem? hGrows).2⟩
  intro i d hd
  obtain ⟨order, hOrder, hBindings⟩ := hHolds i d hd
  have hKind : d.kind.scopeKind = if d.kind = .function then .function else .block := by cases d.kind <;> rfl
  refine ⟨order, hKind ▸ hOrder, hBindings.imp ?_⟩
  rintro declared b ⟨e, hb, hMade⟩
  exact ⟨e, hb, hMade.realizes⟩

/-- Exactly the well declared scopes can be placed, and they become what they declare. -/
theorem attached_iff_wellDeclared {registry : Registry} {extra : List String} {container : String} {globals : Arena}
    (h : Arena.ofGlobals registry extra container = .ok globals) (ds : List ScopeDecl) :
    ((∃ u, placeAll ds globals = .ok () u) ↔ WellDeclared (registry.names ++ extra) ds) ∧
      ∀ u, placeAll ds globals = .ok () u → u.tree.Builds globals.tree ds := by
  have hIndexed := Arena.Indexed.ofGlobals h
  have hTree : ofGlobals registry extra container = .ok globals.tree := by
    rw [← Arena.tree_ofGlobals, h]
    rfl
  have hFollows := Arena.follows_placeAll ds
  refine ⟨(hFollows.exists_ok_iff hIndexed).trans (exists_attachAll_iff hTree ds), ?_⟩
  intro u hPlace
  exact attachAll_builds hTree (hFollows.eq_ok hIndexed hPlace)

/-- Every spelling, and links to a global name, to a scope further up and into the same scope, by name and by
position. -/
def linkedScopes : List ScopeDecl :=
  [⟨0, .function, [.plainLocal "a", .linked "b" (.slot 1 0), .linked "c" (.named 0 "x"),
      .var "d" "ARGUMENT" "DIRECT" none "e" none]⟩,
    ⟨1, .block, [.linked "a" (.named 1 "c"), .var none "NONE" "PROP_ACCESS" "t" "d" "m",
      .var "b" "PROP_ASSIGNMENT" "MEMBER" none none "m", .var "f" "NAMESPACED" "BARE" none none none,
      .var "g" "UNMATERIALIZED" "DIRECT" none none none]⟩]

/-- A link to a binding that its own scope declares after it. -/
def forwardScopes : List ScopeDecl :=
  [⟨0, .function, [.linked "b" (.named 1 "a"), .plainLocal "a"]⟩]

/-- A storage class that is spelled in none of the known ways. -/
def misspelledScopes : List ScopeDecl := [⟨0, .function, [.var "a" "STACK" "BARE" none none none]⟩]

def classes (a : Arena) : List (StorageClass × AccessClass) :=
  a.bindings.toList.filterMap fun b =>
    match b.entry with
    | .var v => some (v.storage, v.access)
    | .linked .. => none

/-- The global scope with the name `x`. -/
def oneGlobal : Arena :=
  ⟨#[⟨0, .global, none, [("x", 0)], [0], []⟩], #[⟨0, .var (Variable.ofMember "x" "$G")⟩]⟩

theorem linked_scopes_are_accepted_and_forward_ones_refused :
    Arena.ofGlobals .empty ["x"] "$G" = .ok oneGlobal ∧
      (∃ u, placeAll linkedScopes oneGlobal = .ok () u ∧ u.tree.Builds oneGlobal.tree linkedScopes ∧
        classes u = [(.namespaced, .member), (.local, .direct), (.argument, .direct), (.unmaterialized, .member),
          (.namespaced, .member), (.namespaced, .direct), (.unmaterialized, .direct)]) ∧
      WellDeclared ["x"] linkedScopes ∧ ¬WellDeclared ["x"] forwardScopes ∧
        ¬WellDeclared ["x"] misspelledScopes := by
  have hGlobals : Arena.ofGlobals .empty ["x"] "$G" = .ok oneGlobal := by rfl
  have hRefused (ds : List ScopeDecl) (hFails : ∃ e u, placeAll ds oneGlobal = .error e u) :
      ¬WellDeclared ["x"] ds := by
    intro hWell
    obtain ⟨e, u, hFails⟩ := hFails
    obtain ⟨w, hRun⟩ := (attached_iff_wellDeclared hGlobals ds).1.mpr hWell
    cases hRun.symm.trans hFails
  obtain ⟨hIff, hBuilds⟩ := attached_iff_wellDeclared hGlobals linkedScopes
  obtain ⟨u, hPlace⟩ : ∃ u, placeAll linkedScopes oneGlobal = .ok () u := ⟨_, rfl⟩
  refine ⟨hGlobals, ⟨u, hPlace, hBuilds u hPlace, ?_⟩, hIff.mp ⟨u, hPlace⟩, hRefused _ ⟨_, _, rfl⟩,
    hRefused _ ⟨_, _, rfl⟩⟩
  cases hPlace
  rfl

end ScopeDecl
end TreeLowering
