import TreeLowering.Proofs.Scope.ClosedForm

/-! # A function names its own bindings

Allocation is one pass over a whole tree, and the blocks of a function may stand between those of others. Yet what a
function calls its bindings can be computed from its own entries, so no other function has a say in it. -/
namespace TreeLowering
set_option autoImplicit false

/-- What allocation reads of a variable. -/
structure Wish where
  storage : StorageClass
  identifier : Option String
  target : Target
deriving DecidableEq

namespace Wish

/-- A name of the function that is taken before anything is named. -/
def fixed? (w : Wish) : Option String := if w.storage.isFunctionSlot then w.target.name? else none

/-- The target of a variable that has its turn while the names `used` are taken. -/
def granted (used : List String) (w : Wish) : Option String :=
  match w.target with
  | .assigned name => some name
  | .pending desired =>
    if w.storage.isFunctionSlot then some (uniqueName ((desired.or w.identifier).getD Tree.anonymousCandidate) used)
    else w.identifier

/-- The targets of entries that have their turns one after the other. An alias wishes for nothing. -/
def targetsFrom (used : List String) : List (Option Wish) → List (Option String)
  | [] => []
  | none :: rest => none :: targetsFrom used rest
  | some w :: rest =>
    let target := w.granted used
    target :: targetsFrom (if w.storage.isFunctionSlot then target.toList ++ used else used) rest

/-- The targets of the entries of a function, in the order they are named. -/
def targets (entries : List (Option Wish)) : List (Option String) :=
  targetsFrom (entries.filterMap fun entry => entry.bind fixed?) entries

theorem granted_congr {used used' : List String} (h : ∀ name, name ∈ used ↔ name ∈ used') (w : Wish) :
    w.granted used = w.granted used' := by
  simp only [granted, uniqueName_congr h]

theorem targetsFrom_congr {used used' : List String} (h : ∀ name, name ∈ used ↔ name ∈ used')
    (entries : List (Option Wish)) : targetsFrom used entries = targetsFrom used' entries := by
  induction entries generalizing used used' with
  | nil => rfl
  | cons entry rest ih =>
    cases entry with
    | none => rw [targetsFrom, targetsFrom, ih h]
    | some w =>
      simp only [targetsFrom, granted_congr h w]
      congr 1
      apply ih
      intro name
      split
      · rw [List.mem_append, List.mem_append, h]
      · exact h name

end Wish

def Entry.wish? : Entry → Option Wish
  | .var v => some ⟨v.storage, v.identifier, v.target⟩
  | .linked .. => none

namespace Tree

open Relation Edit

def wish? (t : Tree) (b : Nat) : Option Wish := (t.entryAt? b).bind Entry.wish?

/-- The binding is in a scope of the function `f`. -/
def belongsTo (t : Tree) (f b : Nat) : Bool := (t.bindings[b]?.map fun x => t.functionScope x.owner) == some f

variable {t u : Tree} {f b : Nat}

/-! ## One visit -/

theorem belongsTo_iff : t.belongsTo f b = true ↔ ∃ x, t.bindings[b]? = some x ∧ t.functionScope x.owner = f := by
  rw [belongsTo, beq_iff_eq, Option.map_eq_some_iff]

theorem Naming.belongsTo_eq (h : Naming t u) (f b : Nat) : u.belongsTo f b = t.belongsTo f b := by
  cases h with
  | @assign c owner v desired candidate hBinding hPending =>
    have hScope := fun s =>
      (t.sameFrame_setTarget c (t.chooseTarget ⟨owner, .var v⟩ v.storage candidate)).functionScope s
    simp only [belongsTo, getElem?_setTarget, hScope]
    split
    · rw [Option.map_map]
      rfl
    · rfl

theorem names_belongsTo (h : ReflTransGen Naming t u) : u.belongsTo f = t.belongsTo f := by
  induction h with
  | refl => rfl
  | tail _ hStep ih => exact (funext (hStep.belongsTo_eq f)).trans ih

theorem SlotOf.belongsTo (h : t.SlotOf f b) : t.belongsTo f b = true := by
  obtain ⟨x, hx, _, hFunction⟩ := h
  exact belongsTo_iff.mpr ⟨x, hx, hFunction⟩

theorem slotOf_iff_of_getElem? {owner : Nat} {e : Entry} (hx : t.bindings[b]? = some ⟨owner, e⟩) :
    t.SlotOf (t.functionScope owner) b ↔ e.storage.isFunctionSlot = true := by
  constructor
  · rintro ⟨y, hy, hStorage, _⟩
    obtain rfl := Option.some.inj (hx.symm.trans hy)
    exact hStorage
  · intro hStorage
    exact ⟨_, hx, hStorage, rfl⟩

theorem wish?_eq_of_getElem? {x : Binding} (hx : t.bindings[b]? = some x) : t.wish? b = x.entry.wish? := by
  rw [wish?, entryAt?, hx, Option.map_some, Option.bind_some]

/-- A visit takes at most the name that it gives to a slot of the function. -/
theorem mem_usedTargets_visit (h : allocateOne b t = .ok () u) {name : String} :
    name ∈ u.usedTargets f ↔ name ∈ t.usedTargets f ∨ t.SlotOf f b ∧ u.target? b = some name := by
  have hNames : ReflTransGen Naming t u := after_of_ok h ▸ allocateOne_within b t
  simp only [mem_usedTargets, names_slotOf hNames]
  constructor
  · rintro ⟨c, hSlot, hTarget⟩
    by_cases hEq : b = c
    · subst hEq
      exact .inr ⟨hSlot, hTarget⟩
    · rw [target?, entryAt?_allocateOne h hEq] at hTarget
      exact .inl ⟨c, hSlot, hTarget⟩
  · rintro (⟨c, hSlot, hTarget⟩ | ⟨hSlot, hTarget⟩)
    · exact ⟨c, hSlot, names_target?_eq hNames hTarget⟩
    · exact ⟨b, hSlot, hTarget⟩

theorem target?_visit (h : allocateOne b t = .ok () u) {owner : Nat} {v : Variable}
    (hBinding : t.bindings[b]? = some ⟨owner, .var v⟩) :
    u.target? b = (Wish.mk v.storage v.identifier v.target).granted (t.usedTargets (t.functionScope owner)) := by
  obtain ⟨rfl, hSettled⟩ | ⟨o, v', desired, candidate, hAgain, hPending, hCandidate, rfl⟩ := allocateOne_eq_ok h
  · obtain ⟨name, hName⟩ := hSettled v (by rw [entryAt?, hBinding, Option.map_some])
    rw [target?_eq_of_getElem? hBinding, Entry.target?, Wish.granted, hName]
    rfl
  · obtain ⟨⟩ := Option.some.inj (hAgain.symm.trans hBinding)
    rw [target?_setTarget_self _ hBinding, chooseTarget, Wish.granted]
    rw [candidateOf] at hCandidate
    simp only [hPending]
    split
    · rename_i hSlot
      rw [if_pos hSlot, hPending] at hCandidate
      obtain rfl := Except.ok.inj hCandidate
      rfl
    · rename_i hSlot
      rw [if_neg hSlot] at hCandidate
      split at hCandidate
      · rename_i name hName
        obtain rfl := Except.ok.inj hCandidate
        exact hName.symm
      · cases hCandidate

theorem targetsFrom_visit_other (h : allocateOne b t = .ok () u) (hOther : t.belongsTo f b = false)
    (rest : List (Option Wish)) :
    Wish.targetsFrom (t.usedTargets f) rest = Wish.targetsFrom (u.usedTargets f) rest := by
  apply Wish.targetsFrom_congr
  intro name
  rw [mem_usedTargets_visit h]
  constructor
  · exact .inl
  · rintro (hUsed | ⟨hSlot, _⟩)
    · exact hUsed
    · rw [hSlot.belongsTo] at hOther
      cases hOther

theorem targetsFrom_visit (h : allocateOne b t = .ok () u) (hOwn : t.belongsTo f b = true)
    (rest : List (Option Wish)) :
    Wish.targetsFrom (t.usedTargets f) (t.wish? b :: rest) =
      u.target? b :: Wish.targetsFrom (u.usedTargets f) rest := by
  obtain ⟨⟨owner, e⟩, hx, rfl⟩ := belongsTo_iff.mp hOwn
  rw [wish?_eq_of_getElem? hx]
  cases e with
  | linked n link =>
    have hSame : u = t := by
      obtain ⟨rfl, _⟩ | ⟨o, v, _, _, hAgain, _⟩ := allocateOne_eq_ok h
      · rfl
      · cases hx.symm.trans hAgain
    rw [Entry.wish?, Wish.targetsFrom, hSame, target?_eq_of_getElem? hx]
    rfl
  | var v =>
    rw [Entry.wish?, Wish.targetsFrom, ← target?_visit h hx]
    congr 1
    apply Wish.targetsFrom_congr
    intro name
    rw [mem_usedTargets_visit h, slotOf_iff_of_getElem? hx, Entry.storage]
    split
    · rename_i hStorage
      simp [hStorage, or_comm]
    · rename_i hStorage
      simp [hStorage]

/-! ## Whole passes -/

theorem entryAt?_of_forM {bs : List Nat} (hRun : bs.forM allocateOne t = .ok () u) (hb : b ∉ bs) :
    u.entryAt? b = t.entryAt? b := by
  induction bs generalizing t with
  | nil =>
    cases hRun
    rfl
  | cons c bs ih =>
    obtain ⟨_, m, hVisit, hRest⟩ := exists_of_run_eq_ok hRun
    rw [List.mem_cons, not_or] at hb
    rw [ih hRest hb.2, entryAt?_allocateOne hVisit (Ne.symm hb.1)]

/-- Of what a pass gives, the part of one function comes from that function's wishes and used names. -/
theorem map_target?_of_forM {bs : List Nat} (hNodup : bs.Nodup) (hRun : bs.forM allocateOne t = .ok () u) :
    (bs.filter (t.belongsTo f)).map u.target? =
      Wish.targetsFrom (t.usedTargets f) ((bs.filter (t.belongsTo f)).map t.wish?) := by
  induction bs generalizing t with
  | nil => rfl
  | cons b bs ih =>
    obtain ⟨_, m, hVisit, hRest⟩ := exists_of_run_eq_ok hRun
    obtain ⟨hb, hNodup⟩ := List.nodup_cons.mp hNodup
    -- The wishes of the rest are the same before and after the visit.
    have hWishes : (bs.filter (t.belongsTo f)).map m.wish? = (bs.filter (t.belongsTo f)).map t.wish? := by
      apply List.map_congr_left
      intro c hc
      have hNe : b ≠ c := fun hEq => hb (hEq ▸ (List.mem_filter.mp hc).1)
      rw [wish?, wish?, entryAt?_allocateOne hVisit hNe]
    have hAfter := ih hNodup hRest
    rw [names_belongsTo (after_of_ok hVisit ▸ allocateOne_within b t), hWishes] at hAfter
    cases hOwn : t.belongsTo f b with
    | false => rw [List.filter_cons_of_neg (by simp [hOwn]), hAfter, targetsFrom_visit_other hVisit hOwn]
    | true =>
      have hLast : u.target? b = m.target? b := by rw [target?, entryAt?_of_forM hRest hb, ← target?]
      rw [List.filter_cons_of_pos hOwn, List.map_cons, List.map_cons, hAfter, targetsFrom_visit hVisit hOwn, hLast]

/-! ## One function of a tree -/

theorem WellFormed.filter_belongsTo (h : t.WellFormed) (hFunction : t.isFunctionScope f = true) :
    t.namingOrder.filter (t.belongsTo f) = t.allocationOrder f := by
  rw [h.filter_namingOrder hFunction]
  · apply List.filter_eq_self.mpr
    intro b hb
    obtain ⟨s, hs⟩ := exists_visible_of_mem_allocationOrder hb
    obtain ⟨e, he⟩ := h.owned s b hs
    exact belongsTo_iff.mpr ⟨_, he, h.functionScope_of_mem hFunction hb he⟩
  · intro b x hOwn hx
    obtain ⟨y, hy, hOwner⟩ := belongsTo_iff.mp hOwn
    obtain rfl : x = y := Option.some.inj (hx.symm.trans hy)
    exact hOwner

theorem wish?_fixed? (t : Tree) (b : Nat) :
    (t.wish? b).bind Wish.fixed? = (t.entryAt? b).bind Entry.slotTarget? := by
  rw [wish?]
  cases t.entryAt? b with
  | none => rfl
  | some e => cases e <;> rfl

/-- Where nothing was removed, the names in use at the start are those that the function's own entries fix. -/
theorem mem_usedTargets_iff_fixed (hWell : t.WellFormed) (hComplete : t.Complete)
    (hFunction : t.isFunctionScope f = true) (name : String) : name ∈ t.usedTargets f ↔
      name ∈ ((t.allocationOrder f).map t.wish?).filterMap fun entry => entry.bind Wish.fixed? := by
  rw [mem_usedTargets, List.filterMap_map, List.mem_filterMap]
  constructor
  · rintro ⟨b, hSlot, hTarget⟩
    refine ⟨b, hSlot.mem_allocationOrder hWell hComplete, ?_⟩
    obtain ⟨x, hx, hStorage, _⟩ := hSlot
    rw [Function.comp_apply, wish?_fixed?, entryAt?, hx]
    exact slotTarget?_eq_some_iff.mpr ⟨hStorage, target?_eq_of_getElem? hx ▸ hTarget⟩
  · rintro ⟨b, hb, hFixed⟩
    rw [Function.comp_apply, wish?_fixed?] at hFixed
    obtain ⟨e, he, hName⟩ := Option.bind_eq_some_iff.mp hFixed
    obtain ⟨x, hx, rfl⟩ := Option.map_eq_some_iff.mp he
    obtain ⟨hStorage, hTarget⟩ := slotTarget?_eq_some_iff.mp hName
    exact ⟨b, ⟨x, hx, hStorage, hWell.functionScope_of_mem hFunction hb hx⟩,
      (target?_eq_of_getElem? hx).trans hTarget⟩

/-- What allocation calls the bindings of a function, told from the function's entries. -/
theorem map_target?_of_allocate (hWell : t.WellFormed) (hComplete : t.Complete)
    (hFunction : t.isFunctionScope f = true) (hAllocate : allocate t = .ok () u) :
    (t.allocationOrder f).map u.target? = Wish.targets ((t.allocationOrder f).map t.wish?) := by
  rw [allocate_apply] at hAllocate
  have hPass := map_target?_of_forM (f := f) hWell.nodup_namingOrder hAllocate
  rw [hWell.filter_belongsTo hFunction] at hPass
  rw [hPass, Wish.targets, Wish.targetsFrom_congr (mem_usedTargets_iff_fixed hWell hComplete hFunction)]

/-- Two functions, of whatever documents, that list the same entries give them the same targets. -/
theorem function_targets_are_its_own {registry registry' : Registry} {extra extra' : List String}
    {container container' : String} {globals globals' t t' u u' : Tree} {ds ds' : List ScopeDecl} {f f' : Nat}
    (hGlobals : ofGlobals registry extra container = .ok globals)
    (hGlobals' : ofGlobals registry' extra' container' = .ok globals')
    (hAttach : ScopeDecl.attachAll ds globals = .ok () t) (hAttach' : ScopeDecl.attachAll ds' globals' = .ok () t')
    (hFunction : t.isFunctionScope f = true) (hFunction' : t'.isFunctionScope f' = true)
    (hEntries : (t.allocationOrder f).map t.wish? = (t'.allocationOrder f').map t'.wish?)
    (hAllocate : allocate t = .ok () u) (hAllocate' : allocate t' = .ok () u') :
    (t.allocationOrder f).map u.target? = (t'.allocationOrder f').map u'.target? := by
  obtain ⟨hWell, hComplete⟩ := ScopeDecl.attached_wellFormed hGlobals hAttach
  obtain ⟨hWell', hComplete'⟩ := ScopeDecl.attached_wellFormed hGlobals' hAttach'
  calc (t.allocationOrder f).map u.target?
    _ = Wish.targets ((t.allocationOrder f).map t.wish?) :=
      map_target?_of_allocate hWell hComplete hFunction hAllocate
    _ = Wish.targets ((t'.allocationOrder f').map t'.wish?) := by rw [hEntries]
    _ = (t'.allocationOrder f').map u'.target? :=
      (map_target?_of_allocate hWell' hComplete' hFunction' hAllocate').symm

/-- Bindings of a function, one of them an alias, and of a block that fixes a target of its own. -/
def movedBindings (link : Reference) : List BindingDecl := [.plainLocal "x", .linked "y" link, .plainLocal "var"]

def movedBlock : List BindingDecl :=
  [.plainLocal "x", .var "z" "LOCAL" "BARE" "x$1" none none, .var none "LOCAL" "BARE" none "x" none]

/-- The function by itself. -/
def aloneScopes : List ScopeDecl := [⟨0, .function, movedBindings (.named 1 "x")⟩, ⟨1, .block, movedBlock⟩]

def aloneTree : Tree where
  scopes := #[⟨.global, none, []⟩, ⟨.function, some 0, [0, 1, 2]⟩, ⟨.block, some 1, [3, 4, 5]⟩]
  bindings := #[⟨1, .var (.ofLocal "x")⟩, ⟨1, .linked "y" 0⟩, ⟨1, .var (.ofLocal "var")⟩,
    ⟨2, .var (.ofLocal "x")⟩,
    ⟨2, .var ((Variable.ofLocal "z").withTarget "x$1")⟩,
    ⟨2, .var ((Variable.fresh none .local .direct).withDesired "x")⟩]

/-- The function inside another one, a block of which stands between it and its own block. -/
def nestedScopes : List ScopeDecl :=
  [⟨0, .function, [.plainLocal "x"]⟩, ⟨1, .function, movedBindings (.named 0 "x")⟩,
    ⟨1, .block, [.plainLocal "x"]⟩, ⟨2, .block, movedBlock⟩]

def nestedTree : Tree where
  scopes := #[⟨.global, none, [0]⟩, ⟨.function, some 0, [1]⟩, ⟨.function, some 1, [2, 3, 4]⟩,
    ⟨.block, some 1, [5]⟩, ⟨.block, some 2, [6, 7, 8]⟩]
  bindings := #[⟨0, .var (.ofMember "x" "$G")⟩, ⟨1, .var (.ofLocal "x")⟩, ⟨2, .var (.ofLocal "x")⟩,
    ⟨2, .linked "y" 0⟩, ⟨2, .var (.ofLocal "var")⟩, ⟨3, .var (.ofLocal "x")⟩, ⟨4, .var (.ofLocal "x")⟩,
    ⟨4, .var ((Variable.ofLocal "z").withTarget "x$1")⟩,
    ⟨4, .var ((Variable.fresh none .local .direct).withDesired "x")⟩]

theorem moved_function_keeps_its_targets :
    ScopeDecl.attachAll aloneScopes empty = .ok () aloneTree ∧
      ScopeDecl.attachAll nestedScopes (globalTree "$G" ["x"]) = .ok () nestedTree ∧
      ∃ u u', allocate aloneTree = .ok () u ∧ allocate nestedTree = .ok () u' ∧
        (aloneTree.allocationOrder 1).map u.target? = (nestedTree.allocationOrder 2).map u'.target? ∧
        (aloneTree.allocationOrder 1).map u.target? =
          [some "x", none, some "var$1", some "x$2", some "x$1", some "x$3"] := by
  have hGlobals : ofGlobals .empty [] "$G" = .ok empty := by rfl
  have hGlobals' : ofGlobals .empty ["x"] "$G" = .ok (globalTree "$G" ["x"]) := by rfl
  have hAttach : ScopeDecl.attachAll aloneScopes empty = .ok () aloneTree := by rfl
  have hAttach' : ScopeDecl.attachAll nestedScopes (globalTree "$G" ["x"]) = .ok () nestedTree := by rfl
  obtain ⟨u, hAllocate⟩ : ∃ u, allocate aloneTree = .ok () u := ⟨_, rfl⟩
  obtain ⟨u', hAllocate'⟩ : ∃ u', allocate nestedTree = .ok () u' := ⟨_, rfl⟩
  obtain ⟨hWell, hComplete⟩ := ScopeDecl.attached_wellFormed hGlobals hAttach
  refine ⟨hAttach, hAttach', u, u', hAllocate, hAllocate', ?_, ?_⟩
  · exact function_targets_are_its_own hGlobals hGlobals' hAttach hAttach' (by rfl) (by rfl) (by rfl) hAllocate
      hAllocate'
  · rw [map_target?_of_allocate hWell hComplete (by rfl) hAllocate]
    rfl

end Tree
end TreeLowering
