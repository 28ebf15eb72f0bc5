import TreeLowering.Proofs.Scope.Numbering

/-! # Capture of variables by inner functions

In emitted code a slot is in force throughout its function, and names are kept apart within a function
only. So an inner function captures a variable exactly if it has so many slots of the variable's name
that one of them gets the same number. -/
namespace TreeLowering
set_option autoImplicit false

open Relation

namespace Tree

open Edit

/-- A function scope strictly inside `f` that is met on the way from `s` outward to `f`. -/
def Between (t : Tree) (s f g : Nat) : Prop :=
  g ∈ t.chain s ∧ t.isFunctionScope g = true ∧ g ≠ f ∧ f ∈ t.chain g

/-- The slot that an emitted name denotes at a scope: that of the nearest function that has one. -/
def denoted? (t : Tree) (s : Nat) (name : String) : Option Nat :=
  ((t.chain s).filter t.isFunctionScope).findSome? fun f =>
    t.namingOrder.find? fun b => t.isSlotOf f b && t.target? b == some name

/-- The slots of a finished tree have the numbered names of their identifiers. -/
structure PlainlyNamed (t : Tree) : Prop extends t.WellFormed where
  complete : t.Complete
  plain : ∀ f b, t.SlotOf f b → IsPlain (t.slotName b)
  given : ∀ f name k b, (t.slotsNamed f name)[k]? = some b → t.target? b = some (numbered name k)

namespace PlainlyNamed

variable {t : Tree}

theorem mem_namingOrder (h : t.PlainlyNamed) {f b : Nat} (hSlot : t.SlotOf f b) : b ∈ t.namingOrder := by
  obtain ⟨x, hx, _⟩ := hSlot
  exact Tree.mem_namingOrder h.toGrounded (h.placed b x hx) (h.complete b x hx)

theorem exists_number (h : t.PlainlyNamed) {f b : Nat} (hSlot : t.SlotOf f b) :
    ∃ k, (t.slotsNamed f (t.slotName b))[k]? = some b ∧ t.target? b = some (numbered (t.slotName b) k) := by
  have hMem : b ∈ t.slotsNamed f (t.slotName b) :=
    List.mem_filter.mpr ⟨h.mem_namingOrder hSlot, wants_iff.mpr ⟨hSlot, rfl⟩⟩
  obtain ⟨k, hk⟩ := List.mem_iff_getElem?.mp hMem
  exact ⟨k, hk, h.given f _ k b hk⟩

theorem slotOf_of_slotsNamed {f k b : Nat} {name : String} (hb : (t.slotsNamed f name)[k]? = some b) :
    t.SlotOf f b :=
  (wants_iff.mp (List.mem_filter.mp (List.mem_of_getElem? hb)).2).1

theorem target?_eq_numbered_iff (h : t.PlainlyNamed) {f c k : Nat} {name : String} (hName : IsPlain name) :
    t.SlotOf f c ∧ t.target? c = some (numbered name k) ↔ (t.slotsNamed f name)[k]? = some c := by
  constructor
  · rintro ⟨hSlot, hTarget⟩
    obtain ⟨j, hj, hNumber⟩ := h.exists_number hSlot
    obtain ⟨rfl, rfl⟩ := numbered_inj hName (h.plain f c hSlot) (Option.some.inj (hTarget.symm.trans hNumber))
    exact hj
  · intro hc
    exact ⟨slotOf_of_slotsNamed hc, h.given f name k c hc⟩

theorem find?_holder (h : t.PlainlyNamed) {f k : Nat} {name : String} (hName : IsPlain name) :
    t.namingOrder.find? (fun b => t.isSlotOf f b && t.target? b == some (numbered name k)) =
      (t.slotsNamed f name)[k]? := by
  have hHolds : ∀ b, (t.isSlotOf f b && t.target? b == some (numbered name k)) = true ↔
      (t.slotsNamed f name)[k]? = some b := by
    intro b
    rw [← h.target?_eq_numbered_iff hName, ← isSlotOf_iff]
    simp
  cases hFound : t.namingOrder.find? fun b => t.isSlotOf f b && t.target? b == some (numbered name k) with
  | some b =>
    have hb := List.find?_some hFound
    exact ((hHolds b).mp hb).symm
  | none =>
    cases hAt : (t.slotsNamed f name)[k]? with
    | none => rfl
    | some b =>
      have hMem := h.mem_namingOrder (slotOf_of_slotsNamed hAt)
      exact absurd ((hHolds b).mpr hAt) (List.find?_eq_none.mp hFound b hMem)

end PlainlyNamed

theorem Grounded.between_iff {t : Tree} (h : t.Grounded) {s f g : Nat} {inner : List Nat}
    (hChain : t.chain s = inner ++ t.chain f) (hInner : ∀ q ∈ inner, f < q) :
    t.Between s f g ↔ g ∈ inner ∧ t.isFunctionScope g = true := by
  constructor
  · rintro ⟨hg, hFunction, hNe, hf⟩
    refine ⟨?_, hFunction⟩
    rw [hChain, List.mem_append] at hg
    rcases hg with hg | hg
    · exact hg
    · have := h.le_of_mem_chain hg
      have := h.le_of_mem_chain hf
      omega
  · rintro ⟨hg, hFunction⟩
    have hLt := hInner g hg
    have hgs : g ∈ t.chain s := hChain ▸ List.mem_append_left _ hg
    have hfs : f ∈ t.chain s := hChain ▸ List.mem_append_right _ (self_mem_chain t f)
    refine ⟨hgs, hFunction, Nat.ne_of_gt hLt, ?_⟩
    -- What is inside `g` has a larger number than `g`, so `f` is not there.
    obtain ⟨inside, hInside, hLarger⟩ := h.chain_suffix hgs
    rw [hInside, List.mem_append] at hfs
    rcases hfs with hfs | hfs
    · have := hLarger f hfs
      omega
    · exact hfs

theorem lookupChain_eq_ok {t : Tree} {s b : Nat} {name : String} (h : t.lookupChain s name = .ok b) :
    ∃ r ∈ t.chain s, b ∈ t.visible r ∧ t.identifier? b = some name := by
  have hNearest : t.nearest? s name = some b := by
    rw [lookupChain] at h
    cases hCheck : t.checkScope s with
    | error e => simp [hCheck, bind, Except.bind] at h
    | ok u =>
      simp only [hCheck, bind, Except.bind] at h
      split at h
      · cases h
        assumption
      · cases h
  obtain ⟨r, hr, hNamed⟩ := List.exists_of_findSome?_eq_some hNearest
  exact ⟨r, hr, mem_of_named? hNamed⟩

namespace PlainlyNamed

variable {t : Tree} {s f b : Nat} {name target : String}

theorem function_mem_chain (h : t.PlainlyNamed) (hLookup : t.lookupChain s name = .ok b)
    (hSlot : t.SlotOf f b) : f ∈ t.chain s ∧ t.isFunctionScope f = true ∧ t.slotName b = name := by
  obtain ⟨r, hr, hVisible, hName⟩ := lookupChain_eq_ok hLookup
  obtain ⟨x, hx, _, rfl⟩ := hSlot
  obtain ⟨e, he⟩ := h.owned r b hVisible
  obtain rfl : _ = x := Option.some.inj (he.symm.trans hx)
  have hPlaced : r < t.scopes.size := h.placed b _ hx
  refine ⟨h.chain_trans (h.functionScope_mem_chain hPlaced) hr, h.isFunctionScope_functionScope hPlaced, ?_⟩
  rw [slotName, hName, Option.getD_some]

theorem unoccupied_iff (h : t.PlainlyNamed) {g k : Nat} (hName : IsPlain name) :
    (∀ c, t.SlotOf g c → t.target? c ≠ some (numbered name k)) ↔ (t.slotsNamed g name)[k]? = none := by
  rw [Option.eq_none_iff_forall_ne_some]
  constructor
  · intro hFree c hc
    obtain ⟨hSlot, hTarget⟩ := (h.target?_eq_numbered_iff hName).mpr hc
    exact hFree c hSlot hTarget
  · intro hNone c hSlot hTarget
    exact hNone c ((h.target?_eq_numbered_iff hName).mp ⟨hSlot, hTarget⟩)

theorem idxOf_slotsNamed (h : t.PlainlyNamed) {k : Nat} (hb : (t.slotsNamed f name)[k]? = some b) :
    (t.slotsNamed f name).idxOf b = k := by
  have hNodup : (t.slotsNamed f name).Nodup := h.nodup_namingOrder.filter _
  obtain ⟨hk, rfl⟩ := List.getElem?_eq_some_iff.mp hb
  exact hNodup.idxOf_getElem k hk

/-- No inner function has a slot with the target of a variable exactly if each of them has at most as
many slots of the name as come before the variable in its own function. -/
theorem free_iff (h : t.PlainlyNamed) (hLookup : t.lookupChain s name = .ok b) (hSlot : t.SlotOf f b)
    (hTarget : t.target? b = some target) :
    (∀ g, t.Between s f g → ∀ c, t.SlotOf g c → t.target? c ≠ some target) ↔
      ∀ g, t.Between s f g → (t.slotsNamed g name).length ≤ (t.slotsNamed f name).idxOf b := by
  obtain ⟨_, _, rfl⟩ := h.function_mem_chain hLookup hSlot
  obtain ⟨k, hk, hNumber⟩ := h.exists_number hSlot
  obtain rfl := Option.some.inj (hTarget.symm.trans hNumber)
  rw [h.idxOf_slotsNamed hk]
  refine forall_congr' fun g => imp_congr_right fun _ => ?_
  rw [h.unoccupied_iff (h.plain f b hSlot), List.getElem?_eq_none_iff]

/-- The emitted name denotes the variable exactly if no inner function has a slot with that name. -/
theorem denoted?_eq_iff (h : t.PlainlyNamed) (hLookup : t.lookupChain s name = .ok b) (hSlot : t.SlotOf f b)
    (hTarget : t.target? b = some target) :
    t.denoted? s target = some b ↔
      ∀ g, t.Between s f g → ∀ c, t.SlotOf g c → t.target? c ≠ some target := by
  obtain ⟨hf, hFunction, rfl⟩ := h.function_mem_chain hLookup hSlot
  have hName := h.plain f b hSlot
  obtain ⟨k, hk, hNumber⟩ := h.exists_number hSlot
  obtain rfl := Option.some.inj (hTarget.symm.trans hNumber)
  obtain ⟨inner, hChain, hInner⟩ := h.chain_suffix hf
  simp only [h.between_iff hChain hInner, h.unoccupied_iff hName, denoted?, h.find?_holder hName, hChain,
    List.filter_append, List.findSome?_append]
  constructor
  · rintro hDenoted g ⟨hg, hgFunction⟩
    cases hFound : (inner.filter t.isFunctionScope).findSome? fun g => (t.slotsNamed g (t.slotName b))[k]? with
    | none => exact List.findSome?_eq_none_iff.mp hFound g (List.mem_filter.mpr ⟨hg, hgFunction⟩)
    | some c =>
      -- A slot that is found further in belongs to another function than `b`.
      rw [hFound, Option.some_or] at hDenoted
      obtain rfl := Option.some.inj hDenoted
      obtain ⟨g', hg', hc⟩ := List.exists_of_findSome?_eq_some hFound
      have hLt := hInner g' (List.mem_filter.mp hg').1
      have hEq := (slotOf_of_slotsNamed hc).function_eq hSlot
      omega
  · intro hFree
    have hNone : (inner.filter t.isFunctionScope).findSome?
        (fun g => (t.slotsNamed g (t.slotName b))[k]?) = none := by
      refine List.findSome?_eq_none_iff.mpr fun g hg => ?_
      exact hFree g (List.mem_filter.mp hg)
    obtain ⟨outer, hOuter⟩ := t.exists_chain_eq_cons f
    rw [hNone, Option.none_or, hOuter, List.filter_cons_of_pos hFunction, List.findSome?_cons, hk]

end PlainlyNamed

/-! ## Plain documents -/

theorem Complete.names {t u : Tree} (h : t.Complete) (hNames : ReflTransGen Naming t u) : u.Complete := by
  induction hNames with
  | refl => exact h
  | tail _ hStep ih =>
    cases hStep with
    | assign candidate hBinding hPending =>
      intro b x hx
      rw [getElem?_setTarget] at hx
      rw [visible_setTarget]
      split at hx
      · obtain ⟨y, hy, rfl⟩ := Option.map_eq_some_iff.mp hx
        exact ih b y hy
      · exact ih b x hx

theorem names_slotName {t u : Tree} (h : ReflTransGen Naming t u) (b : Nat) : u.slotName b = t.slotName b := by
  rw [slotName, (names_sameView h).identifier, slotName]

theorem names_slotsNamed {t u : Tree} (h : ReflTransGen Naming t u) (f : Nat) (name : String) :
    u.slotsNamed f name = t.slotsNamed f name := by
  have hView := names_sameView h
  have hOrder : u.namingOrder = t.namingOrder := by
    rw [namingOrder, namingOrder, hView.frame.functionScopes, funext hView.allocationOrder]
  have hWants : u.wants f name = t.wants f name := by
    funext b
    rw [Bool.eq_iff_iff, wants_iff, wants_iff, names_slotOf h, names_slotName h]
  rw [slotsNamed, slotsNamed, hOrder, hWants]

end Tree

/-- A declared slot has no target, no preference and no dollar sign in its name. -/
def BindingDecl.Plain : BindingDecl → Prop
  | .linked .. => True
  | .var identifier storage _ fixed desired _ =>
    ∀ c, StorageClass.parse? storage = some c → c.isFunctionSlot = true →
      fixed = none ∧ desired = none ∧ ∀ name, identifier = some name → '$' ∉ name.toList

namespace Document

open TreeLowering.Tree Edit

def Plain (d : Document) : Prop := ∀ scope ∈ d.scopes, ∀ declared ∈ scope.bindings, declared.Plain

theorem Plain.attached {d : Document} (h : d.Plain) {registry : Registry} {extra : List String}
    {container : String} {globals attached : Tree}
    (hGlobals : Tree.ofGlobals registry extra container = .ok globals)
    (hAttach : ScopeDecl.attachAll d.scopes globals = .ok () attached) (f : Nat) : attached.PlainSlots f := by
  rintro b ⟨x, hx, hStorage, _⟩
  obtain ⟨s, i, scope, identifier, storage, access, fixed, desired, container, v, hScope, _, hDeclared, hVar,
    hIdentifier, hParse, _, _, hTarget⟩ := ScopeDecl.slot_declared hGlobals hAttach hx hStorage
  rw [hVar] at hStorage
  obtain ⟨rfl, rfl, hDollar⟩ :=
    h scope (List.mem_of_getElem? hScope) _ (List.mem_of_getElem? hDeclared) v.storage hParse hStorage
  have hEntry : attached.entryAt? b = some (.var v) := by rw [entryAt?, hx, Option.map_some, hVar]
  refine ⟨?_, v, hEntry, hTarget⟩
  have hName : attached.slotName b = identifier.getD anonymousCandidate := by
    rw [slotName, identifier?, hEntry, ← hIdentifier]
    rfl
  rw [hName]
  cases identifier with
  | none => exact .inr rfl
  | some name => exact .inl (hDollar name rfl)

theorem Plain.plainlyNamed {d : Document} (h : d.Plain) {registry : Registry} {options : Options} {t : Tree}
    (hTree : d.scopeTree registry options = .ok t) : t.PlainlyNamed := by
  obtain ⟨globals, attached, hGlobals, hAttach, _, hAllocate⟩ := scopeTree_eq_ok hTree
  have hNames := after_of_ok hAllocate ▸ allocate_within attached
  obtain ⟨hWell, hComplete⟩ := ScopeDecl.attached_wellFormed hGlobals hAttach
  have hPlain f := h.attached hGlobals hAttach f
  refine ⟨hWell.names hNames, hComplete.names hNames, ?_, ?_⟩
  · intro f b hSlot
    rw [names_slotName hNames]
    exact (hPlain f b ((names_slotOf hNames).mp hSlot)).1
  · intro f name k b hb
    rw [names_slotsNamed hNames] at hb
    exact target?_of_allocate hWell (hPlain f) hAllocate hb

end Document

open TreeLowering.Tree in
/-- In a plain document a slot that a name resolves to is captured by no function between the scope
and its own exactly if each of these has at most as many slots of that name as come before it in its
own function; then, and only then, its emitted name denotes it. -/
theorem uncaptured_iff_slots_le {d : Document} {registry : Registry} {options : Options} {t : Tree}
    (h : d.scopeTree registry options = .ok t) (hPlain : d.Plain) {s b f : Nat} {name target : String}
    (hLookup : t.lookupChain s name = .ok b) (hSlot : t.SlotOf f b) (hTarget : t.target? b = some target) :
    ((∀ g, t.Between s f g → ∀ c, t.SlotOf g c → t.target? c ≠ some target) ↔
        ∀ g, t.Between s f g → (t.slotsNamed g name).length ≤ (t.slotsNamed f name).idxOf b) ∧
      (t.denoted? s target = some b ↔
        ∀ g, t.Between s f g → (t.slotsNamed g name).length ≤ (t.slotsNamed f name).idxOf b) := by
  have hNamed := hPlain.plainlyNamed h
  have hFree := hNamed.free_iff hLookup hSlot hTarget
  exact ⟨hFree, (hNamed.denoted?_eq_iff hLookup hSlot hTarget).trans hFree⟩

theorem BindingDecl.plain_plainLocal {name : String} (h : '$' ∉ name.toList) : (plainLocal name).Plain := by
  rintro c - -
  refine ⟨rfl, rfl, ?_⟩
  rintro n ⟨⟩
  exact h

/-- A local `x` below another one, and a function inside whose own `x` is in a block further in. -/
def renamedOuter : Document where
  scopes := [⟨0, .function, [.plainLocal "x"]⟩, ⟨1, .block, [.plainLocal "x"]⟩, ⟨2, .function, []⟩,
    ⟨3, .block, [.plainLocal "x"]⟩]
  program := ⟨[], 1⟩

def renamedOuterTree : Tree where
  scopes := #[⟨.global, none, []⟩, ⟨.function, some 0, [0]⟩, ⟨.block, some 1, [1]⟩,
    ⟨.function, some 2, []⟩, ⟨.block, some 3, [2]⟩]
  bindings := #[⟨1, .var ((Variable.ofLocal "x").withTarget "x")⟩,
    ⟨2, .var ((Variable.ofLocal "x").withTarget "x$1")⟩, ⟨4, .var ((Variable.ofLocal "x").withTarget "x")⟩]

theorem renamed_outer_is_denoted :
    renamedOuter.scopeTree .empty {} = .ok renamedOuterTree ∧ renamedOuterTree.lookupChain 3 "x" = .ok 1 ∧
      renamedOuterTree.denoted? 3 "x$1" = some 1 := by
  have hTree : renamedOuter.scopeTree .empty {} = .ok renamedOuterTree := by rfl
  have hLookup : renamedOuterTree.lookupChain 3 "x" = .ok 1 := by rfl
  have hPlain : renamedOuter.Plain := by
    have hLocal : (BindingDecl.plainLocal "x").Plain := BindingDecl.plain_plainLocal (by decide)
    simpa [renamedOuter, Document.Plain] using hLocal
  refine ⟨hTree, hLookup, ?_⟩
  refine (uncaptured_iff_slots_le hTree hPlain hLookup (f := 1) ⟨_, rfl, rfl, rfl⟩ rfl).2.mpr ?_
  rintro g ⟨hg, hFunction, hNe, hf⟩
  have hChain : renamedOuterTree.chain 3 = [3, 2, 1, 0] := by rfl
  rw [hChain] at hg
  simp only [List.mem_cons, List.not_mem_nil, or_false] at hg
  rcases hg with rfl | rfl | rfl | rfl
  · decide
  · cases hFunction
  · exact absurd rfl hNe
  · revert hf
    decide

/-- A local `x` of a unit, and a function in it with an `x` of its own in a block only. -/
def hiddenInner : Document where
  scopes := [⟨0, .function, [.plainLocal "x"]⟩, ⟨1, .function, []⟩, ⟨2, .block, [.plainLocal "x"]⟩]
  program := ⟨[.define "f" (.mk [] (.returnValue (.identifier "x" (some (.named 1 "x")) none) none) 2) none], 1⟩

def hiddenInnerTree : Tree where
  scopes := #[⟨.global, none, []⟩, ⟨.function, some 0, [0]⟩, ⟨.function, some 1, []⟩,
    ⟨.block, some 2, [1]⟩]
  bindings := #[⟨1, .var ((Variable.ofLocal "x").withTarget "x")⟩,
    ⟨3, .var ((Variable.ofLocal "x").withTarget "x")⟩]

/-- The `x` of the block is in force in the whole function, and captures the one of the unit that the
function returns. -/
theorem hidden_inner_captures :
    hiddenInner.scopeTree .empty {} = .ok hiddenInnerTree ∧ hiddenInner.Plain ∧
      hiddenInnerTree.lookupChain 2 "x" = .ok 0 ∧ hiddenInnerTree.SlotOf 1 0 ∧
      hiddenInnerTree.target? 0 = some "x" ∧
      ¬(∀ g, hiddenInnerTree.Between 2 1 g → ∀ c, hiddenInnerTree.SlotOf g c →
        hiddenInnerTree.target? c ≠ some "x") ∧
      hiddenInnerTree.denoted? 2 "x" = some 1 := by
  refine ⟨by rfl, ?_, by rfl, ⟨_, rfl, rfl, rfl⟩, rfl, ?_, by decide⟩
  · have hLocal : (BindingDecl.plainLocal "x").Plain := BindingDecl.plain_plainLocal (by decide)
    simpa [hiddenInner, Document.Plain] using hLocal
  · intro hFree
    exact hFree 2 ⟨by decide, rfl, by decide, by decide⟩ 1 ⟨_, rfl, rfl, rfl⟩ rfl

end TreeLowering
