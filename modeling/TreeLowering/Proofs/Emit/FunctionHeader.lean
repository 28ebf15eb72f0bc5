import Mathlib.Data.List.Sort
import TreeLowering.Proofs.Emit.Introduction
import TreeLowering.Proofs.Scope.Handles

/-! # Parameters and declared locals of a function

Where a document leaves the naming of a function's slots to allocation, the parameters that the
function takes and the locals that it declares have different names, and none is a reserved word. -/
namespace TreeLowering
set_option autoImplicit false

theorem exists_of_mem_forall₂ {α β : Type} {R : α → β → Prop} {xs : List α} {ys : List β}
    (h : List.Forall₂ R xs ys) {y : β} (hy : y ∈ ys) : ∃ x ∈ xs, R x y := by
  induction h with
  | nil => cases hy
  | @cons x z xs ys hFirst _ ih =>
    cases hy with
    | head => exact ⟨x, List.mem_cons_self, hFirst⟩
    | tail _ hRest =>
      obtain ⟨x', hx', hR⟩ := ih hRest
      exact ⟨x', List.mem_cons_of_mem x hx', hR⟩

/-- What stands for different things that it tells apart is itself different. -/
theorem nodup_of_forall₂ {α β : Type} {R : α → β → Prop} {xs : List α} {ys : List β}
    (h : List.Forall₂ R xs ys) (hNodup : xs.Nodup) (hApart : ∀ x x' y, R x y → R x' y → x = x') : ys.Nodup := by
  induction h with
  | nil => exact List.nodup_nil
  | @cons x y xs ys hFirst hRest ih =>
    rw [List.nodup_cons] at hNodup
    apply List.nodup_cons.mpr
    constructor
    · intro hy
      obtain ⟨x', hx', hR⟩ := exists_of_mem_forall₂ hRest hy
      exact hNodup.1 (hApart x x' y hFirst hR ▸ hx')
    · exact ih hNodup.2

/-! ## Slots of a function -/

namespace Tree

variable {t : Tree} {f b : Nat}

theorem hoisted_eq_filter (t : Tree) (f : Nat) :
    t.hoisted f = (t.allocationOrder f).filter fun b => (t.entryAt? b).map Entry.storage == some .local := by
  rw [hoisted, allocationOrder, List.filter_append, List.filter_flatMap]
  rfl

theorem WellFormed.nodup_hoisted (h : t.WellFormed) (hf : f ∈ t.functionScopes) : (t.hoisted f).Nodup := by
  have hOrder : (t.allocationOrder f).Nodup := (List.nodup_flatMap.mp h.nodup_namingOrder).1 f hf
  rw [hoisted_eq_filter]
  exact hOrder.filter _

theorem WellFormed.slotOf_of_mem {s : Nat} (h : t.WellFormed) (hb : b ∈ t.visible s) {storage : StorageClass}
    (hStorage : (t.entryAt? b).map Entry.storage = some storage) (hSlot : storage.isFunctionSlot = true) :
    t.SlotOf (t.functionScope s) b := by
  obtain ⟨e, he⟩ := h.owned s b hb
  refine ⟨⟨s, e⟩, he, ?_, rfl⟩
  rw [entryAt?, he] at hStorage
  cases hStorage
  exact hSlot

-- A slot is no alias, so the target that lowering reads is its own.
theorem WellFormed.target?_of_targetIdentifier (h : t.WellFormed) {name : String} (hSlot : t.SlotOf f b)
    (hTarget : t.targetIdentifier b = .ok name) : t.target? b = some name := by
  obtain ⟨v, hReads⟩ := h.readsThrough hSlot.lt
  obtain ⟨⟨owner, e⟩, hx, hStorage, _⟩ := hSlot
  have hEntry : t.entryAt? b = some e := by rw [entryAt?, hx, Option.map_some]
  cases e with
  | linked n link => cases hStorage
  | var w =>
    have hEnd : t.resolve b = b := by
      rw [h.resolve_eq, link?, hEntry]
      rfl
    have hBehind := hReads.behind
    rw [hEnd, hEntry] at hBehind
    cases hBehind
    rw [target?, hEntry, Option.bind_some, Entry.target?, (hReads.target name).mp hTarget]
    rfl

/-- The binding is a slot of the function with that storage class and that target. -/
structure Occupies (t : Tree) (f : Nat) (storage : StorageClass) (b : Nat) (name : String) : Prop where
  slot : t.SlotOf f b
  storage_eq : (t.entryAt? b).map Entry.storage = some storage
  target : t.target? b = some name

theorem WellFormed.occupies (h : t.WellFormed) {s : Nat} (hb : b ∈ t.visible s) {storage : StorageClass}
    {name : String} (hStorage : (t.entryAt? b).map Entry.storage = some storage)
    (hSlot : storage.isFunctionSlot = true) (hTarget : t.targetIdentifier b = .ok name) :
    t.Occupies (t.functionScope s) storage b name := by
  have hOwn := h.slotOf_of_mem hb hStorage hSlot
  exact ⟨hOwn, hStorage, h.target?_of_targetIdentifier hOwn hTarget⟩

theorem WellFormed.occupies_of_hoisted (h : t.WellFormed) (hFunction : t.isFunctionScope f = true)
    (hb : b ∈ t.hoisted f) {name : String} (hTarget : t.targetIdentifier b = .ok name) :
    t.Occupies f .local b name := by
  have hLocal : ∀ s, b ∈ t.locals s → t.Occupies (t.functionScope s) .local b name := by
    intro s hs
    obtain ⟨hVisible, hStorage⟩ := List.mem_filter.mp hs
    exact h.occupies hVisible (beq_iff_eq.mp hStorage) rfl hTarget
  rcases List.mem_append.mp hb with hOwn | hBlock
  · rw [← functionScope_of_function hFunction]
    exact hLocal f hOwn
  · obtain ⟨s, hs, hMem⟩ := List.mem_flatMap.mp hBlock
    rw [← (mem_ownedBlocks.mp hs).2.2]
    exact hLocal s hMem

/-- The scope itself binds the name to an argument. -/
def Takes (t : Tree) (f : Nat) (name : String) : Prop :=
  ∃ b v, t.named? f name = some b ∧ t.entryAt? b = some (.var v) ∧ v.storage = .argument

theorem WellFormed.occupies_of_takes (h : t.WellFormed) (hFunction : t.isFunctionScope f = true)
    {written name : String} (hTakes : t.Takes f written)
    (hTarget : ∀ b, t.named? f written = some b → t.targetIdentifier b = .ok name) :
    ∃ b, t.named? f written = some b ∧ t.Occupies f .argument b name := by
  obtain ⟨b, v, hNamed, hEntry, hStorage⟩ := hTakes
  have hArgument : (t.entryAt? b).map Entry.storage = some .argument := by
    rw [hEntry, Option.map_some, Entry.storage, hStorage]
  refine ⟨b, hNamed, ?_⟩
  rw [← functionScope_of_function hFunction]
  exact h.occupies (mem_of_named? hNamed).1 hArgument rfl (hTarget b hNamed)

end Tree

namespace Document

open TreeLowering.Tree Emit

/-- The document fixes the target of no slot of the function. -/
def LeavesOpen (d : Document) (t : Tree) (f : Nat) : Prop := ∀ b name, t.SlotOf f b → ¬d.Fixes t b name

variable {d : Document} {registry : Registry} {options : Options} {t : Tree} {f : Nat}

theorem LeavesOpen.eq_of_occupies {b c : Nat} {name : String} {storage storage' : StorageClass}
    (hOpen : d.LeavesOpen t f) (h : d.scopeTree registry options = .ok t) (hb : t.Occupies f storage b name)
    (hc : t.Occupies f storage' c name) : b = c := by
  by_contra hNe
  exact hOpen b name hb.slot (fixes_of_shared h hNe hb.slot hc.slot hb.target hc.target)

theorem LeavesOpen.not_reserved {b : Nat} {name : String} {storage : StorageClass} (hOpen : d.LeavesOpen t f)
    (h : d.scopeTree registry options = .ok t) (hb : t.Occupies f storage b name) : isReserved name = false := by
  obtain ⟨attached, hPrepares⟩ := exists_prepares h
  obtain hFixes | ⟨candidate, hOpens⟩ := hPrepares.fixes_or_opens hb.slot hb.target
  · exact absurd hFixes (hOpen b name hb.slot)
  · rw [← Bool.not_eq_true]
    intro hWord
    exact hPrepares.not_bars hOpens hb.target (.inl hWord)

/-- Names of different arguments and names of different locals are all different. -/
theorem LeavesOpen.nodup_append (hOpen : d.LeavesOpen t f) (h : d.scopeTree registry options = .ok t)
    {written header names : List String} {locals : List Nat} (hWritten : written.Nodup) (hOnce : locals.Nodup)
    (hHeader : List.Forall₂ (fun source name => ∃ b, t.named? f source = some b ∧ t.Occupies f .argument b name)
      written header)
    (hNames : List.Forall₂ (t.Occupies f .local) locals names) : (header ++ names).Nodup := by
  apply List.Nodup.append
  · refine nodup_of_forall₂ hHeader hWritten ?_
    rintro source source' name ⟨b, hNamed, hb⟩ ⟨c, hNamed', hc⟩
    obtain rfl := hOpen.eq_of_occupies h hb hc
    exact Option.some.inj ((mem_of_named? hNamed).2.symm.trans (mem_of_named? hNamed').2)
  · refine nodup_of_forall₂ hNames hOnce ?_
    intro b c name hb hc
    exact hOpen.eq_of_occupies h hb hc
  · intro name hInHeader hInNames
    obtain ⟨source, _, b, _, hb⟩ := exists_of_mem_forall₂ hHeader hInHeader
    obtain ⟨c, _, hc⟩ := exists_of_mem_forall₂ hNames hInNames
    -- One binding is not both an argument and a local.
    obtain rfl := hOpen.eq_of_occupies h hb hc
    cases hb.storage_eq.symm.trans hc.storage_eq

/-! ## The emitted function -/

/-- A function whose slots are named by allocation, and which binds `other` and its different
parameters to arguments, is emitted with a header and a line of locals whose names are all different
and not reserved. The line names what is visible with local storage in the function and then in its
blocks, the blocks in ascending order. -/
theorem header_and_locals_distinct (h : d.scopeTree registry options = .ok t) (runtime : Contract)
    (hFunction : t.isFunctionScope f = true) (hOpen : d.LeavesOpen t f) {params : List String}
    (hDistinct : params.Nodup) (hOther : Setting.otherName ∉ params)
    (hTakes : ∀ name ∈ Setting.otherName :: params, t.Takes f name) :
    ∃ (header names : List String) (blocks : List Nat),
      (∀ lines, functionBody ⟨t, runtime⟩ params f lines = headed header (do varLine names; lines)) ∧
      List.Forall₂ (fun written name => ∃ b, t.named? f written = some b ∧ t.targetIdentifier b = .ok name)
        (Setting.otherName :: params) header ∧
      List.Forall₂ (fun b name => t.targetIdentifier b = .ok name)
        ((t.visible f ++ blocks.flatMap t.visible).filter fun b => (t.entryAt? b).map Entry.storage == some .local)
        names ∧
      blocks.Pairwise (· < ·) ∧
      (∀ s, s ∈ blocks ↔ s < t.scopes.size ∧ t.isFunctionScope s = false ∧ t.functionScope s = f) ∧
      (header ++ names).Nodup ∧ ∀ name ∈ header ++ names, isReserved name = false := by
  obtain ⟨hFinished, _⟩ := scopeTree_finished h
  have hWell := hFinished.toWellFormed
  obtain ⟨_, _, hNamed, _⟩ := hTakes _ List.mem_cons_self
  have hSize := lt_of_mem_visible (mem_of_named? hNamed).1
  have hf : t.containsScope f = true := (containsScope_iff t f).mpr hSize
  obtain ⟨header, hHeader, hTargets⟩ := Setting.parameterNames_targets (g := ⟨t, runtime⟩) hFinished hf params
  obtain ⟨names, hNames, hLocals⟩ := Setting.localNames_targets (g := ⟨t, runtime⟩) hFinished hf
  rw [functionScope_of_function hFunction] at hLocals
  have hBound := (List.forall₂_and_left _ _).mpr ⟨hTakes, hTargets⟩
  have hArguments : List.Forall₂ (fun written name => ∃ b, t.named? f written = some b ∧
      t.Occupies f .argument b name) (Setting.otherName :: params) header :=
    hBound.imp fun _ _ hName => hWell.occupies_of_takes hFunction hName.1 hName.2
  have hDeclared : List.Forall₂ (t.Occupies f .local) (t.hoisted f) names :=
    ((List.forall₂_and_left _ _).mpr ⟨fun _ hb => hb, hLocals⟩).imp fun _ _ hName =>
      hWell.occupies_of_hoisted hFunction hName.1 hName.2
  refine ⟨header, names, t.ownedBlocks f, ?_, ?_, ?_, ?_, fun s => mem_ownedBlocks, ?_, ?_⟩
  · intro lines
    rw [Setting.functionBody_eq hHeader, Setting.localAllocation_eq hNames]
  · refine hBound.imp ?_
    rintro written name ⟨⟨b, _, hb, _⟩, hTarget⟩
    exact ⟨b, hb, hTarget b hb⟩
  · rwa [hoisted_eq_filter] at hLocals
  · exact List.pairwise_lt_range.filter _
  · have hOnce := hWell.nodup_hoisted (mem_functionScopes.mpr ⟨hSize, hFunction⟩)
    exact hOpen.nodup_append h (List.nodup_cons.mpr ⟨hOther, hDistinct⟩) hOnce hArguments hDeclared
  · intro name hName
    rcases List.mem_append.mp hName with hHead | hLine
    · obtain ⟨_, _, b, _, hb⟩ := exists_of_mem_forall₂ hArguments hHead
      exact hOpen.not_reserved h hb
    · obtain ⟨b, _, hb⟩ := exists_of_mem_forall₂ hDeclared hLine
      exact hOpen.not_reserved h hb

/-- A script with an argument that wants a reserved word, and with a local of one name in the
function and in a block. -/
def shadowingScript : Document where
  scopes := [⟨0, .function, []⟩,
    ⟨1, .function, [.var (some "other") "ARGUMENT" "BARE" none none none,
      .var (some "new") "ARGUMENT" "BARE" none none none, .plainLocal "x"]⟩,
    ⟨2, .block, [.plainLocal "x"]⟩]
  program := ⟨[], 1⟩

def shadowingScriptTree : Tree where
  scopes := #[⟨.global, none, []⟩, ⟨.function, some 0, []⟩, ⟨.function, some 1, [0, 1, 2]⟩,
    ⟨.block, some 2, [3]⟩]
  bindings := #[⟨2, .var ((Variable.ofArgument "other").withTarget "other")⟩,
    ⟨2, .var ((Variable.ofArgument "new").withTarget "new$1")⟩,
    ⟨2, .var ((Variable.ofLocal "x").withTarget "x")⟩, ⟨3, .var ((Variable.ofLocal "x").withTarget "x$1")⟩]

theorem shadowing_script_is_distinct :
    shadowingScript.scopeTree .empty {} = .ok shadowingScriptTree ∧
      shadowingScript.LeavesOpen shadowingScriptTree 2 ∧
      (∀ lines, functionBody ⟨shadowingScriptTree, {}⟩ ["new"] 2 lines =
        headed ["other", "new$1"] (do varLine ["x", "x$1"]; lines)) ∧
      ["other", "new$1", "x", "x$1"].Nodup ∧
      ∀ name ∈ ["other", "new$1", "x", "x$1"], isReserved name = false := by
  have hTree : shadowingScript.scopeTree .empty {} = .ok shadowingScriptTree := by rfl
  have hOpen : shadowingScript.LeavesOpen shadowingScriptTree 2 := by
    rintro b name _ ⟨_, _, _, _, _, s, i, scope, hScope, _, hDeclared⟩
    rcases s with _ | _ | _ | s <;> cases hScope <;> rcases i with _ | _ | _ | i <;> cases hDeclared
  have hTakes : ∀ name ∈ [Setting.otherName, "new"], shadowingScriptTree.Takes 2 name := by
    simp only [List.forall_mem_cons]
    exact ⟨⟨0, _, rfl, rfl, rfl⟩, ⟨1, _, rfl, rfl, rfl⟩, by simp⟩
  obtain ⟨header, names, blocks, hBody, hHeader, hNames, hAscending, hBlocks, hNodup, hReserved⟩ :=
    header_and_locals_distinct hTree {} rfl hOpen (List.nodup_singleton "new") (by decide) hTakes
  obtain rfl : blocks = [3] := by
    refine hAscending.eq_of_mem_iff (List.pairwise_singleton _ 3) fun s => ?_
    rw [hBlocks, List.mem_singleton]
    constructor
    · rintro ⟨hSize, hBlock, hOwner⟩
      rcases s with _ | _ | _ | _ | s
      · cases hBlock
      · cases hBlock
      · cases hBlock
      · rfl
      · exact absurd (show s + 4 < 4 from hSize) (by omega)
    · rintro rfl
      exact ⟨by decide, rfl, rfl⟩
  obtain rfl : header = ["other", "new$1"] := by
    rcases hHeader with _ | ⟨⟨b, hb, hFirst⟩, _ | ⟨⟨c, hc, hSecond⟩, _ | _⟩⟩
    cases hb
    cases hc
    cases hFirst
    cases hSecond
    rfl
  obtain rfl : names = ["x", "x$1"] := by
    rcases hNames with _ | ⟨hFirst, _ | ⟨hSecond, _ | _⟩⟩
    cases hFirst
    cases hSecond
    rfl
  exact ⟨hTree, hOpen, hBody, hNodup, hReserved⟩

end Document
end TreeLowering
