import TreeLowering.Proofs.Scope.Capture
import TreeLowering.Proofs.Scope.Collision
import TreeLowering.Proofs.Scope.Provenance

/-! # Slots that shadow the handles of a module

A module declares a handle for the globals and one for the helpers, under names that the options give.
Allocation does not know these names: a slot that wants one of them gets it, unless the name is reserved
or fixed for another slot of the function. -/
namespace TreeLowering
set_option autoImplicit false

open Relation

/-- The names that a module declares for its globals and its helpers. -/
def Contract.handles (r : Contract) : List String := [r.globalsIdentifier, r.runtimeIdentifier]

namespace Tree

open Edit

variable {t u : Tree} {f b : Nat} {candidate : String}

/-! ## A wanted name is used -/

/-- A slot of `f` that is to be named after the candidate. -/
structure Awaits (t : Tree) (f b : Nat) (candidate : String) : Prop where
  slot : t.SlotOf f b
  pending : ∃ v desired, t.entryAt? b = some (.var v) ∧ v.target = .pending desired ∧
    candidateOf v = .ok candidate

theorem Awaits.target?_eq_none (h : t.Awaits f b candidate) : t.target? b = none := by
  obtain ⟨v, desired, hv, hPending, _⟩ := h.pending
  rw [target?, hv, Option.bind_some, Entry.target?, hPending]
  rfl

theorem names_usedTargets (h : ReflTransGen Naming t u) {name : String} (hUsed : name ∈ t.usedTargets f) :
    name ∈ u.usedTargets f := by
  obtain ⟨b, hSlot, hTarget⟩ := mem_usedTargets.mp hUsed
  exact mem_usedTargets.mpr ⟨b, (names_slotOf h).mpr hSlot, names_target?_eq h hTarget⟩

theorem Awaits.used_of_allocateOne (h : t.Awaits f b candidate) (hReserved : isReserved candidate = false)
    (hVisit : allocateOne b t = .ok () u) : candidate ∈ u.usedTargets f := by
  obtain ⟨w, wish, hw, hWish, hWanted⟩ := h.pending
  have hNames := after_of_ok hVisit ▸ allocateOne_within b t
  obtain ⟨rfl, hSettled⟩ | ⟨owner, v, desired, c, hBinding, _, hCandidate, rfl⟩ := allocateOne_eq_ok hVisit
  · obtain ⟨name, hName⟩ := hSettled w hw
    rw [hName] at hWish
    cases hWish
  · by_cases hUsed : candidate ∈ t.usedTargets f
    · exact names_usedTargets hNames hUsed
    · refine mem_usedTargets.mpr ⟨b, slotOf_setTarget.mpr h.slot, ?_⟩
      rw [target?_setTarget_self _ hBinding]
      -- The slot is named in `f`, after the candidate.
      obtain ⟨x, hx, hStorage, hFunction⟩ := h.slot
      obtain rfl : _ = x := Option.some.inj (hBinding.symm.trans hx)
      obtain rfl : v = w := by
        rw [entryAt?, hBinding] at hw
        cases hw
        rfl
      obtain rfl : c = candidate := Except.ok.inj (hCandidate.symm.trans hWanted)
      have hSlot : v.storage.isFunctionSlot = true := hStorage
      rw [chooseTarget, if_pos hSlot, hFunction, uniqueName_of_free hUsed hReserved]

theorem Awaits.used_of_forM {bs : List Nat} (h : t.Awaits f b candidate)
    (hReserved : isReserved candidate = false) (hb : b ∈ bs) (hRun : bs.forM allocateOne t = .ok () u) :
    candidate ∈ u.usedTargets f := by
  induction bs generalizing t with
  | nil => cases hb
  | cons x bs ih =>
    obtain ⟨_, w, hFirst, hRest⟩ := exists_of_run_eq_ok hRun
    by_cases hEq : x = b
    · subst hEq
      have hNames := after_of_ok hRest ▸ within_forM allocateOne_within bs w
      exact names_usedTargets hNames (h.used_of_allocateOne hReserved hFirst)
    · -- Until its turn the slot stays as it is.
      have hLater : b ∈ bs := by simpa [Ne.symm hEq] using hb
      refine ih ?_ hLater hRest
      obtain ⟨rfl, _⟩ | ⟨owner, v, desired, c, _, _, _, rfl⟩ := allocateOne_eq_ok hFirst
      · exact h
      · exact ⟨slotOf_setTarget.mpr h.slot, by rw [entryAt?_setTarget_of_ne _ hEq]; exact h.pending⟩

/-- From no scope a name denotes a slot exactly if no slot has it as its target. -/
theorem denoted?_eq_none_iff (hWell : t.WellFormed) (hComplete : t.Complete) {name : String} :
    (∀ s, t.denoted? s name = none) ↔ ∀ f b, t.SlotOf f b → t.target? b ≠ some name := by
  simp only [denoted?, List.findSome?_eq_none_iff, List.find?_eq_none, List.mem_filter, Bool.and_eq_true,
    isSlotOf_iff, beq_iff_eq, not_and]
  constructor
  · intro h f b hSlot
    -- The slot is among those of its function, which is the innermost one at its own scope.
    obtain ⟨x, hx, _, rfl⟩ := id hSlot
    have hOwner := hWell.placed b x hx
    have hFunction := hWell.isFunctionScope_functionScope hOwner
    exact h _ _ ⟨self_mem_chain t _, hFunction⟩ b (mem_namingOrder hWell.toGrounded hOwner (hComplete b x hx)) hSlot
  · intro h s f _ b _ hSlot
    exact h f b hSlot

end Tree

namespace Document

open TreeLowering.Tree Edit

/-- The document declares the slot `b` of `f` without a target; its candidate is the preferred name or
the identifier. -/
def Opens (d : Document) (t : Tree) (f b : Nat) (candidate : String) : Prop :=
  t.SlotOf f b ∧ ∃ identifier storage access desired container,
    d.DeclaresAt t b (.var identifier storage access none desired container) ∧
      candidate = (desired.or identifier).getD anonymousCandidate

/-- A slot of `f` that allocation is to name has got the name. -/
def Shadows (d : Document) (t : Tree) (f : Nat) (name : String) : Prop :=
  ∃ b candidate, d.Opens t f b candidate ∧ t.target? b = some name

/-- Allocation gives the name to no slot of `f`: it is a reserved word, or fixed for a slot of `f`. -/
def Bars (d : Document) (t : Tree) (f : Nat) (name : String) : Prop :=
  isReserved name = true ∨ ∃ b, t.SlotOf f b ∧ d.Fixes t b name

variable {d : Document} {t : Tree} {f b : Nat}

theorem DeclaresAt.unique (hWell : t.WellFormed) {x y : BindingDecl} (hx : d.DeclaresAt t b x)
    (hy : d.DeclaresAt t b y) : x = y := by
  obtain ⟨r, i, scope, hScope, hi, hDeclared⟩ := hx
  obtain ⟨s, j, scope', hScope', hj, hDeclared'⟩ := hy
  -- A binding is visible in one scope only, and there once.
  obtain rfl : r = s := by
    by_contra hNe
    exact hWell.disjoint_visible (by simpa using hNe) (List.mem_of_getElem? hi) (List.mem_of_getElem? hj)
  obtain rfl : i = j := (List.getElem?_inj (List.getElem?_eq_some_iff.mp hi).1 (hWell.once _)).mp (hi.trans hj.symm)
  obtain rfl : scope = scope' := Option.some.inj (hScope.symm.trans hScope')
  exact Option.some.inj (hDeclared.symm.trans hDeclared')

theorem Fixes.name_unique (hWell : t.WellFormed) {m n : String} (hm : d.Fixes t b m) (hn : d.Fixes t b n) :
    m = n := by
  obtain ⟨_, _, _, _, _, hx⟩ := hm
  obtain ⟨_, _, _, _, _, hy⟩ := hn
  cases hx.unique hWell hy
  rfl

theorem Opens.not_fixes (hWell : t.WellFormed) {candidate : String} (h : d.Opens t f b candidate)
    (name : String) : ¬d.Fixes t b name := by
  intro hFixes
  obtain ⟨_, _, _, _, _, _, hx, _⟩ := h
  obtain ⟨_, _, _, _, _, hy⟩ := hFixes
  cases hx.unique hWell hy

theorem Opens.candidate_unique (hWell : t.WellFormed) {m n : String} (hm : d.Opens t f b m)
    (hn : d.Opens t f b n) : m = n := by
  obtain ⟨_, _, _, _, _, _, hx, rfl⟩ := hm
  obtain ⟨_, _, _, _, _, _, hy, rfl⟩ := hn
  cases hx.unique hWell hy
  rfl

variable {registry : Registry} {options : Options}

/-- The tree before allocation. A slot has the target that the document fixes, or awaits its name. -/
structure Prepares (d : Document) (attached t : Tree) : Prop where
  allocated : allocate attached = .ok () t
  wellFormed : attached.WellFormed
  complete : attached.Complete
  slots : ∀ f b, t.SlotOf f b → (∃ name, d.Fixes t b name ∧ attached.target? b = some name) ∨
    ∃ candidate, d.Opens t f b candidate ∧ attached.Awaits f b candidate

theorem exists_prepares (h : d.scopeTree registry options = .ok t) : ∃ attached, d.Prepares attached t := by
  obtain ⟨globals, attached, hGlobals, hAttach, _, hAllocate⟩ := scopeTree_eq_ok h
  have hNames := after_of_ok hAllocate ▸ allocate_within attached
  obtain ⟨hWell, hComplete⟩ := ScopeDecl.attached_wellFormed hGlobals hAttach
  refine ⟨attached, hAllocate, hWell, hComplete, fun f b hSlot => ?_⟩
  have hBefore := (names_slotOf hNames).mp hSlot
  obtain ⟨x, hx, hStorage, _⟩ := id hBefore
  obtain ⟨s, i, scope, identifier, storage, access, fixed, desired, container, v, hScope, hi, hDeclared, hVar,
    hIdentifier, _, _, _, hTarget⟩ := ScopeDecl.slot_declared hGlobals hAttach hx hStorage
  have hEntry : attached.entryAt? b = some (.var v) := by rw [entryAt?, hx, Option.map_some, hVar]
  rw [← (names_sameView hNames).visible] at hi
  cases fixed with
  | some name =>
    refine .inl ⟨name,
      ⟨identifier, storage, access, desired, container, s, i, scope, hScope, hi, hDeclared⟩, ?_⟩
    rw [target?, hEntry, Option.bind_some, Entry.target?, hTarget]
    rfl
  | none =>
    rw [hVar] at hStorage
    have hSlotClass : v.storage.isFunctionSlot = true := hStorage
    refine .inr ⟨_,
      ⟨hSlot, identifier, storage, access, desired, container, ⟨s, i, scope, hScope, hi, hDeclared⟩, rfl⟩,
      hBefore, v, desired, hEntry, hTarget, ?_⟩
    rw [candidateOf, if_pos hSlotClass, hTarget, hIdentifier]
    rfl

namespace Prepares

variable {attached : Tree} (h : d.Prepares attached t)

include h

theorem names : ReflTransGen Naming attached t := after_of_ok h.allocated ▸ allocate_within attached

theorem finished : t.WellFormed ∧ t.Complete := ⟨h.wellFormed.names h.names, h.complete.names h.names⟩

theorem target?_of_fixes {name : String} (hSlot : t.SlotOf f b) (hFixes : d.Fixes t b name) :
    t.target? b = some name := by
  obtain ⟨fixed, hAgain, hBefore⟩ | ⟨candidate, hOpens, _⟩ := h.slots f b hSlot
  · rw [hFixes.name_unique h.finished.1 hAgain]
    exact names_target?_eq h.names hBefore
  · exact absurd hFixes (hOpens.not_fixes h.finished.1 name)

theorem fixes_or_opens {name : String} (hSlot : t.SlotOf f b) (hTarget : t.target? b = some name) :
    d.Fixes t b name ∨ ∃ candidate, d.Opens t f b candidate := by
  obtain ⟨fixed, hFixes, hBefore⟩ | ⟨candidate, hOpens, _⟩ := h.slots f b hSlot
  · obtain rfl := Option.some.inj ((names_target?_eq h.names hBefore).symm.trans hTarget)
    exact .inl hFixes
  · exact .inr ⟨candidate, hOpens⟩

theorem awaits {candidate : String} (hOpens : d.Opens t f b candidate) : attached.Awaits f b candidate := by
  obtain ⟨fixed, hFixes, _⟩ | ⟨c, hAgain, hAwaits⟩ := h.slots f b hOpens.1
  · exact absurd hFixes (hOpens.not_fixes h.finished.1 fixed)
  · rwa [hOpens.candidate_unique h.finished.1 hAgain]

theorem namedAfter {candidate name : String} (hOpens : d.Opens t f b candidate)
    (hTarget : t.target? b = some name) : NamedAfter candidate name := by
  obtain ⟨v, desired, hv, hPending, hCandidate⟩ := (h.awaits hOpens).pending
  obtain ⟨e, he, hName⟩ := Option.bind_eq_some_iff.mp hTarget
  cases e with
  | linked n link => cases hName
  | var w =>
    obtain ⟨v', hv', hFinishes⟩ := allocate_finishes h.allocated he
    cases hv.symm.trans hv'
    cases hFinishes with
    | kept =>
      rw [Entry.target?, hPending] at hName
      cases hName
    | named _ hCandidate' hChosen =>
      cases hCandidate.symm.trans hCandidate'
      cases hName
      exact hChosen

theorem not_bars {candidate name : String} (hOpens : d.Opens t f b candidate)
    (hTarget : t.target? b = some name) : ¬d.Bars t f name := by
  have hAwaits := h.awaits hOpens
  obtain ⟨hReserved, hOthers⟩ := names_fresh h.names hAwaits.slot hAwaits.target?_eq_none hTarget
  rintro (hWord | ⟨e, hSlot, hFixes⟩)
  · rw [hReserved] at hWord
    cases hWord
  · have hNe : e ≠ b := by
      rintro rfl
      exact hOpens.not_fixes h.finished.1 name hFixes
    exact hOthers e hNe hSlot (h.target?_of_fixes hSlot hFixes)

/-- A name that a slot wants and nothing bars is shadowed. -/
theorem shadows {name : String} (hOpens : d.Opens t f b name) (hFree : ¬d.Bars t f name) :
    d.Shadows t f name := by
  have hAwaits := h.awaits hOpens
  have hReserved : isReserved name = false := by
    rw [← Bool.not_eq_true]
    exact fun hWord => hFree (.inl hWord)
  have hVisited : b ∈ attached.namingOrder := by
    obtain ⟨x, hx, _⟩ := hAwaits.slot
    exact mem_namingOrder h.wellFormed.toGrounded (h.wellFormed.placed b x hx) (h.complete b x hx)
  have hRun := h.allocated
  rw [allocate_apply] at hRun
  -- The name is in use after the slot's turn, and no slot is fixed to it.
  obtain ⟨e, hSlot, hTarget⟩ := mem_usedTargets.mp (hAwaits.used_of_forM hReserved hVisited hRun)
  obtain hFixes | ⟨candidate, hAlso⟩ := h.fixes_or_opens hSlot hTarget
  · exact absurd (.inr ⟨e, hSlot, hFixes⟩) hFree
  · exact ⟨e, candidate, hAlso, hTarget⟩

end Prepares

/-- Only slots that are named after a handle get its name, where nothing bars it, and a handle is
shadowed if a slot wants it and nothing bars it. The text of a handle reaches the module's handle from
everywhere exactly if no function shadows it and no slot is fixed to it. -/
theorem handle_shadowed_where_wanted (h : d.scopeTree registry options = .ok t) :
    ∀ handle ∈ options.runtime.handles,
      (∀ f b candidate, d.Opens t f b candidate → t.target? b = some handle →
        NamedAfter candidate handle ∧ ¬d.Bars t f handle) ∧
      (∀ f b, d.Opens t f b handle → ¬d.Bars t f handle → d.Shadows t f handle) ∧
      ((∀ s, t.denoted? s handle = none) ↔
        ∀ f, ¬d.Shadows t f handle ∧ ∀ b, t.SlotOf f b → ¬d.Fixes t b handle) := by
  intro handle _
  obtain ⟨attached, hPrepares⟩ := exists_prepares h
  obtain ⟨hWell, hComplete⟩ := hPrepares.finished
  refine ⟨?_, fun f b hOpens hFree => hPrepares.shadows hOpens hFree, ?_⟩
  · intro f b candidate hOpens hTarget
    exact ⟨hPrepares.namedAfter hOpens hTarget, hPrepares.not_bars hOpens hTarget⟩
  · rw [denoted?_eq_none_iff hWell hComplete]
    constructor
    · intro hNone f
      refine ⟨?_, fun b hSlot hFixes => hNone f b hSlot (hPrepares.target?_of_fixes hSlot hFixes)⟩
      rintro ⟨b, candidate, hOpens, hTarget⟩
      exact hNone f b hOpens.1 hTarget
    · intro hFree f b hSlot hTarget
      obtain hFixes | ⟨candidate, hOpens⟩ := hPrepares.fixes_or_opens hSlot hTarget
      · exact (hFree f).2 b hSlot hFixes
      · exact (hFree f).1 ⟨b, candidate, hOpens, hTarget⟩

/-- A function with an argument `G` that returns a global, and the name that the argument prefers. -/
def handleArgument (desired : Option String) : Document where
  scopes := [⟨0, .function, []⟩, ⟨1, .function, [.var (some "G") "ARGUMENT" "BARE" none desired none]⟩]
  program := ⟨[.define "f"
    (.mk ["G"] (.returnValue (.identifier "abs" (some (.named 0 "abs")) none) none) 2) none], 1⟩

def handleOptions : Options where
  runtime := { globalsIdentifier := "G" }

def handleArgumentTree (target : String) : Tree where
  scopes := #[⟨.global, none, [0]⟩, ⟨.function, some 0, []⟩, ⟨.function, some 1, [1]⟩]
  bindings := #[⟨0, .var (Variable.ofMember "abs" "G")⟩,
    ⟨2, .var ((Variable.ofArgument "G").withTarget target)⟩]

theorem handleArgument_declares {desired : Option String} {x : BindingDecl}
    (h : (handleArgument desired).DeclaresAt t b x) : x = .var (some "G") "ARGUMENT" "BARE" none desired none := by
  obtain ⟨s, i, scope, hScope, _, hDeclared⟩ := h
  have hMem := List.mem_of_getElem? hScope
  simp only [handleArgument, List.mem_cons, List.not_mem_nil, or_false] at hMem
  rcases hMem with rfl | rfl
  · cases List.mem_of_getElem? hDeclared
  · exact List.mem_singleton.mp (List.mem_of_getElem? hDeclared)

/-- An argument that prefers another name leaves the handle alone. -/
theorem preferred_name_spares_handle :
    (handleArgument (some "g")).scopeTree ⟨["abs"], by decide⟩ handleOptions = .ok (handleArgumentTree "g") ∧
      ∀ s, (handleArgumentTree "g").denoted? s "G" = none := by
  have hTree : (handleArgument (some "g")).scopeTree ⟨["abs"], by decide⟩ handleOptions =
      .ok (handleArgumentTree "g") := by rfl
  obtain ⟨hNamed, _, hReached⟩ := handle_shadowed_where_wanted hTree "G" (by decide)
  refine ⟨hTree, hReached.mpr fun f => ⟨fun hShadows => ?_, fun b _ hFixes => ?_⟩⟩
  · obtain ⟨b, candidate, hOpens, hTarget⟩ := hShadows
    obtain ⟨hAfter, _⟩ := hNamed f b candidate hOpens hTarget
    obtain ⟨_, _, _, _, _, _, hDeclared, rfl⟩ := hOpens
    cases handleArgument_declares hDeclared
    obtain hSame | ⟨n, hNumbered⟩ := hAfter
    · revert hSame
      decide
    · have hPlain : IsPlain "G" := .inl (by decide)
      exact hPlain.ne_suffixed _ n hNumbered
  · obtain ⟨_, _, _, _, _, hDeclared⟩ := hFixes
    cases handleArgument_declares hDeclared

/-- An argument that is called like the handle of the globals gets that name, and the text of the
global that the function returns denotes a member of the argument. -/
theorem argument_shadows_globals :
    (handleArgument none).scopeTree ⟨["abs"], by decide⟩ handleOptions = .ok (handleArgumentTree "G") ∧
      "G" ∈ handleOptions.runtime.handles ∧ (handleArgument none).Opens (handleArgumentTree "G") 2 1 "G" ∧
      (handleArgumentTree "G").target? 1 = some "G" ∧
      (handleArgumentTree "G").bindingText 0 = .ok "G.abs" ∧ (handleArgumentTree "G").denoted? 2 "G" = some 1 := by
  refine ⟨by rfl, by decide, ⟨⟨_, rfl, rfl, rfl⟩, ?_⟩, rfl, by rfl, by decide⟩
  exact ⟨some "G", "ARGUMENT", "BARE", none, none, ⟨1, 0, _, rfl, rfl, rfl⟩, rfl⟩

end Document
end TreeLowering
