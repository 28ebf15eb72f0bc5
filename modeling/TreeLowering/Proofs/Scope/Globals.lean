import TreeLowering.Proofs.Scope.Completion
import TreeLowering.Proofs.Scope.Renumbering
import TreeLowering.Proofs.Scope.Shadowing

/-! # The global scope

The names of the registry and the extra names are added one after the other, so the first name that
repeats an earlier one stops the construction. Nothing that a document declares touches what was added:
attaching leaves the global scope alone, and allocation finds every target fixed. -/
namespace TreeLowering
set_option autoImplicit false

open Edit

namespace Tree

variable {t u : Tree} {container : String} {names : List String}

/-! ## Which names are accepted -/

theorem obstacle?_globalTree (container name : String) (done : List String) :
    (globalTree container done).obstacle? 0 (.var (Variable.ofMember name container)) =
      if name ∈ done then some (.fault (.redeclared name) none) else none := by
  have hNamed : ((globalTree container done).named? 0 name).isSome = true ↔ name ∈ done := by
    rw [named?, List.find?_isSome]
    simp only [identifier?_globalTree, beq_iff_eq]
    constructor
    · rintro ⟨b, _, hb⟩
      exact List.mem_of_getElem? hb
    · intro hMem
      obtain ⟨b, hb⟩ := List.mem_iff_getElem?.mp hMem
      exact ⟨b, List.mem_range.mpr (List.getElem?_eq_some_iff.mp hb).1, hb⟩
  have hRoot : (globalTree container done).containsScope 0 = true := rfl
  simp only [obstacle?, hRoot, Variable.ofMember, hNamed]
  rfl

/-- One name more, or the same name again. -/
theorem addGlobal_apply (container name : String) (done : List String) :
    addGlobal container name (globalTree container done) =
      if name ∈ done then .error (.fault (.redeclared name) none) (globalTree container done)
      else .ok () (globalTree container (done ++ [name])) := by
  have hAdd := add_apply 0 (.var (Variable.ofMember name container)) (globalTree container done)
  by_cases hMem : name ∈ done
  · rw [obstacle?_globalTree, if_pos hMem] at hAdd
    rw [if_pos hMem]
    exact run_bind_of_error hAdd _
  · rw [obstacle?_globalTree, if_neg hMem] at hAdd
    rw [if_neg hMem, ← insert_globalTree]
    exact run_bind_of_ok hAdd _

/-- The first name that repeats an earlier one is refused. -/
theorem forM_addGlobal_eq_error {e : Failure} (done : List String) (hDone : done.Nodup)
    (h : names.forM (addGlobal container) (globalTree container done) = .error e t) :
    ∃ before name after, names = before ++ name :: after ∧ (done ++ before).Nodup ∧ name ∈ done ++ before ∧
      e = .fault (.redeclared name) none := by
  induction names generalizing done with
  | nil => cases h
  | cons name names ih =>
    have hAdd := addGlobal_apply container name done
    by_cases hMem : name ∈ done
    · rw [if_pos hMem] at hAdd
      cases (run_bind_of_error hAdd _).symm.trans h
      exact ⟨[], name, names, rfl, by rwa [List.append_nil], by rwa [List.append_nil], rfl⟩
    · rw [if_neg hMem] at hAdd
      have hDistinct : (done ++ [name]).Nodup := by
        rw [List.nodup_append_comm]
        exact List.nodup_cons.mpr ⟨hMem, hDone⟩
      obtain ⟨before, again, after, rfl, hNodup, hAgain, rfl⟩ :=
        ih (done ++ [name]) hDistinct ((run_bind_of_ok hAdd _).symm.trans h)
      rw [List.append_assoc] at hNodup hAgain
      exact ⟨name :: before, again, after, rfl, hNodup, hAgain, rfl⟩

theorem exists_ofGlobals_iff (registry : Registry) (extra : List String) (container : String) :
    (∃ t, ofGlobals registry extra container = .ok t) ↔
      extra.Nodup ∧ ∀ name ∈ extra, name ∉ registry.names := by
  have hDistinct : registry.names.Nodup := registry.ascending.imp String.ne_of_lt
  have hNames : (registry.names ++ extra).Nodup ↔ extra.Nodup ∧ ∀ name ∈ extra, name ∉ registry.names := by
    rw [List.nodup_append', and_iff_right hDistinct, List.disjoint_comm]
    rfl
  rw [← hNames]
  constructor
  · rintro ⟨t, h⟩
    exact (ofGlobals_eq_ok h ▸ WellFormed.ofGlobals h).nodup_of_globalTree
  · intro h
    exact ⟨_, ofGlobals_of_nodup container h⟩

theorem ofGlobals_eq_error {registry : Registry} {extra : List String} {e : Failure}
    (h : ofGlobals registry extra container = .error e) :
    ∃ before name after, registry.names ++ extra = before ++ name :: after ∧ before.Nodup ∧ name ∈ before ∧
      e = .fault (.redeclared name) none := by
  obtain ⟨u, hRun⟩ := finish_eq_error h
  exact forM_addGlobal_eq_error [] List.nodup_nil hRun

/-! ## What the global scope holds -/

/-- The global scope has just these names, each as a member of the container under its own name. -/
def HoldsGlobals (t : Tree) (container : String) (names : List String) : Prop :=
  (t.visible 0).map (fun b => t.bindings[b]?) =
    names.map fun name => some ⟨0, .var ⟨some name, .namespaced, .member, .assigned name, some container⟩⟩

theorem holdsGlobals_globalTree (container : String) (names : List String) :
    (globalTree container names).HoldsGlobals container names := by
  apply List.ext_getElem
  · simp [visible, globalTree]
  · simp [visible, globalTree, Variable.ofMember]

theorem HoldsGlobals.mem (h : t.HoldsGlobals container names) {name : String} (hName : name ∈ names) :
    ∃ b ∈ t.visible 0, t.bindings[b]? =
      some ⟨0, .var ⟨some name, .namespaced, .member, .assigned name, some container⟩⟩ :=
  List.mem_map.mp (h ▸ List.mem_map_of_mem hName)

/-- Bindings with a fixed target stay as they are. -/
theorem Allocated.holdsGlobals (hAllocated : Allocated t u) (h : t.HoldsGlobals container names) :
    u.HoldsGlobals container names := by
  have hVisible : u.visible 0 = t.visible 0 := by rw [visible, visible, hAllocated.scopes]
  rw [HoldsGlobals, hVisible, ← h]
  apply List.map_congr_left
  intro b hb
  obtain ⟨name, _, hBinding⟩ := List.mem_map.mp (h ▸ List.mem_map_of_mem hb)
  rw [← hBinding]
  obtain hSame | ⟨_, y, _, hGains⟩ := hAllocated.kept b _ hBinding.symm
  · exact hSame
  · cases hGains with
    | named hPending => cases hPending

/-! ## How globals are read -/

theorem nearest?_of_uncovered (hGrounded : t.Grounded) {s b : Nat} {name : String} (hs : s < t.scopes.size)
    (hCloser : ∀ r ∈ t.chain s, r ≠ 0 → t.named? r name = none) (hRoot : t.named? 0 name = some b) :
    t.nearest? s name = some b := by
  rw [nearest?]
  cases hFound : (t.chain s).findSome? fun r => t.named? r name with
  | none =>
    rw [List.findSome?_eq_none_iff] at hFound
    cases (hFound 0 (hGrounded.zero_mem_chain hs)).symm.trans hRoot
  | some c =>
    obtain ⟨r, hr, hc⟩ := List.exists_of_findSome?_eq_some hFound
    by_cases hZero : r = 0
    · rw [← hRoot, ← hc, hZero]
    · cases (hCloser r hr hZero).symm.trans hc

theorem bindingText_of_member {b owner : Nat} {name : String}
    (hb : t.bindings[b]? =
      some ⟨owner, .var ⟨some name, .namespaced, .member, .assigned name, some container⟩⟩) :
    t.bindingText b = .ok (container ++ "." ++ name) := by
  have hEntry : t.entryAt? b = some (.var ⟨some name, .namespaced, .member, .assigned name, some container⟩) := by
    rw [entryAt?, hb, Option.map_some]
  have hResolve : t.resolve b = b := by
    rw [resolve]
    cases b with
    | zero => rfl
    | succ b => rw [resolveFrom, hEntry]; rfl
  have hVariable : t.variableOf b = .ok ⟨some name, .namespaced, .member, .assigned name, some container⟩ := by
    rw [variableOf, variableBehind?, hResolve, hEntry]
    rfl
  rw [bindingText, targetIdentifier, hVariable]
  rfl

/-- The globals are in place, and each is read through the container from wherever its name is not bound
closer by. -/
structure Offers (t : Tree) (container : String) (names : List String) : Prop where
  held : t.HoldsGlobals container names
  read : ∀ s < t.scopes.size, ∀ name ∈ names,
    (∀ r ∈ t.chain s, r ≠ 0 → t.lookupLocal r name = .ok none) →
    ∃ b, t.lookupChain s name = .ok b ∧ t.bindingText b = .ok (container ++ "." ++ name)

theorem WellFormed.offers (hWell : t.WellFormed) (h : t.HoldsGlobals container names) : t.Offers container names where
  held := h
  read s hs name hName hCloser := by
    obtain ⟨b, hVisible, hb⟩ := h.mem hName
    have hIdentifier : t.identifier? b = some name := by
      rw [identifier?, entryAt?, hb]
      rfl
    have hRoot := hWell.named?_eq_some_iff.mpr ⟨hVisible, hIdentifier⟩
    have hNearest := nearest?_of_uncovered hWell.toGrounded hs
      (fun r hr hZero => (lookupLocal_eq_none_iff.mp (hCloser r hr hZero)).2) hRoot
    exact ⟨b, lookupChain_eq_ok_of_nearest? hs hNearest, bindingText_of_member hb⟩

theorem offers_ofGlobals {registry : Registry} {extra : List String} (h : ofGlobals registry extra container = .ok t) :
    t.Offers container (registry.names ++ extra) :=
  (WellFormed.ofGlobals h).offers (ofGlobals_eq_ok h ▸ holdsGlobals_globalTree container _)

end Tree

namespace Document

open TreeLowering.Tree

variable {d : Document} {registry : Registry} {options : Options} {t : Tree}

theorem scopeTree_holdsGlobals (h : d.scopeTree registry options = .ok t) : t.WellFormed ∧
    t.HoldsGlobals options.runtime.globalsIdentifier (registry.names ++ options.extraGlobals) := by
  obtain ⟨globals, attached, hGlobals, hAttach, _, hAllocate⟩ := scopeTree_eq_ok h
  have hWell := (ScopeDecl.attached_wellFormed hGlobals hAttach).1
  have hGrows := after_of_ok hAttach ▸ ScopeDecl.attachAll_within d.scopes globals
  obtain ⟨_, _, hRoot⟩ := ScopeDecl.attachAll_eq_ok (WellFormed.ofGlobals hGlobals) hAttach
  have hHeld := (offers_ofGlobals hGlobals).held
  have hAttached :
      attached.HoldsGlobals options.runtime.globalsIdentifier (registry.names ++ options.extraGlobals) := by
    have hVisible : attached.visible 0 = globals.visible 0 := by rw [visible, visible, hRoot]
    rw [HoldsGlobals, hVisible, ← hHeld]
    apply List.map_congr_left
    intro b hb
    exact (grows_getElem? hGrows).2 b ((WellFormed.ofGlobals hGlobals).lt_of_mem hb)
  have hNames := after_of_ok hAllocate ▸ allocate_within attached
  exact ⟨hWell.names hNames, (hWell.allocated hAllocate).holdsGlobals hAttached⟩

/-- The global scope can be built exactly if the extra names are distinct and new to the registry, and the
first name that is repeated is refused as a duplicate. Once built, it holds the names of the registry and
then the extra names, and so it does in the finished tree of every document, where they are read through
the container. -/
theorem global_scope_is_exact (registry : Registry) (extra : List String) (container : String) :
    ((∃ t, ofGlobals registry extra container = .ok t) ↔
        extra.Nodup ∧ ∀ name ∈ extra, name ∉ registry.names) ∧
      (∀ e, ofGlobals registry extra container = .error e →
        ∃ before name after, registry.names ++ extra = before ++ name :: after ∧ before.Nodup ∧
          name ∈ before ∧
          e = .fault (.redeclared name) none ∧ (Fault.redeclared name).kind = .duplicateBinding) ∧
      (∀ t, ofGlobals registry extra container = .ok t → t.Offers container (registry.names ++ extra)) ∧
      ∀ (d : Document) (options : Options) (t : Tree), options.extraGlobals = extra →
        options.runtime.globalsIdentifier = container → d.scopeTree registry options = .ok t →
          t.Offers container (registry.names ++ extra) := by
  refine ⟨exists_ofGlobals_iff registry extra container, ?_, fun t => offers_ofGlobals, ?_⟩
  · intro e h
    obtain ⟨before, name, after, hNames, hDistinct, hAgain, rfl⟩ := ofGlobals_eq_error h
    exact ⟨before, name, after, hNames, hDistinct, hAgain, rfl, rfl⟩
  · rintro d options t rfl rfl h
    obtain ⟨hWell, hHeld⟩ := scopeTree_holdsGlobals h
    exact hWell.offers hHeld

/-- Two functions, the first with a local that is called like a global and an alias of another global in
a block. -/
def coveredGlobal : Document where
  scopes := [⟨0, .function, [.plainLocal "abs"]⟩,
    ⟨1, .block, [.linked "sine" (.named 0 "sin")]⟩, ⟨0, .function, []⟩]
  program := ⟨[], 1⟩

def scoreOptions : Options where
  extraGlobals := ["score"]

/-- From the block `sin` and from the other function `abs` are read through the container. An extra name
that the registry has is refused. -/
theorem uncovered_globals_are_read_through_container :
    (∃ t b c, coveredGlobal.scopeTree ⟨["abs", "sin"], by decide⟩ scoreOptions = .ok t ∧
      t.HoldsGlobals "$G" ["abs", "sin", "score"] ∧ t.lookupChain 2 "sin" = .ok b ∧
        t.bindingText b = .ok "$G.sin" ∧
      t.lookupChain 3 "abs" = .ok c ∧ t.bindingText c = .ok "$G.abs") ∧
      (∃ t, ofGlobals ⟨["abs", "sin"], by decide⟩ ["score"] "$G" = .ok t) ∧
      ofGlobals ⟨["abs", "sin"], by decide⟩ ["sin"] "$G" = .error (.fault (.redeclared "sin") none) := by
  obtain ⟨t, hTree⟩ : ∃ t, coveredGlobal.scopeTree ⟨["abs", "sin"], by decide⟩ scoreOptions = .ok t :=
    ⟨_, rfl⟩
  obtain ⟨hAccepted, _, _, hDocuments⟩ := global_scope_is_exact ⟨["abs", "sin"], by decide⟩ ["score"] "$G"
  obtain ⟨hHeld, hRead⟩ := hDocuments coveredGlobal scoreOptions t rfl rfl hTree
  obtain ⟨hSize, hBlock, hOther, hFree⟩ : t.scopes.size = 4 ∧ t.chain 2 = [2, 1, 0] ∧ t.chain 3 = [3, 0] ∧
      t.lookupLocal 1 "sin" = .ok none ∧ t.lookupLocal 2 "sin" = .ok none ∧ t.lookupLocal 3 "abs" = .ok none := by
    cases hTree
    exact ⟨rfl, rfl, rfl, rfl, rfl, rfl⟩
  obtain ⟨b, hb, hbText⟩ := hRead 2 (by omega) "sin" (by decide) (by simp [hBlock, hFree])
  obtain ⟨c, hc, hcText⟩ := hRead 3 (by omega) "abs" (by decide) (by simp [hOther, hFree])
  exact ⟨⟨t, b, c, hTree, hHeld, hb, hbText, hc, hcText⟩, hAccepted.mpr (by decide), by rfl⟩

end Document
end TreeLowering
