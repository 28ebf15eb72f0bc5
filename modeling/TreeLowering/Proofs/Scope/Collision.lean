import TreeLowering.Proofs.Scope.Provenance

/-! # Target names do not collide

Along every run of operations the targets taken in a function scope are those of the slots of the
function, in its own scope or in a block, visible or removed. So a slot that is given its target gets one
that no other slot of its function has, and in a finished tree two slots of a function can share a target
only where the document fixed both. -/
namespace TreeLowering
set_option autoImplicit false

open Relation

namespace Tree

open Edit

theorem remove_keeps (s : Nat) (name : String) :
    Within (fun t u : Tree => u.bindings = t.bindings) (remove s name) := by
  intro t
  rw [after, remove_apply]
  by_cases hs : s < t.scopes.size
  · rw [if_pos hs]
    cases t.named? s name with
    | some b => exact .single rfl
    | none => exact .refl
  · rw [if_neg hs]

theorem Operation.names_or_keeps (op : Operation) (t : Tree) :
    ReflTransGen Naming t (op.run t) ∨
      ∀ b < t.bindings.size, (op.run t).bindings[b]? = t.bindings[b]? := by
  have hSame : ∀ u : Tree, ReflTransGen (fun t u : Tree => u.bindings = t.bindings) t u →
      u.bindings = t.bindings := by
    intro u hSteps
    induction hSteps with
    | refl => rfl
    | tail _ hStep ih => exact hStep.trans ih
  cases op with
  | push kind parent => exact .inr (grows_getElem? (within_discard (pushScope_within kind parent) t)).2
  | add s e => exact .inr (grows_getElem? (within_discard (add_within s e) t)).2
  | remove s name =>
    exact .inr fun b _ => by rw [run, edit, hSame _ (within_discard (remove_keeps s name) t)]
  | assign b candidate => exact .inl (within_discard (assignTarget_within b candidate) t)
  | allocate => exact .inl (allocate_within t)
  | attach ds => exact .inr (grows_getElem? (ScopeDecl.attachAll_within ds t)).2

theorem Operation.fresh_target {op : Operation} {t : Tree} {f b : Nat} {name : String}
    (hSlot : t.SlotOf f b) (hBefore : t.target? b = none) (hAfter : (op.run t).target? b = some name) :
    isReserved name = false ∧ ∀ c ≠ b, (op.run t).SlotOf f c → (op.run t).target? c ≠ some name := by
  rcases op.names_or_keeps t with hNames | hKeeps
  · exact names_fresh hNames hSlot hBefore hAfter
  · rw [target?, entryAt?, hKeeps b hSlot.lt, ← entryAt?, ← target?, hBefore] at hAfter
    cases hAfter

end Tree

namespace Arena

variable {a : Arena}

theorem Indexed.mem_usedTargets (h : a.Indexed) {f : Nat} {r : IndexedScope} (hr : a.scopes[f]? = some r)
    {target : String} :
    target ∈ r.usedTargets ↔ ∃ b, a.tree.SlotOf f b ∧ a.tree.target? b = some target := by
  have hTaken := h.taken f target
  rwa [usedTargets, hr, Tree.mem_usedTargets] at hTaken

theorem Indexed.fresh_target (h : a.Indexed) {op : Tree.Operation} {f b : Nat} {name : String}
    (hSlot : a.tree.SlotOf f b) (hBefore : a.tree.target? b = none)
    (hAfter : (a.run op).tree.target? b = some name) :
    isReserved name = false ∧
      ∀ c ≠ b, (a.run op).tree.SlotOf f c → (a.run op).tree.target? c ≠ some name := by
  rw [h.tree_run] at hAfter ⊢
  exact Tree.Operation.fresh_target hSlot hBefore hAfter

theorem assignTarget_pending {b owner : Nat} {v : Variable} {desired : Option String}
    (hBinding : a.bindings[b]? = some ⟨owner, .var v⟩) (hPending : v.target = .pending desired)
    (candidate : String) :
    ∃ name u, assignTarget b candidate a = .ok name u ∧ u.tree.target? b = some name := by
  have hRun := assignTarget_apply b candidate a
  simp only [hBinding, hPending] at hRun
  refine ⟨_, _, hRun, ?_⟩
  rw [tree_setTarget, tree_chooseTarget]
  exact Tree.target?_setTarget_self _ hBinding

end Arena

namespace Document

open TreeLowering.Tree Edit

/-- The document fixes the target of a binding in the tree built from it. -/
def Fixes (d : Document) (t : Tree) (b : Nat) (name : String) : Prop :=
  ∃ identifier storage access desired container,
    d.DeclaresAt t b (.var identifier storage access (some name) desired container)

theorem fixes_of_attached {d : Document} {registry : Registry} {extra : List String} {container : String}
    {globals attached : Tree} (hGlobals : Tree.ofGlobals registry extra container = .ok globals)
    (hAttach : ScopeDecl.attachAll d.scopes globals = .ok () attached) {f b : Nat} {name : String}
    (hSlot : attached.SlotOf f b) (hTarget : attached.target? b = some name) :
    d.Fixes attached b name := by
  obtain ⟨x, hx, hStorage, _⟩ := hSlot
  obtain ⟨s, i, scope, identifier, storage, access, fixed, desired, container, v, hScope, hi, hDeclared, hVar,
    _, _, _, _, hFixed⟩ := ScopeDecl.slot_declared hGlobals hAttach hx hStorage
  rw [target?_eq_of_getElem? hx, hVar, Entry.target?, hFixed] at hTarget
  refine ⟨identifier, storage, access, desired, container, s, i, scope, hScope, hi, ?_⟩
  cases fixed with
  | none => cases hTarget
  | some n =>
    cases hTarget
    exact hDeclared

theorem fixes_of_shared {d : Document} {registry : Registry} {options : Options} {t : Tree}
    (h : d.scopeTree registry options = .ok t) {f b c : Nat} {name : String} (hNe : b ≠ c)
    (hb : t.SlotOf f b) (hc : t.SlotOf f c) (hbTarget : t.target? b = some name)
    (hcTarget : t.target? c = some name) : d.Fixes t b name := by
  -- Allocation gives fresh names only, so what it leaves shared was fixed before.
  obtain ⟨globals, attached, hGlobals, hAttach, _, hAllocate⟩ := scopeTree_eq_ok h
  have hNames := after_of_ok hAllocate ▸ allocate_within attached
  have hbSlot := (names_slotOf hNames).mp hb
  cases hBefore : attached.target? b with
  | none => exact absurd hcTarget ((names_fresh hNames hbSlot hBefore hbTarget).2 c hNe.symm hc)
  | some old =>
    obtain rfl : old = name := Option.some.inj ((names_target?_eq hNames hBefore).symm.trans hbTarget)
    obtain ⟨identifier, storage, access, desired, container, s, i, scope, hScope, hi, hFixed⟩ :=
      fixes_of_attached hGlobals hAttach hbSlot hBefore
    rw [← (names_sameView hNames).visible] at hi
    exact ⟨identifier, storage, access, desired, container, s, i, scope, hScope, hi, hFixed⟩

end Document

/-- Along any run of operations the targets taken in a scope are those of the slots of its function,
removed ones included, and a slot that is given its target gets no reserved word and no target of another
slot of its function. So two slots of a function in a tree that a document builds share a target only if
the document fixes both. -/
theorem slot_targets_collide_only_if_fixed :
    (∀ (registry : Registry) (extra : List String) (container : String) (globals : Arena),
      Arena.ofGlobals registry extra container = .ok globals →
      ∀ (ops : List Tree.Operation) (a : Arena), globals.runAll ops = a →
        (∀ (f : Nat) (r : IndexedScope), a.scopes[f]? = some r → ∀ target, target ∈ r.usedTargets ↔
          ∃ b, a.tree.SlotOf f b ∧ a.tree.target? b = some target) ∧
        (∀ (op : Tree.Operation) (f b : Nat) (name : String), a.tree.SlotOf f b → a.tree.target? b = none →
          (a.run op).tree.target? b = some name →
          isReserved name = false ∧
            ∀ c ≠ b, (a.run op).tree.SlotOf f c → (a.run op).tree.target? c ≠ some name) ∧
        ∀ (b owner : Nat) (v : Variable) (candidate : String),
          a.bindings[b]? = some ⟨owner, .var v⟩ → v.target.isPending = true →
          ∃ name u, Arena.assignTarget b candidate a = .ok name u ∧ u.tree.target? b = some name) ∧
    (∀ (d : Document) (registry : Registry) (options : Options) (t : Tree),
      d.scopeTree registry options = .ok t →
      ∀ (f b c : Nat) (name : String), b ≠ c → t.SlotOf f b → t.SlotOf f c →
        t.target? b = some name → t.target? c = some name → d.Fixes t b name ∧ d.Fixes t c name) := by
  refine ⟨?_, ?_⟩
  · rintro registry extra container globals hGlobals ops a rfl
    have hIndexed : (globals.runAll ops).Indexed := (Arena.Indexed.ofGlobals hGlobals).runAll ops
    refine ⟨fun f r hr target => hIndexed.mem_usedTargets hr,
      fun op f b name hSlot hBefore hAfter => hIndexed.fresh_target hSlot hBefore hAfter, ?_⟩
    intro b owner v candidate hBinding hPending
    cases hTarget : v.target with
    | assigned name => simp [hTarget, Target.isPending] at hPending
    | pending desired => exact Arena.assignTarget_pending hBinding hTarget candidate
  · intro d registry options t h f b c name hNe hb hc hbTarget hcTarget
    exact ⟨Document.fixes_of_shared h hNe hb hc hbTarget hcTarget,
      Document.fixes_of_shared h hNe.symm hc hb hcTarget hbTarget⟩

/-- A slot of a block brings its target along and is removed from the block, a second target for it is
refused, and another `x` comes into the function around the block. -/
def replacedSlot : List Tree.Operation :=
  [.push .function 0, .push .block 1, .add 2 (.var ((Variable.ofLocal "x").withTarget "x")), .remove 2 "x",
    .assign 0 "y", .add 1 (.var (Variable.ofLocal "x"))]

/-- The target is taken in the function, where no binding shows it. -/
def replacedSlotArena : Arena where
  scopes := #[⟨0, .global, none, [], [], []⟩, ⟨1, .function, some 0, [("x", 1)], [1], ["x"]⟩,
    ⟨2, .block, some 1, [], [], []⟩]
  bindings := #[⟨2, .var ((Variable.ofLocal "x").withTarget "x")⟩, ⟨1, .var (Variable.ofLocal "x")⟩]

/-- A local of a function and one of a block in it with the same fixed target, and one that is named after
them. -/
def sharedTarget : Document :=
  ⟨[⟨0, .function, [.var (some "x") "LOCAL" "BARE" (some "v") none none]⟩,
    ⟨1, .block, [.var (some "y") "LOCAL" "BARE" (some "v") none none,
      .plainLocal "v"]⟩], ⟨[], 1⟩⟩

def sharedTargetTree : Tree where
  scopes := #[⟨.global, none, []⟩, ⟨.function, some 0, [0]⟩, ⟨.block, some 1, [1, 2]⟩]
  bindings := #[⟨1, .var ((Variable.ofLocal "x").withTarget "v")⟩,
    ⟨2, .var ((Variable.ofLocal "y").withTarget "v")⟩, ⟨2, .var ((Variable.ofLocal "v").withTarget "v$1")⟩]

/-- The removed slot keeps its target to itself, and the two fixed ones are the only ones shared. -/
theorem removed_slot_keeps_its_target :
    (Arena.empty.runAll replacedSlot = replacedSlotArena ∧
      (∃ b, replacedSlotArena.tree.SlotOf 1 b ∧ replacedSlotArena.tree.target? b = some "x") ∧
      (replacedSlotArena.run (.assign 1 "x")).tree.target? 1 = some "x$1" ∧ isReserved "x$1" = false ∧
      (replacedSlotArena.run (.assign 1 "x")).tree.target? 0 ≠ some "x$1") ∧
    sharedTarget.scopeTree .empty {} = .ok sharedTargetTree ∧
    sharedTarget.Fixes sharedTargetTree 0 "v" ∧ sharedTarget.Fixes sharedTargetTree 1 "v" := by
  have hArena : Arena.empty.runAll replacedSlot = replacedSlotArena := by decide +kernel
  have hTarget : (replacedSlotArena.run (.assign 1 "x")).tree.target? 1 = some "x$1" := by decide +kernel
  obtain ⟨hTaken, hFresh, _⟩ :=
    slot_targets_collide_only_if_fixed.1 .empty [] "$G" Arena.empty rfl replacedSlot _ hArena
  obtain ⟨hReserved, hOthers⟩ := hFresh (.assign 1 "x") 1 1 "x$1" ⟨_, rfl, rfl, rfl⟩ rfl hTarget
  have hTree : sharedTarget.scopeTree .empty {} = .ok sharedTargetTree := by rfl
  exact ⟨⟨hArena, (hTaken 1 _ rfl "x").mp (List.mem_singleton_self "x"), hTarget, hReserved,
      hOthers 0 (by decide) ⟨_, rfl, rfl, rfl⟩⟩, hTree,
    slot_targets_collide_only_if_fixed.2 sharedTarget .empty {} sharedTargetTree hTree 1 0 1 "v" (by decide)
      ⟨_, rfl, rfl, rfl⟩ ⟨_, rfl, rfl, rfl⟩ rfl rfl⟩

end TreeLowering
