import TreeLowering.Emit.Setting

/-! # What lowering asks, and how it stays without an answer

Lowering asks its setting for bindings and their texts. Where it gets no answer, a scope or a binding does
not exist, a name is not bound, or a target is not assigned yet. -/
namespace TreeLowering
set_option autoImplicit false

/-- Where the computation fails, it does so in one of these ways. -/
def FailsIn {α : Type} (F : Failure → Prop) (r : Result α) : Prop := ∀ e, r = .error e → F e

section

variable {α β : Type} {F : Failure → Prop}

theorem failsIn_ok (a : α) : FailsIn F (.ok a : Result α) := by
  rintro e ⟨⟩

theorem failsIn_error {e : Failure} (h : F e) : FailsIn F (.error e : Result α) := by
  rintro _ ⟨⟩
  exact h

theorem FailsIn.bind {r : Result α} {f : α → Result β} (hr : FailsIn F r) (hf : ∀ a, FailsIn F (f a)) :
    FailsIn F (r >>= f) := by
  cases r with
  | ok a => exact hf a
  | error e => exact failsIn_error (hr e rfl)

theorem FailsIn.map {r : Result α} (hr : FailsIn F r) (f : α → β) : FailsIn F (r.map f) := by
  cases r with
  | ok a => exact failsIn_ok (f a)
  | error e => exact failsIn_error (hr e rfl)

theorem failsIn_mapM {f : α → Result β} (hf : ∀ a, FailsIn F (f a)) (xs : List α) : FailsIn F (xs.mapM f) := by
  induction xs with
  | nil => exact failsIn_ok []
  | cons x xs ih =>
    rw [List.mapM_cons]
    exact (hf x).bind fun y => ih.bind fun ys => failsIn_ok (y :: ys)

end

/-- The ways in which a look-up fails. -/
inductive Failure.IsLookup : Failure → Prop where
  | outOfRange : IsLookup .outOfRange
  | missingScope (ref : Reference) : IsLookup (.fault (.missingScope ref) none)
  | unresolved (name : String) (seeker : Seeker) (loc : Option Location) :
    IsLookup (.fault (.unresolved name seeker) loc)
  | unassigned (name : Option String) : IsLookup (.fault (.readBeforeAssigned name) none)

abbrev LooksUp {α : Type} (r : Result α) : Prop := FailsIn Failure.IsLookup r

namespace Tree

variable (t : Tree)

theorem checkScope_looksUp (s : Nat) : LooksUp (t.checkScope s) := by
  rw [checkScope]
  split
  · exact failsIn_ok ()
  · exact failsIn_error .outOfRange

theorem lookupLocal_looksUp (s : Nat) (name : String) : LooksUp (t.lookupLocal s name) :=
  (t.checkScope_looksUp s).bind fun _ => failsIn_ok _

theorem functionScopeOf_looksUp (s : Nat) : LooksUp (t.functionScopeOf s) :=
  (t.checkScope_looksUp s).bind fun _ => failsIn_ok _

theorem hoistedBindings_looksUp (f : Nat) : LooksUp (t.hoistedBindings f) :=
  (t.checkScope_looksUp f).bind fun _ => failsIn_ok _

theorem resolveReference_looksUp (ref : Reference) : LooksUp (t.resolveReference ref) := by
  rw [resolveReference]
  split
  · split
    · exact failsIn_ok _
    · exact failsIn_error (.unresolved _ _ none)
  · exact failsIn_error (.missingScope ref)

theorem variableOf_looksUp (b : Nat) : LooksUp (t.variableOf b) := by
  rw [variableOf]
  split
  · exact failsIn_ok _
  · exact failsIn_error .outOfRange

theorem targetIdentifier_looksUp (b : Nat) : LooksUp (t.targetIdentifier b) := by
  refine (t.variableOf_looksUp b).bind fun v => ?_
  split
  · exact failsIn_ok _
  · exact failsIn_error (.unassigned _)

theorem bindingText_looksUp (b : Nat) : LooksUp (t.bindingText b) := by
  refine (t.targetIdentifier_looksUp b).bind fun name => (t.variableOf_looksUp b).bind fun v => ?_
  split <;> exact failsIn_ok _

end Tree

namespace Setting

variable (g : Setting)

theorem referenceText_looksUp (ref : Reference) : LooksUp (g.referenceText ref) :=
  (g.tree.resolveReference_looksUp ref).bind g.tree.bindingText_looksUp

theorem identifierText_looksUp (name : String) (ref : Option Reference) : LooksUp (g.identifierText name ref) := by
  cases ref with
  | none => exact failsIn_ok name
  | some ref => exact g.referenceText_looksUp ref

theorem declaredName_looksUp (name : String) (ref : Option Reference) : LooksUp (g.declaredName name ref) := by
  cases ref with
  | none => exact failsIn_ok name
  | some ref => exact (g.tree.resolveReference_looksUp ref).bind g.tree.targetIdentifier_looksUp

theorem receiver_looksUp (s : Nat) (name : String) (loc : Option Location) : LooksUp (g.receiver s name loc) := by
  refine (g.tree.checkScope_looksUp s).bind fun _ => ?_
  split
  · exact failsIn_ok _
  · exact failsIn_error (.unresolved name .receiver loc)

theorem localTargetOrName_looksUp (s : Nat) (name : String) : LooksUp (g.localTargetOrName s name) := by
  refine (g.tree.lookupLocal_looksUp s name).bind fun found => ?_
  cases found with
  | none => exact failsIn_ok name
  | some b => exact g.tree.targetIdentifier_looksUp b

theorem parameterNames_looksUp (params : List String) (s : Nat) : LooksUp (g.parameterNames params s) :=
  failsIn_mapM (g.localTargetOrName_looksUp s) _

theorem innerSelf_looksUp (s : Nat) (loc : Option Location) : LooksUp (g.innerSelf s loc) := by
  refine (g.tree.lookupLocal_looksUp s selfName).bind fun found => ?_
  cases found with
  | none => exact failsIn_error (.unresolved selfName .innerSelf loc)
  | some b => exact g.tree.bindingText_looksUp b

theorem localNames_looksUp (s : Nat) : LooksUp (g.localNames s) :=
  (g.tree.functionScopeOf_looksUp s).bind fun f =>
    (g.tree.hoistedBindings_looksUp f).bind fun bs => failsIn_mapM g.tree.targetIdentifier_looksUp bs

end Setting
end TreeLowering
