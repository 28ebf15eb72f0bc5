import TreeLowering.Proofs.Emit.Receivers
import TreeLowering.Proofs.Scope.Acceptance
import TreeLowering.Proofs.Scope.Provenance
import TreeLowering.Proofs.Scope.WriteOnce

/-! # Names that lowering introduces

The line that declares locals, a declarator and the parameters of a function print the targets of
bindings. A reference prints the target too, for a member behind its container. -/
namespace TreeLowering
set_option autoImplicit false

/-! ## What is printed where names are introduced -/

theorem forall₂_of_mapM {α β : Type} {f : α → Result β} {xs : List α} {ys : List β} (h : xs.mapM f = .ok ys) :
    List.Forall₂ (fun x y => f x = .ok y) xs ys := by
  induction xs generalizing ys with
  | nil =>
    cases h
    exact .nil
  | cons x xs ih =>
    rw [List.mapM_cons] at h
    obtain ⟨y, hy, hRest⟩ := exists_of_bind_eq_ok h
    obtain ⟨ys, hys, hCons⟩ := exists_of_bind_eq_ok hRest
    cases hCons
    exact .cons hy (ih hys)

namespace Emit

/-- A line that declares some names; none without names. -/
def varLine (names : List String) : Emit Unit :=
  if names.isEmpty then pure ()
  else do
    printIndent
    print ("var " ++ Text.join ", " names ++ ";\n")

/-- A function that takes the parameters of that header. -/
def headed (header : List String) (lines : Emit Unit) : Emit Unit := do
  print "("
  print (Text.join ", " header)
  print ") \x7b\n"
  braced lines false

theorem query_bind {α β : Type} {r : Result α} {a : α} (h : r = .ok a) (k : α → Emit β) :
    (query r >>= k) = k a := by
  subst h
  rfl

end Emit

namespace Setting

open TreeLowering.Tree Emit

variable {g : Setting} (hg : g.tree.Finished)

theorem localAllocation_eq {s : Nat} {names : List String} (h : g.localNames s = .ok names) :
    g.localAllocation s = varLine names :=
  query_bind h _

theorem functionBody_eq {params header : List String} {s : Nat} (h : g.parameterNames params s = .ok header)
    (lines : Emit Unit) :
    functionBody g params s lines = headed header (do g.localAllocation s; lines) := by
  simp only [functionBody, query_bind h, headed]

include hg

theorem localNames_targets {s : Nat} (hs : g.tree.containsScope s = true) :
    ∃ names, g.localNames s = .ok names ∧
      List.Forall₂ (fun b name => g.tree.targetIdentifier b = .ok name)
        (g.tree.hoisted (g.tree.functionScope s)) names := by
  obtain ⟨names, hNames⟩ := localNames_eq_ok hg hs
  refine ⟨names, hNames, ?_⟩
  obtain ⟨f, hf, hRest⟩ := exists_of_bind_eq_ok hNames
  obtain ⟨bs, hbs, hTargets⟩ := exists_of_bind_eq_ok hRest
  obtain ⟨_, _, hFunction⟩ := exists_of_bind_eq_ok hf
  obtain ⟨_, _, hHoisted⟩ := exists_of_bind_eq_ok hbs
  cases hFunction
  cases hHoisted
  exact forall₂_of_mapM hTargets

theorem parameterNames_targets {s : Nat} (hs : g.tree.containsScope s = true) (params : List String) :
    ∃ header, g.parameterNames params s = .ok header ∧
      List.Forall₂ (fun written name => ∀ b, g.tree.named? s written = some b →
        g.tree.targetIdentifier b = .ok name) (otherName :: params) header := by
  obtain ⟨header, hHeader⟩ := parameterNames_eq_ok hg hs params
  refine ⟨header, hHeader, (forall₂_of_mapM hHeader).imp ?_⟩
  intro written name hName b hb
  rw [localTargetOrName] at hName
  obtain ⟨found, hFound, hTarget⟩ := exists_of_bind_eq_ok hName
  obtain ⟨_, _, hNamed⟩ := exists_of_bind_eq_ok hFound
  cases hNamed
  rw [hb] at hTarget
  exact hTarget

end Setting

/-! ## Members and their containers -/

namespace Document

open TreeLowering.Tree Edit

variable {d : Document} {registry : Registry} {options : Options} {t : Tree}

/-- A variable of a finished tree has a container exactly if it is a member. -/
theorem container_isSome_iff (h : d.scopeTree registry options = .ok t) {b : Nat} {w : Variable}
    (hw : t.entryAt? b = some (.var w)) : w.container.isSome = true ↔ w.access = .member := by
  obtain ⟨name, _, rfl⟩ | ⟨declared, v, ⟨s, i, scope, hScope, _, hDeclared⟩, hDeclares, hFinishes⟩ :=
    variable_origin h hw
  · exact ⟨fun _ => rfl, fun _ => rfl⟩
  · obtain ⟨globals, attached, hGlobals, hAttach, _, _⟩ := scopeTree_eq_ok h
    have hAccess : w.access = v.access := by cases hFinishes <;> rfl
    have hContained := ((ScopeDecl.exists_attachAll_iff hGlobals _).mp ⟨_, hAttach⟩).contained
      scope (List.mem_of_getElem? hScope) declared (List.mem_of_getElem? hDeclared)
    cases declared with
    | linked name link => exact hDeclares.elim
    | var name storage access fixed desired container =>
      obtain ⟨_, _, hParse, hContainer, _⟩ := hDeclares
      rw [BindingDecl.Contained, ← AccessClass.parse?_eq_some_iff, hParse, Option.some.injEq] at hContained
      rw [hFinishes.container, hContainer, hAccess]
      exact hContained

end Document

theorem qualified_ne (container name : String) : container ++ "." ++ name ≠ name := by
  intro h
  have hLength := congrArg String.length h
  have hDot : ".".length = 1 := rfl
  rw [String.length_append, String.length_append] at hLength
  omega

namespace Tree

variable {t : Tree} {b : Nat} {v : Variable} {name : String}

theorem entryAt?_of_variableOf (h : t.variableOf b = .ok v) : t.entryAt? (t.resolve b) = some (.var v) := by
  rw [variableOf] at h
  split at h
  · rename_i w hBehind
    cases h
    rw [variableBehind?] at hBehind
    split at hBehind
    · cases hBehind
      assumption
    · cases hBehind
  · cases h

theorem bindingText_direct (hTarget : t.targetIdentifier b = .ok name) (hv : t.variableOf b = .ok v)
    (hAccess : v.access = .direct) : t.bindingText b = .ok name := by
  simp only [bindingText, hTarget, hv, hAccess, bind, Except.bind]
  rfl

theorem bindingText_member (hTarget : t.targetIdentifier b = .ok name) (hv : t.variableOf b = .ok v)
    (hAccess : v.access = .member) {container : String} (hContainer : v.container = some container) :
    t.bindingText b = .ok (container ++ "." ++ name) := by
  simp only [bindingText, hTarget, hv, hAccess, hContainer, bind, Except.bind]
  rfl

/-- Where the binding is introduced by that name, references print the same name exactly if the
variable behind it is accessed directly. To a member they lead through its container. -/
def IntroducedAs (t : Tree) (b : Nat) (name : String) : Prop :=
  ∃ v, t.variableOf b = .ok v ∧ (t.bindingText b = .ok name ↔ v.access = .direct) ∧
    (v.access = .member →
      ∃ container, v.container = some container ∧ t.bindingText b = .ok (container ++ "." ++ name))

end Tree

namespace Document

open TreeLowering.Tree Emit

variable {d : Document} {registry : Registry} {options : Options} {t : Tree}

theorem introducedAs_of_target (h : d.scopeTree registry options = .ok t) {b : Nat} {name : String}
    (hTarget : t.targetIdentifier b = .ok name) : t.IntroducedAs b name := by
  obtain ⟨v, hv, _⟩ := exists_of_bind_eq_ok hTarget
  refine ⟨v, hv, ?_⟩
  cases hAccess : v.access with
  | direct => exact ⟨⟨fun _ => rfl, fun _ => bindingText_direct hTarget hv hAccess⟩, nofun⟩
  | member =>
    have hContained := container_isSome_iff h (entryAt?_of_variableOf hv)
    obtain ⟨container, hContainer⟩ := Option.isSome_iff_exists.mp (hContained.mpr hAccess)
    have hText := bindingText_member hTarget hv hAccess hContainer
    -- The text of a reference is longer than the target.
    constructor
    · rw [hText]
      constructor
      · intro hSame
        exact absurd (Except.ok.inj hSame) (qualified_ne container name)
      · nofun
    · exact fun _ => ⟨container, hContainer, hText⟩

/-- In a tree that a document builds, every place that introduces bindings prints their targets: the
line of the locals of a function, a declarator with a reference, and the parameters of a function.
Each name is the one that references print exactly if the binding is accessed directly. -/
theorem introduced_as_referenced_iff_direct (h : d.scopeTree registry options = .ok t) (runtime : Contract) :
    (∀ s, t.containsScope s = true → ∃ names,
      (Setting.mk t runtime).localAllocation s = varLine names ∧
        List.Forall₂ t.IntroducedAs (t.hoisted (t.functionScope s)) names) ∧
    (∀ ref b, t.resolveReference ref = .ok b → ∃ name, t.IntroducedAs b name ∧ ∀ written,
      (Declarator.mk written none (some ref)).lower ⟨t, runtime⟩ = print name ∧
        ∀ value, (Declarator.mk written (some value) (some ref)).lower ⟨t, runtime⟩ =
          (do print name; print " = "; value.lower ⟨t, runtime⟩)) ∧
    (∀ s params, t.containsScope s = true → ∃ header,
      (∀ lines, functionBody ⟨t, runtime⟩ params s lines =
        headed header (do (Setting.mk t runtime).localAllocation s; lines)) ∧
      List.Forall₂ (fun written name => ∀ b, t.named? s written = some b → t.IntroducedAs b name)
        (Setting.otherName :: params) header) := by
  have hFinished := (scopeTree_finished h).1
  refine ⟨?_, ?_, ?_⟩
  · intro s hs
    obtain ⟨names, hNames, hTargets⟩ := Setting.localNames_targets (g := ⟨t, runtime⟩) hFinished hs
    exact ⟨names, Setting.localAllocation_eq hNames, hTargets.imp fun _ _ => introducedAs_of_target h⟩
  · intro ref b hb
    have hLt := hFinished.lt_of_mem (mem_visible_of_reference? (resolveReference_eq_ok_iff.mp hb))
    obtain ⟨name, hTarget⟩ := hFinished.targetIdentifier hLt
    refine ⟨name, introducedAs_of_target h hTarget, fun written => ?_⟩
    have hDeclared : (Setting.mk t runtime).declaredName written (some ref) = .ok name := by
      rw [Setting.declaredName, hb]
      exact hTarget
    constructor
    · rw [Declarator.lower, query_bind hDeclared]
    · intro value
      rw [Declarator.lower, query_bind hDeclared]
  · intro s params hs
    obtain ⟨header, hHeader, hTargets⟩ := Setting.parameterNames_targets (g := ⟨t, runtime⟩) hFinished hs params
    refine ⟨header, Setting.functionBody_eq hHeader, hTargets.imp ?_⟩
    intro written name hName b hb
    exact introducedAs_of_target h (hName b hb)

/-- A function with a local that is accessed directly and one that is a member of `c`. -/
def mixedLocals : Document where
  scopes := [⟨0, .function, [.plainLocal "x",
    .var (some "y") "LOCAL" "PROP_ACCESS" none none (some "c")]⟩]
  program := ⟨[], 1⟩

def mixedLocalsTree : Tree where
  scopes := #[⟨.global, none, []⟩, ⟨.function, some 0, [0, 1]⟩]
  bindings := #[⟨1, .var ((Variable.ofLocal "x").withTarget "x")⟩,
    ⟨1, .var ⟨some "y", .local, .member, .assigned "y", some "c"⟩⟩]

theorem direct_local_is_read_by_its_name :
    mixedLocals.scopeTree .empty {} = .ok mixedLocalsTree ∧
      ∃ names, (Setting.mk mixedLocalsTree {}).localAllocation 1 = varLine names ∧
        List.Forall₂ mixedLocalsTree.IntroducedAs [0, 1] names := by
  have hTree : mixedLocals.scopeTree .empty {} = .ok mixedLocalsTree := by rfl
  exact ⟨hTree, (introduced_as_referenced_iff_direct hTree {}).1 1 rfl⟩

/-- A script whose argument is declared as a member of `c`, and which returns it. -/
def memberArgument : Document where
  scopes := [⟨0, .function, []⟩,
    ⟨1, .function, [.var (some "a") "ARGUMENT" "PROP_ACCESS" none none (some "c")]⟩]
  program :=
    ⟨[.define "f" (.mk ["a"] (.returnValue (.identifier "a" (some (.named 2 "a")) none) none) 2) none], 1⟩

theorem member_argument_is_read_elsewhere :
    ∃ t before after, memberArgument.scopeTree .empty {} = .ok t ∧ t.named? 2 "a" = some 0 ∧
      (Setting.mk t {}).parameterNames ["a"] 2 = .ok ["other", "a"] ∧ t.bindingText 0 = .ok "c.a" ∧
      memberArgument.program.lower t {} =
        .ok (before ++ "function(other, a) \x7b\n        return (c.a);\n" ++ after) := by
  refine ⟨_, "define(function(require) \x7b\n    \"use strict\";\n    var $G = require(\"angl/globals\");\n" ++
    "    var $R = require(\"angl/runtime\");\n    $G.f = ", "    \x7d;\n\x7d);", rfl, rfl, rfl, rfl, ?_⟩
  rfl

end Document
end TreeLowering
