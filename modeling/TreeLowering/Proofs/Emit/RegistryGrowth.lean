import TreeLowering.Compile
import TreeLowering.Proofs.Emit.Congruence
import TreeLowering.Proofs.Scope.Renumbering

/-! # Compilation over a growing registry

A document that does not count the globals is compiled to the same text when the registry gains names:
its trees are alike up to the numbers of bindings, and no number is ever printed. -/
namespace TreeLowering
set_option autoImplicit false

open TreeLowering.Tree Edit Emit

variable {container : String} {before after : List String}

/-! ## Answers that stay -/

/-- An answer that is found the first way is found the second way too. -/
def StaysIn {α : Type} (r r' : Result α) : Prop := ∀ a, r = .ok a → r' = .ok a

theorem StaysIn.bind {α β γ : Type} {r : Result α} {r' : Result γ} {f : α → Result β} {f' : γ → Result β}
    (h : ∀ a, r = .ok a → ∃ c, r' = .ok c ∧ StaysIn (f a) (f' c)) : StaysIn (r >>= f) (r' >>= f') := by
  intro b hb
  cases hr : r with
  | error e =>
    rw [hr] at hb
    cases hb
  | ok a =>
    rw [hr] at hb
    obtain ⟨c, hc, hRest⟩ := h a hr
    rw [hc]
    exact hRest b hb

theorem StaysIn.mapM {α β : Type} {f f' : α → Result β} (h : ∀ x, StaysIn (f x) (f' x)) (xs : List α) :
    StaysIn (xs.mapM f) (xs.mapM f') := by
  induction xs with
  | nil => exact fun _ hb => hb
  | cons x xs ih =>
    rw [List.mapM_cons, List.mapM_cons]
    refine StaysIn.bind fun y hy => ⟨y, h x y hy, StaysIn.bind fun ys hys => ⟨ys, ih ys hys, ?_⟩⟩
    exact fun _ hb => hb

/-- What the first emission prints, the second prints too. -/
def Covers (m m' : Emit Unit) : Prop := ∀ k k', m k = .ok () k' → m' k = .ok () k'

namespace Covers

theorem refl (m : Emit Unit) : Covers m m := fun _ _ h => h

theorem seq {m m' n n' : Emit Unit} (hm : Covers m m') (hn : Covers n n') :
    Covers (m >>= fun _ => n) (m' >>= fun _ => n') := by
  intro k k' hRun
  simp only [bind, EStateM.bind] at hRun ⊢
  cases hFirst : m k with
  | error e w =>
    rw [hFirst] at hRun
    cases hRun
  | ok x w =>
    rw [hFirst] at hRun
    rw [hm k w hFirst]
    exact hn w k' hRun

theorem query {α β : Type} {r : Result α} {r' : Result β} {f : α → Emit Unit} {f' : β → Emit Unit}
    (h : ∀ a, r = .ok a → ∃ b, r' = .ok b ∧ Covers (f a) (f' b)) :
    Covers (Emit.query r >>= f) (Emit.query r' >>= f') := by
  intro k k' hRun
  cases hr : r with
  | error e =>
    rw [hr] at hRun
    cases hRun
  | ok a =>
    obtain ⟨b, hb, hRest⟩ := h a hr
    rw [hr] at hRun
    rw [hb]
    exact hRest k k' hRun

theorem ask {α : Type} {r r' : Result α} {f f' : α → Emit Unit} (h : StaysIn r r')
    (hf : ∀ a, Covers (f a) (f' a)) : Covers (Emit.query r >>= f) (Emit.query r' >>= f') :=
  query fun a ha => ⟨a, h a ha, hf a⟩

theorem printFound {r r' : Result String} (h : StaysIn r r') : Covers (Emit.printFound r) (Emit.printFound r') :=
  ask h fun _ => refl _

theorem congruence : Congruence Covers where
  pure := refl _
  print _ := refl _
  printIndent := refl _
  seq := seq
  block hm := seq (refl indent) (seq hm (refl outdent))

end Covers

/-! ## Settings over alike trees -/

namespace Tree.Regrown

variable {t u : Tree} (h : Regrown container before after t u)

include h

theorem checkScope (s : Nat) : u.checkScope s = t.checkScope s := by
  rw [Tree.checkScope, Tree.checkScope, containsScope, containsScope, h.frame.size]

theorem locals (s : Nat) : u.locals s = (t.locals s).map (renumber before after) := by
  by_cases hs : s = 0
  · -- No global is a local variable.
    have hNone : ∀ {w : Tree} {names : List String}, w.visible 0 = List.range names.length →
        (∀ (b : Nat) name, names[b]? = some name →
          w.bindings[b]? = some ⟨0, .var (Variable.ofMember name container)⟩) → w.locals 0 = [] := by
      intro w names hVisible hGlobal
      rw [Tree.locals, hVisible, List.filter_eq_nil_iff]
      intro b hb
      have hBinding := hGlobal b _ (List.getElem?_eq_getElem (List.mem_range.mp hb))
      rw [Tree.entryAt?, hBinding]
      exact Bool.false_ne_true
    rw [hs, hNone h.oldVisible h.oldGlobal, hNone h.newVisible h.newGlobal]
    rfl
  · rw [Tree.locals, Tree.locals, h.visible s hs, List.filter_map]
    congr 1
    refine List.filter_congr fun b _ => ?_
    rw [Function.comp_apply, h.entryAt?]
    cases t.entryAt? b <;> simp

theorem hoisted (f : Nat) : u.hoisted f = (t.hoisted f).map (renumber before after) := by
  rw [Tree.hoisted, Tree.hoisted, h.frame.ownedBlocks, List.map_append, List.map_flatMap, h.locals f]
  exact congrArg _ (congrArg ((t.ownedBlocks f).flatMap ·) (funext h.locals))

theorem localNames (r : Contract) (s : Nat) : (Setting.mk u r).localNames s = (Setting.mk t r).localNames s := by
  have hMap : ∀ bs : List Nat, (bs.map (renumber before after)).mapM u.targetIdentifier =
      bs.mapM t.targetIdentifier := by
    intro bs
    rw [List.mapM_map]
    exact congrArg bs.mapM (funext fun b => h.targetIdentifier b)
  simp only [Setting.localNames, functionScopeOf, hoistedBindings, h.checkScope, h.frame.functionScope,
    h.hoisted, bind_assoc, pure_bind, hMap]

theorem localTargetOrName (r : Contract) (s : Nat) (name : String) :
    StaysIn ((Setting.mk t r).localTargetOrName s name) ((Setting.mk u r).localTargetOrName s name) := by
  simp only [Setting.localTargetOrName, lookupLocal, h.checkScope, bind_assoc, pure_bind]
  refine StaysIn.bind fun x hx => ⟨x, hx, ?_⟩
  cases hNamed : t.named? s name with
  | some b =>
    rw [h.named?_of_eq_some hNamed]
    intro text hText
    exact (h.targetIdentifier b).trans hText
  | none =>
    rintro text ⟨⟩
    by_cases hs : s = 0
    · subst hs
      cases hNew : u.named? 0 name with
      | none => rfl
      | some b => exact h.targetIdentifier_of_named?_zero hNew
    · rw [h.named? hs, hNamed]
      rfl

theorem referenceText (r : Contract) {ref : Reference} (hRef : ref.OffGlobalSlots) :
    StaysIn ((Setting.mk t r).referenceText ref) ((Setting.mk u r).referenceText ref) := by
  refine StaysIn.bind fun b hb => ⟨_, h.resolveReference hRef hb, ?_⟩
  exact fun text hText => (h.bindingText b).trans hText

theorem innerSelf (r : Contract) (s : Nat) (loc : Option Location) :
    StaysIn ((Setting.mk t r).innerSelf s loc) ((Setting.mk u r).innerSelf s loc) := by
  simp only [Setting.innerSelf, lookupLocal, h.checkScope, bind_assoc, pure_bind]
  refine StaysIn.bind fun x hx => ⟨x, hx, ?_⟩
  cases hNamed : t.named? s Setting.selfName with
  | some b =>
    rw [h.named?_of_eq_some hNamed]
    exact fun text hText => (h.bindingText b).trans hText
  | none => exact fun text hText => by cases hText

theorem receiver (r : Contract) (s : Nat) (name : String) (loc : Option Location) {b : Nat}
    (hb : (Setting.mk t r).receiver s name loc = .ok b) :
    (Setting.mk u r).receiver s name loc = .ok (renumber before after b) := by
  rw [Setting.receiver] at hb ⊢
  rw [h.checkScope]
  cases hCheck : t.checkScope s with
  | error e =>
    rw [hCheck] at hb
    cases hb
  | ok x =>
    rw [hCheck] at hb
    cases hNearest : t.nearest? s name with
    | none =>
      simp only [hNearest] at hb
      cases hb
    | some c =>
      simp only [hNearest] at hb
      cases hb
      simp only [h.nearest? hNearest]
      rfl

theorem call (r : Contract) (isMethod : Bool) (s : Nat) (loc : Option Location) {callee callee' args args' : Emit Unit}
    (hCallee : Covers callee callee') (hArgs : Covers args args') :
    Covers (Emit.call ⟨t, r⟩ callee args isMethod s loc) (Emit.call ⟨u, r⟩ callee' args' isMethod s loc) := by
  have hText : ∀ b, StaysIn (t.bindingText b) (u.bindingText (renumber before after b)) :=
    fun b text hText => (h.bindingText b).trans hText
  have hTail : Covers (do args; print ")") (do args'; print ")") := hArgs.seq (.refl _)
  refine (Covers.congruence.parens hCallee).seq (Covers.query fun other hOther => ?_)
  refine ⟨_, h.receiver r s Setting.otherName loc hOther, ?_⟩
  cases isMethod with
  | true =>
    refine (Covers.refl _).seq (Covers.ask (hText other) fun text => ?_)
    exact (Covers.refl _).seq hTail
  | false =>
    refine Covers.query fun this hThis => ⟨_, h.receiver r s Setting.selfName loc hThis, ?_⟩
    refine (Covers.refl _).seq (Covers.ask (hText this) fun text => (Covers.refl _).seq ?_)
    refine (Covers.refl _).seq (Covers.ask (hText other) fun text => (Covers.refl _).seq hTail)

theorem withEach (r : Contract) (form : Form) (s : Nat) {index all : Reference} (loc : Option Location)
    {lines lines' : Emit Unit} (hIndex : index.OffGlobalSlots) (hAll : all.OffGlobalSlots)
    (hLines : Covers lines lines') : Covers (Emit.withEach ⟨t, r⟩ form s index all loc lines)
      (Emit.withEach ⟨u, r⟩ form s index all loc lines') := by
  refine Covers.ask (h.referenceText r hIndex) fun i => ?_
  refine Covers.ask (h.referenceText r hAll) fun objects => ?_
  refine Covers.ask (h.innerSelf r s loc) fun this => Covers.congruence.statement form ?_
  refine (Covers.refl _).seq (Covers.congruence.braced ?_ _)
  exact (Covers.refl _).seq ((Covers.refl _).seq hLines)

theorem corresponds (r : Contract) :
    Setting.Corresponds Covers Reference.OffGlobalSlots ⟨t, r⟩ ⟨u, r⟩ where
  runtime := rfl
  identifier name ref loc hRef := by
    cases ref with
    | none => exact Covers.refl _
    | some ref => exact Covers.printFound (h.referenceText r (hRef _ List.mem_cons_self))
  declared name ref loc hRef := by
    cases ref with
    | none => exact Covers.refl _
    | some ref =>
      refine Covers.printFound (StaysIn.bind fun b hb => ⟨_, h.resolveReference (hRef _ List.mem_cons_self) hb, ?_⟩)
      exact fun text hText => (h.targetIdentifier b).trans hText
  localAllocation s := by
    rw [Setting.localAllocation, Setting.localAllocation, h.localNames]
    exact Covers.refl _
  parameters params s := by
    have hNames := StaysIn.mapM (h.localTargetOrName r s) (Setting.otherName :: params)
    have hJoin : ∀ names : Result (List String), names.map (Text.join ", ") =
        names >>= fun names => pure (Text.join ", " names) := fun names => by cases names <;> rfl
    rw [hJoin, hJoin]
    refine Covers.printFound (StaysIn.bind fun names hOk => ⟨names, hNames names hOk, ?_⟩)
    exact fun _ hText => hText
  call isMethod s loc _ _ _ _ := h.call r isMethod s loc
  withEach form s index all loc _ _ := h.withEach r form s loc

end Tree.Regrown

theorem Program.lower_staysIn {p : Program} {t u : Tree} {options : Options}
    (h : Covers (p.lowerModule ⟨t, options.runtime⟩) (p.lowerModule ⟨u, options.runtime⟩)) :
    StaysIn (p.lower t options) (p.lower u options) := by
  intro text hText
  rw [Program.lower] at hText ⊢
  cases hRun : p.lowerModule ⟨t, options.runtime⟩ (Sink.empty options.indent) with
  | error e k =>
    rw [hRun] at hText
    cases hText
  | ok x k =>
    rw [hRun] at hText
    rw [h _ k hRun]
    exact hText

/-! ## Trees of documents -/

theorem Mention.existsIn_regrown {t u : Tree} (h : Regrown container before after t u) {m : Mention}
    (hm : m.Refers Reference.OffGlobalSlots) (hExists : m.existsIn t = true) : m.existsIn u = true := by
  cases m with
  | scope id loc => rwa [Mention.existsIn, containsScope, h.frame.size]
  | reference ref loc =>
    rw [Mention.existsIn, Option.isSome_iff_exists] at hExists ⊢
    obtain ⟨b, hb⟩ := hExists
    exact ⟨_, h.reference? hm hb⟩

namespace Document

/-- No reference of the document counts the bindings of the global scope. -/
def OffGlobalSlots (d : Document) : Prop :=
  (∀ declared ∈ d.scopes, declared.OffGlobalSlots) ∧
    ∀ m ∈ d.program.mentions, m.Refers Reference.OffGlobalSlots

theorem scopeTree_of_stages {d : Document} {registry : Registry} {options : Options} {globals attached t : Tree}
    (hGlobals : Tree.ofGlobals registry options.extraGlobals options.runtime.globalsIdentifier = .ok globals)
    (hAttach : ScopeDecl.attachAll d.scopes globals = .ok () attached)
    (hValid : d.program.validate attached = .ok ()) (hAllocate : Tree.allocate attached = .ok () t) :
    d.scopeTree registry options = .ok t := by
  simp only [scopeTree_eq, hGlobals, Except.bind, finish, grow, bind, EStateM.bind, hAttach, inspect, hValid, hAllocate]
  rfl

/-- A tree that a document builds over a registry has its counterpart over every larger one. -/
theorem scopeTree_regrown {d : Document} (hd : d.OffGlobalSlots) {options : Options} {r r' : Registry}
    (hNames : ∀ name ∈ r.names, name ∈ r'.names) (hExtra : ∀ name ∈ options.extraGlobals, name ∉ r'.names)
    {t : Tree} (h : d.scopeTree r options = .ok t) : ∃ u, d.scopeTree r' options = .ok u ∧
      Regrown options.runtime.globalsIdentifier (r.names ++ options.extraGlobals)
        (r'.names ++ options.extraGlobals) t u := by
  obtain ⟨globals, attached, hGlobals, hAttach, hValid, hAllocate⟩ := scopeTree_eq_ok h
  obtain ⟨globals', hGlobals', hFirst⟩ := ofGlobals_regrown hNames hExtra hGlobals
  obtain ⟨attached', hAttach', hSecond⟩ := ScopeDecl.attachAll_follows hd.1 _ _ _ hFirst hAttach
  obtain ⟨u, hAllocate', hLast⟩ := allocate_follows _ _ _ hSecond hAllocate
  refine ⟨u, scopeTree_of_stages hGlobals' hAttach' ?_ hAllocate', hLast⟩
  refine Mention.forM_check_eq_ok_iff.mpr fun m hm => ?_
  exact Mention.existsIn_regrown hSecond (hd.2 m hm) (Mention.forM_check_eq_ok_iff.mp hValid m hm)

/-- A document that is compiled over a registry is compiled to the same text over every larger one, as
long as no extra global becomes a name of the registry and no reference counts the globals. -/
theorem compile_over_larger_registry {d : Document} (hd : d.OffGlobalSlots) (options : Options)
    {r r' : Registry} (hNames : ∀ name ∈ r.names, name ∈ r'.names)
    (hExtra : ∀ name ∈ options.extraGlobals, name ∉ r'.names) {text : String}
    (h : d.compile r options = .ok text) : d.compile r' options = .ok text := by
  have hLowered : StaysIn (d.compile r options) (d.compile r' options) := by
    refine StaysIn.bind fun t ht => ?_
    obtain ⟨u, hu, hRegrown⟩ := scopeTree_regrown hd hNames hExtra ht
    refine ⟨u, hu, ?_⟩
    exact Program.lower_staysIn (Program.lowerModule_congr Covers.congruence
      (hRegrown.corresponds options.runtime) d.program hd.2)
  exact hLowered text h

/-- A program that links to a global, and binds and takes a name that a larger registry has too. -/
def linkedAbs : Document where
  scopes := [⟨0, .function, [.linked "size" (.named 0 "abs"), .plainLocal "floor"]⟩]
  program := ⟨[
    .assign (.identifier "floor" (some (.slot 1 1)) none) (.identifier "size" (some (.named 1 "size")) none) none,
    .define "run" (.mk ["floor"] (.nop none) 0) none], 1⟩

def linkedAbsText : String := "define(function(require) \x7b
    \"use strict\";
    var $G = require(\"angl/globals\");
    var $R = require(\"angl/runtime\");
    var floor;
    floor = $G.abs;
    $G.run = function(other, floor) \x7b
    \x7d;
\x7d);"

theorem linkedAbs_ignores_new_floor :
    linkedAbs.compile ⟨["abs"], by decide⟩ {} = .ok linkedAbsText ∧
      linkedAbs.compile ⟨["abs", "floor"], by decide⟩ {} = .ok linkedAbsText := by
  have hText : linkedAbs.compile ⟨["abs"], by decide⟩ {} = .ok linkedAbsText := by decide +kernel
  refine ⟨hText, compile_over_larger_registry ?_ {} (by simp) (by simp) hText⟩
  constructor
  · simp [linkedAbs, BindingDecl.plainLocal, ScopeDecl.OffGlobalSlots, BindingDecl.OffGlobalSlots,
      Reference.OffGlobalSlots]
  · simp [linkedAbs, Program.mentions, stmtsMentions, Stmt.mentions, Expr.mentions, Function.mentions,
      Mention.ofReference?, Mention.Refers, Reference.OffGlobalSlots]

end Document
end TreeLowering
