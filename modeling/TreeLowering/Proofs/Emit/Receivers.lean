import TreeLowering.Proofs.Emit.Demand

/-! # Lowering a validated program

Nothing but a missing receiver or a missing inner `self` keeps a validated program from being
lowered, by induction over its nodes. -/
namespace TreeLowering
set_option autoImplicit false

/-! ## What a finished tree answers -/

namespace Tree.Finished

variable {t : Tree} (h : t.Finished)

include h

theorem resolveReference {ref : Reference} (hExists : (t.reference? ref).isSome = true) :
    ∃ b, t.resolveReference ref = .ok b ∧ b < t.bindings.size := by
  obtain ⟨b, hb⟩ := Option.isSome_iff_exists.mp hExists
  exact ⟨b, resolveReference_eq_ok_iff.mpr hb, h.lt_of_mem (mem_visible_of_reference? hb)⟩

theorem lt_of_nearest? {s b : Nat} {name : String} (hb : t.nearest? s name = some b) :
    b < t.bindings.size := by
  obtain ⟨r, _, hNamed⟩ := List.exists_of_findSome?_eq_some hb
  exact h.lt_of_mem (mem_of_named? hNamed).1

end Tree.Finished

theorem exists_mapM_eq_ok {α β : Type} {f : α → Result β} {xs : List α} (h : ∀ x ∈ xs, ∃ y, f x = .ok y) :
    ∃ ys, xs.mapM f = .ok ys := by
  induction xs with
  | nil => exact ⟨[], rfl⟩
  | cons x xs ih =>
    obtain ⟨y, hy⟩ := h x List.mem_cons_self
    obtain ⟨ys, hys⟩ := ih fun z hz => h z (List.mem_cons_of_mem x hz)
    exact ⟨y :: ys, by rw [List.mapM_cons, hy, hys]; rfl⟩

namespace Setting

open TreeLowering.Tree

variable {g : Setting} (hg : g.tree.Finished)

include hg

theorem referenceText_eq_ok {ref : Reference} (hExists : (g.tree.reference? ref).isSome = true) :
    ∃ text, g.referenceText ref = .ok text := by
  obtain ⟨b, hResolve, hb⟩ := hg.resolveReference hExists
  obtain ⟨text, hText⟩ := hg.bindingText hb
  exact ⟨text, by rw [referenceText, hResolve]; exact hText⟩

theorem identifierText_eq_ok (name : String) {ref : Option Reference} {loc : Option Location}
    (hRef : ∀ m ∈ Mention.ofReference? ref loc, m.existsIn g.tree = true) :
    ∃ text, g.identifierText name ref = .ok text := by
  cases ref with
  | none => exact ⟨name, rfl⟩
  | some ref => exact referenceText_eq_ok hg (hRef _ List.mem_cons_self)

theorem declaredName_eq_ok (name : String) {ref : Option Reference} {loc : Option Location}
    (hRef : ∀ m ∈ Mention.ofReference? ref loc, m.existsIn g.tree = true) :
    ∃ text, g.declaredName name ref = .ok text := by
  cases ref with
  | none => exact ⟨name, rfl⟩
  | some ref =>
    obtain ⟨b, hResolve, hb⟩ := hg.resolveReference (hRef _ List.mem_cons_self)
    obtain ⟨text, hText⟩ := hg.targetIdentifier hb
    exact ⟨text, by rw [declaredName, hResolve]; exact hText⟩

theorem localTargetOrName_eq_ok {s : Nat} (hs : g.tree.containsScope s = true) (name : String) :
    ∃ text, g.localTargetOrName s name = .ok text := by
  have hLookup : g.tree.lookupLocal s name = .ok (g.tree.named? s name) := by
    rw [lookupLocal, checkScope, if_pos hs]
    rfl
  cases hNamed : g.tree.named? s name with
  | none => exact ⟨name, by rw [localTargetOrName, hLookup, hNamed]; rfl⟩
  | some b =>
    obtain ⟨text, hText⟩ := hg.targetIdentifier (hg.lt_of_mem (mem_of_named? hNamed).1)
    exact ⟨text, by rw [localTargetOrName, hLookup, hNamed]; exact hText⟩

theorem parameterNames_eq_ok {s : Nat} (hs : g.tree.containsScope s = true) (params : List String) :
    ∃ names, g.parameterNames params s = .ok names :=
  exists_mapM_eq_ok fun name _ => localTargetOrName_eq_ok hg hs name

theorem localNames_eq_ok {s : Nat} (hs : g.tree.containsScope s = true) :
    ∃ names, g.localNames s = .ok names := by
  have hFunction : g.tree.containsScope (g.tree.functionScope s) = true :=
    (containsScope_iff _ _).mpr (hg.functionScope_lt ((containsScope_iff _ _).mp hs))
  have hHoisted : ∀ b ∈ g.tree.hoisted (g.tree.functionScope s),
      ∃ name, g.tree.targetIdentifier b = .ok name := by
    intro b hb
    have hVisible : ∃ r, b ∈ g.tree.visible r := by
      rcases List.mem_append.mp hb with hOwn | hBlock
      · exact ⟨_, List.mem_of_mem_filter hOwn⟩
      · obtain ⟨r, _, hr⟩ := List.mem_flatMap.mp hBlock
        exact ⟨r, List.mem_of_mem_filter hr⟩
    obtain ⟨r, hr⟩ := hVisible
    exact hg.targetIdentifier (hg.lt_of_mem hr)
  obtain ⟨names, hNames⟩ := exists_mapM_eq_ok hHoisted
  refine ⟨names, ?_⟩
  rw [localNames, functionScopeOf, checkScope, if_pos hs]
  change (g.tree.hoistedBindings (g.tree.functionScope s) >>= fun bs => bs.mapM g.tree.targetIdentifier) = _
  rw [hoistedBindings, checkScope, if_pos hFunction]
  exact hNames

omit hg in
theorem receiver_cases {s : Nat} (hs : g.tree.containsScope s = true) (name : String)
    (loc : Option Location) :
    ((Demand.receiver s name).Met g.tree ∧ ∃ b, g.receiver s name loc = .ok b) ∨
      (¬(Demand.receiver s name).Met g.tree ∧
        ∃ name' seeker loc', g.receiver s name loc = .error (.fault (.unresolved name' seeker) loc')) := by
  simp only [Demand.Met, lookupChain, receiver, checkScope, if_pos hs, bind, Except.bind, pure, Except.pure]
  cases g.tree.nearest? s name with
  | some b => exact .inl ⟨⟨b, rfl⟩, b, rfl⟩
  | none =>
    refine .inr ⟨?_, name, .receiver, loc, rfl⟩
    rintro ⟨b, hb⟩
    cases hb

omit hg in
theorem nearest?_of_receiver {s b : Nat} {name : String} {loc : Option Location}
    (h : g.receiver s name loc = .ok b) : g.tree.nearest? s name = some b := by
  simp only [receiver, checkScope] at h
  split at h
  · simp only [bind, Except.bind, pure, Except.pure] at h
    cases hNearest : g.tree.nearest? s name with
    | none => simp [hNearest, throw, throwThe, MonadExceptOf.throw] at h
    | some c =>
      simp only [hNearest] at h
      cases h
      rfl
  · cases h

theorem receiverText_eq_ok {s b : Nat} {name : String} {loc : Option Location}
    (h : g.receiver s name loc = .ok b) : ∃ text, g.tree.bindingText b = .ok text :=
  hg.bindingText (hg.lt_of_nearest? (nearest?_of_receiver h))

theorem innerSelf_cases {s : Nat} (hs : g.tree.containsScope s = true) (loc : Option Location) :
    ((Demand.innerSelf s).Met g.tree ∧ ∃ text, g.innerSelf s loc = .ok text) ∨
      (¬(Demand.innerSelf s).Met g.tree ∧
        ∃ name seeker loc', g.innerSelf s loc = .error (.fault (.unresolved name seeker) loc')) := by
  simp only [Demand.Met, innerSelf, lookupLocal, checkScope, if_pos hs, bind, Except.bind, pure, Except.pure,
    selfName]
  cases hNamed : g.tree.named? s "self" with
  | some b =>
    obtain ⟨text, hText⟩ := hg.bindingText (hg.lt_of_mem (mem_of_named? hNamed).1)
    exact .inl ⟨⟨b, rfl⟩, text, hText⟩
  | none =>
    refine .inr ⟨?_, "self", .innerSelf, loc, rfl⟩
    rintro ⟨b, hb⟩
    cases hb

end Setting

/-! ## Shapes that read the tree -/

namespace Emit

variable {g : Setting} (hg : g.tree.Finished)

include hg

theorem serves_localAllocation {s : Nat} (hs : g.tree.containsScope s = true) :
    Serves g.tree [] (g.localAllocation s) := by
  refine .query (Setting.localNames_eq_ok hg hs) fun names _ => ?_
  split
  · exact serves_pure
  · exact serves_printIndent.afterSilent (serves_print _)

theorem Serves.functionBody {s : Nat} (hs : g.tree.containsScope s = true) (params : List String)
    {ds : List Demand} {lines : Emit Unit} (hLines : Serves g.tree ds lines) :
    Serves g.tree ds (Emit.functionBody g params s lines) := by
  refine (serves_print _).afterSilent (.query (Setting.parameterNames_eq_ok hg hs params) fun names _ => ?_)
  exact (serves_print _).afterSilent ((serves_print _).afterSilent
    (((serves_localAllocation hg hs).afterSilent hLines).braced _))

theorem Serves.call {s : Nat} (hs : g.tree.containsScope s = true) (isMethod : Bool) (loc : Option Location)
    {ds es : List Demand} {callee args : Emit Unit} (hCallee : Serves g.tree ds callee)
    (hArgs : Serves g.tree es args) :
    Serves g.tree (ds ++ (Demand.ofCall s isMethod ++ es)) (Emit.call g callee args isMethod s loc) := by
  refine hCallee.parens.seq ?_
  cases isMethod with
  | true =>
    refine .lookup (Setting.receiver_cases hs _ loc) fun other hOther => ?_
    refine (serves_print _).afterSilent (.query (Setting.receiverText_eq_ok hg hOther) fun text _ => ?_)
    exact (serves_print _).afterSilent (hArgs.thenSilent (serves_print _))
  | false =>
    refine .lookup (Setting.receiver_cases hs _ loc) fun other hOther => ?_
    refine .lookup (Setting.receiver_cases hs _ loc) fun this hThis => ?_
    refine (serves_print _).afterSilent (.query (Setting.receiverText_eq_ok hg hThis) fun text _ => ?_)
    refine (serves_print _).afterSilent ((serves_print _).afterSilent ?_)
    refine .query (Setting.receiverText_eq_ok hg hOther) fun text _ => ?_
    exact (serves_print _).afterSilent (hArgs.thenSilent (serves_print _))

theorem Serves.withEach {s : Nat} (hs : g.tree.containsScope s = true) (form : Form) {index all : Reference}
    (hIndex : (g.tree.reference? index).isSome = true) (hAll : (g.tree.reference? all).isSome = true)
    (loc : Option Location) {ds : List Demand} {lines : Emit Unit} (hLines : Serves g.tree ds lines) :
    Serves g.tree (.innerSelf s :: ds) (Emit.withEach g form s index all loc lines) := by
  refine .query (Setting.referenceText_eq_ok hg hIndex) fun i _ => ?_
  refine .query (Setting.referenceText_eq_ok hg hAll) fun objects _ => ?_
  refine .lookup (Setting.innerSelf_cases hg hs loc) fun this _ => ?_
  refine Serves.statement form ((serves_print _).afterSilent (Serves.braced ?_ _))
  exact (serves_indentUnless _).afterSilent ((serves_print _).afterSilent hLines)

end Emit

/-! ## Every node -/

section

open Emit

variable {g : Setting}

mutual
theorem Expr.lower_serves (hg : g.tree.Finished) (e : Expr) (h : ∀ m ∈ e.mentions, m.existsIn g.tree = true) :
    Serves g.tree e.demands (e.lower g) := by
  match e with
  | .identifier name ref loc =>
    exact .query (Setting.identifierText_eq_ok hg name h) fun text _ => serves_print text
  | .binary op left right _ =>
    rw [Expr.mentions, List.forall_mem_append] at h
    exact (left.lower_serves hg h.1).binary op (right.lower_serves hg h.2)
  | .unary op operand _ => exact (operand.lower_serves hg h).unary op
  | .number value _ => exact (serves_print _).parens
  | .string value _ => exact serves_print _
  | .index base indexes _ =>
    rw [Expr.mentions, List.forall_mem_append] at h
    exact (base.lower_serves hg h.1).parens.seq (lowerIndexes_serves hg indexes h.2)
  | .call callee args isMethod scope loc =>
    rw [Expr.mentions, List.forall_mem_cons, List.forall_mem_append] at h
    exact .call hg h.1 isMethod loc (callee.lower_serves hg h.2.1) (lowerFurther_serves hg args h.2.2)
  | .closure fn loc => exact fn.lower_serves hg h
  | .rawCall code args _ => exact (lowerArgs_serves hg args h).rawCall code
  | .raw code _ => exact serves_print code

theorem lowerIndexes_serves (hg : g.tree.Finished) (es : List Expr)
    (h : ∀ m ∈ exprsMentions es, m.existsIn g.tree = true) :
    Serves g.tree (exprsDemands es) (lowerIndexes g es) := by
  match es with
  | [] => exact serves_pure
  | e :: rest =>
    rw [exprsMentions, List.forall_mem_append] at h
    exact (serves_print _).afterSilent ((e.lower_serves hg h.1).seq
      ((serves_print _).afterSilent (lowerIndexes_serves hg rest h.2)))

theorem lowerFurther_serves (hg : g.tree.Finished) (es : List Expr)
    (h : ∀ m ∈ exprsMentions es, m.existsIn g.tree = true) :
    Serves g.tree (exprsDemands es) (lowerFurther g es) := by
  match es with
  | [] => exact serves_pure
  | e :: rest =>
    rw [exprsMentions, List.forall_mem_append] at h
    exact (serves_print _).afterSilent ((e.lower_serves hg h.1).seq (lowerFurther_serves hg rest h.2))

theorem lowerArgs_serves (hg : g.tree.Finished) (es : List Expr)
    (h : ∀ m ∈ exprsMentions es, m.existsIn g.tree = true) : Serves g.tree (exprsDemands es) (lowerArgs g es) := by
  match es with
  | [] => exact serves_pure
  | e :: rest =>
    rw [exprsMentions, List.forall_mem_append] at h
    exact (e.lower_serves hg h.1).seq (lowerFurther_serves hg rest h.2)

theorem Function.lowerBody_serves (hg : g.tree.Finished) (fn : Function) {loc : Option Location}
    (h : ∀ m ∈ fn.mentions loc, m.existsIn g.tree = true) :
    Serves g.tree fn.demands (fn.lowerBody g) := by
  match fn with
  | .mk params body scope =>
    rw [Function.mentions, List.forall_mem_cons] at h
    exact .functionBody hg h.1 params (body.lower_serves hg .full h.2)

theorem Function.lower_serves (hg : g.tree.Finished) (fn : Function) {loc : Option Location}
    (h : ∀ m ∈ fn.mentions loc, m.existsIn g.tree = true) :
    Serves g.tree fn.demands (fn.lower g) := by
  match fn with
  | .mk params body scope =>
    rw [Function.mentions, List.forall_mem_cons] at h
    exact (serves_print _).afterSilent (.functionBody hg h.1 params (body.lower_serves hg .full h.2))

theorem Stmt.lower_serves (hg : g.tree.Finished) (form : Form) (s : Stmt)
    (h : ∀ m ∈ s.mentions, m.existsIn g.tree = true) : Serves g.tree s.demands (s.lower g form) := by
  match s with
  | .declare declarators _ =>
    exact .statement form ((serves_print _).afterSilent (lowerDeclarators_serves hg declarators h))
  | .assign left right _ =>
    rw [Stmt.mentions, List.forall_mem_append] at h
    exact .statement form ((left.lower_serves hg h.1).seq
      ((serves_print _).afterSilent (right.lower_serves hg h.2)))
  | .define name fn _ => exact .statement form ((serves_print _).afterSilent (fn.lowerBody_serves hg h))
  | .constant name value _ => exact .statement form ((serves_print _).afterSilent (value.lower_serves hg h))
  | .switch subject clauses _ =>
    rw [Stmt.mentions, List.forall_mem_append] at h
    exact .statement form ((subject.lower_serves hg h.1).guarded form "switch" (lowerClauses_serves hg clauses h.2))
  | .loop init condition step body _ =>
    simp only [Stmt.mentions, List.forall_mem_append] at h
    obtain ⟨⟨⟨hInit, hCondition⟩, hStep⟩, hBody⟩ := h
    exact .statement form (.loop form (init.lower_serves hg .inline hInit) (condition.lower_serves hg hCondition)
      (step.lower_serves hg .inline hStep) (body.lower_serves hg .full hBody))
  | .when condition body _ =>
    rw [Stmt.mentions, List.forall_mem_append] at h
    have hBranch := Serves.branch form (condition.lower_serves hg h.1) (body.lower_serves hg .full h.2) serves_pure
    rw [List.append_nil] at hBranch
    exact hBranch.statement form
  | .branch condition yes no _ =>
    simp only [Stmt.mentions, List.forall_mem_append] at h
    obtain ⟨⟨hCondition, hYes⟩, hNo⟩ := h
    exact .statement form (.branch form (condition.lower_serves hg hCondition) (yes.lower_serves hg .full hYes)
      (no.lower_serves hg .full hNo))
  | .repeatWhile condition body _ =>
    rw [Stmt.mentions, List.forall_mem_append] at h
    exact .statement form ((condition.lower_serves hg h.1).guarded form "while" (body.lower_serves hg .full h.2))
  | .repeatUntil body condition _ =>
    rw [Stmt.mentions, List.forall_mem_append] at h
    exact .statement form (.repeatUntil form (body.lower_serves hg .full h.2) (condition.lower_serves hg h.1))
  | .breakLoop _ | .continueLoop _ | .exit _ => exact .statement form (serves_print _)
  | .block body _ => exact lowerStmts_serves hg body h
  | .withEach subject body scope index all loc =>
    simp only [Stmt.mentions, List.forall_mem_append, List.forall_mem_cons] at h
    obtain ⟨⟨⟨hScope, hIndex, hAll, _⟩, _⟩, hBody⟩ := h
    exact .withEach hg hScope form hIndex hAll loc (body.lower_serves hg .full hBody)
  | .returnValue value _ =>
    exact .statement form ((serves_print _).afterSilent (value.lower_serves hg h).parens)
  | .object name parent init create destroy methods _ =>
    simp only [Stmt.mentions, List.forall_mem_append] at h
    obtain ⟨⟨⟨hInit, hCreate⟩, hDestroy⟩, hMethods⟩ := h
    refine .statement form (.object g form name parent fun self => ?_)
    exact ((init.lower_serves hg hInit).member form self _).seq
      ((lowerHook_serves hg form self _ create hCreate).seq
        ((lowerHook_serves hg form self _ destroy hDestroy).seq (lowerMethods_serves hg form self methods hMethods)))
  | .nop _ => exact serves_pure
  | .call callee args isMethod scope loc =>
    rw [Stmt.mentions, List.forall_mem_cons, List.forall_mem_append] at h
    exact .statement form
      (.call hg h.1 isMethod loc (callee.lower_serves hg h.2.1) (lowerFurther_serves hg args h.2.2))
  | .rawCall code args _ => exact .statement form ((lowerArgs_serves hg args h).rawCall code)

theorem lowerStmts_serves (hg : g.tree.Finished) (ss : List Stmt)
    (h : ∀ m ∈ stmtsMentions ss, m.existsIn g.tree = true) : Serves g.tree (stmtsDemands ss) (lowerStmts g ss) := by
  match ss with
  | [] => exact serves_pure
  | s :: rest =>
    rw [stmtsMentions, List.forall_mem_append] at h
    exact (s.lower_serves hg .full h.1).seq (lowerStmts_serves hg rest h.2)

theorem Declarator.lower_serves (hg : g.tree.Finished) (d : Declarator) {loc : Option Location}
    (h : ∀ m ∈ d.mentions loc, m.existsIn g.tree = true) : Serves g.tree d.demands (d.lower g) := by
  match d with
  | .mk name none ref =>
    exact .query (Setting.declaredName_eq_ok hg name h) fun text _ => serves_print text
  | .mk name (some value) ref =>
    rw [Declarator.mentions, List.forall_mem_append] at h
    refine .query (Setting.declaredName_eq_ok hg name h.1) fun text _ => ?_
    exact (serves_print _).afterSilent ((serves_print _).afterSilent (value.lower_serves hg h.2))

theorem lowerDeclarators_serves (hg : g.tree.Finished) (ds : List Declarator) {loc : Option Location}
    (h : ∀ m ∈ declaratorsMentions loc ds, m.existsIn g.tree = true) :
    Serves g.tree (declaratorsDemands ds) (lowerDeclarators g ds) := by
  match ds with
  | [] => exact serves_pure
  | [d] =>
    rw [declaratorsMentions, List.forall_mem_append] at h
    rw [declaratorsDemands, declaratorsDemands, List.append_nil]
    exact d.lower_serves hg h.1
  | d :: e :: rest =>
    rw [declaratorsMentions, List.forall_mem_append] at h
    exact (d.lower_serves hg h.1).seq ((serves_print _).afterSilent (lowerDeclarators_serves hg (e :: rest) h.2))

theorem Clause.lower_serves (hg : g.tree.Finished) (c : Clause) (h : ∀ m ∈ c.mentions, m.existsIn g.tree = true) :
    Serves g.tree c.demands (c.lower g) := by
  match c with
  | .case value body =>
    rw [Clause.mentions, List.forall_mem_append] at h
    exact .clause ((serves_print _).afterSilent (value.lower_serves hg h.1).parens) (body.lower_serves hg .full h.2)
  | .default body => exact Serves.clause (serves_print _) (body.lower_serves hg .full h)

theorem lowerClauses_serves (hg : g.tree.Finished) (cs : List Clause)
    (h : ∀ m ∈ clausesMentions cs, m.existsIn g.tree = true) :
    Serves g.tree (clausesDemands cs) (lowerClauses g cs) := by
  match cs with
  | [] => exact serves_pure
  | c :: rest =>
    rw [clausesMentions, List.forall_mem_append] at h
    exact (c.lower_serves hg h.1).seq (lowerClauses_serves hg rest h.2)

theorem lowerHook_serves (hg : g.tree.Finished) (form : Form) (self name : String) (fn : Option Function)
    {loc : Option Location} (h : ∀ m ∈ functionMentions? loc fn, m.existsIn g.tree = true) :
    Serves g.tree (functionDemands? fn) (lowerHook g form self name fn) := by
  match fn with
  | none => exact serves_pure
  | some fn => exact (fn.lower_serves hg h).member form self name

theorem lowerMethods_serves (hg : g.tree.Finished) (form : Form) (self : String) (ms : List Method)
    {loc : Option Location} (h : ∀ m ∈ methodsMentions loc ms, m.existsIn g.tree = true) :
    Serves g.tree (methodsDemands ms) (lowerMethods g form self ms) := by
  match ms with
  | [] => exact serves_pure
  | .mk name fn :: rest =>
    rw [methodsMentions, List.forall_mem_append] at h
    exact ((fn.lower_serves hg h.1).member form self name).seq (lowerMethods_serves hg form self rest h.2)
end

end

namespace Program

open Emit

theorem lowerModule_serves {p : Program} {g : Setting} (hg : g.tree.Finished)
    (h : ∀ m ∈ p.mentions, m.existsIn g.tree = true) : Serves g.tree p.demands (p.lowerModule g) := by
  rw [mentions, List.forall_mem_cons] at h
  have hLine : ∀ s, Serves g.tree [] (line s) := fun s =>
    serves_printIndent.afterSilent ((serves_print _).afterSilent (serves_print _))
  refine (serves_print _).afterSilent (Serves.thenSilent (Serves.braced ?_ true) (serves_print _))
  exact (hLine _).afterSilent ((hLine _).afterSilent ((hLine _).afterSilent
    ((serves_localAllocation hg h.1).afterSilent (lowerStmts_serves hg p.body h.2))))

end Program

/-- In the tree of a validated document the program is lowered exactly if every call finds its
receivers and every `with` statement its inner `self`. Lowering never leaves the tree and fails in no
other way. -/
theorem lower_eq_ok_iff_demands_met {d : Document} {registry : Registry} {options : Options} {t : Tree}
    (h : d.scopeTree registry options = .ok t) :
    ((∃ text, d.program.lower t options = .ok text) ↔ ∀ demand ∈ d.program.demands, demand.Met t) ∧
      ∀ e, d.program.lower t options = .error e →
        ∃ cause loc, e = .fault cause loc ∧ cause.kind = .unresolvedIdentifier := by
  obtain ⟨hFinished, hMentions⟩ := Document.scopeTree_finished h
  have hServes := Program.lowerModule_serves (g := ⟨t, options.runtime⟩) hFinished hMentions
  rw [Program.lower]
  rcases hServes (Sink.empty options.indent) with ⟨hMet, text, hOk⟩ | ⟨hUnmet, name, seeker, loc, k, hError⟩
  · rw [hOk]
    exact ⟨⟨fun _ => hMet, fun _ => ⟨text, rfl⟩⟩, fun e he => by cases he⟩
  · rw [hError]
    refine ⟨⟨fun ⟨text, hText⟩ => (by cases hText), fun hMet => absurd hMet hUnmet⟩, ?_⟩
    intro e he
    cases he
    exact ⟨_, loc, rfl, rfl⟩

/-- A loop over instances in a scope that binds `self` and no `other`; its subject is a call. -/
def loopOverCall (body : Stmt) : Document where
  scopes := [⟨0, .function, [.plainLocal "self",
    .plainLocal "i", .plainLocal "all"]⟩]
  program := ⟨[.withEach (.call (.raw "f" none) [] true 1 none) body 1 (.named 1 "i") (.slot 1 2) none], 1⟩

def loopOverCallTree : Tree where
  scopes := #[⟨.global, none, []⟩, ⟨.function, some 0, [0, 1, 2]⟩]
  bindings := #[⟨1, .var ((Variable.ofLocal "self").withTarget "self")⟩,
    ⟨1, .var ((Variable.ofLocal "i").withTarget "i")⟩, ⟨1, .var ((Variable.ofLocal "all").withTarget "all")⟩]

/-- The call in the subject is not emitted and needs no receiver; the same call in the body does. -/
theorem call_needs_receiver_in_body_only :
    (∃ text, (loopOverCall (.nop none)).program.lower loopOverCallTree {} = .ok text) ∧
      ¬∃ text, (loopOverCall (.call (.raw "f" none) [] true 1 none)).program.lower loopOverCallTree {} =
        .ok text := by
  have hTree : (loopOverCall (.nop none)).scopeTree .empty {} = .ok loopOverCallTree := by rfl
  have hCallTree : (loopOverCall (.call (.raw "f" none) [] true 1 none)).scopeTree .empty {} =
      .ok loopOverCallTree := by rfl
  refine ⟨(lower_eq_ok_iff_demands_met hTree).1.mpr ?_, ?_⟩
  · intro demand hDemand
    obtain rfl : demand = .innerSelf 1 := by
      simpa [loopOverCall, Program.demands, stmtsDemands, Stmt.demands] using hDemand
    exact ⟨0, rfl⟩
  · intro hText
    obtain ⟨b, hb⟩ := (lower_eq_ok_iff_demands_met hCallTree).1.mp hText (.receiver 1 "other") (by decide)
    cases hb

end TreeLowering
