import TreeLowering.Proofs.Program.Codec

/-! # Nodes are decoded from what is written for them

Every kind of expression and statement keeps its fields when it is written and decoded again: one lemma
for each record, one case for each variant. The literals of a node are the doubles that have to be spelled
so that they denote themselves. -/
namespace TreeLowering
set_option autoImplicit false

open Decoder Record Variant

/-! ## Number literals of a program -/

mutual
def Expr.literals : Expr → List Binary64
  | .identifier .. | .string .. | .raw .. => []
  | .binary _ left right _ => left.literals ++ right.literals
  | .unary _ operand _ => operand.literals
  | .number value _ => [value]
  | .index base indexes _ => base.literals ++ exprsLiterals indexes
  | .call callee args _ _ _ => callee.literals ++ exprsLiterals args
  | .closure fn _ => fn.literals
  | .rawCall _ args _ => exprsLiterals args

def exprsLiterals : List Expr → List Binary64
  | [] => []
  | e :: rest => e.literals ++ exprsLiterals rest

def exprLiterals? : Option Expr → List Binary64
  | some e => e.literals
  | none => []

def Function.literals : Function → List Binary64
  | .mk _ body _ => body.literals

def functionLiterals? : Option Function → List Binary64
  | some fn => fn.literals
  | none => []

def Stmt.literals : Stmt → List Binary64
  | .declare declarators _ => declaratorsLiterals declarators
  | .assign left right _ => left.literals ++ right.literals
  | .define _ fn _ => fn.literals
  | .constant _ value _ => value.literals
  | .switch subject clauses _ => subject.literals ++ clausesLiterals clauses
  | .loop init condition step body _ => init.literals ++ condition.literals ++ step.literals ++ body.literals
  | .when condition body _ => condition.literals ++ body.literals
  | .branch condition yes no _ => condition.literals ++ yes.literals ++ no.literals
  | .repeatWhile condition body _ => condition.literals ++ body.literals
  | .repeatUntil body condition _ => body.literals ++ condition.literals
  | .breakLoop _ | .continueLoop _ | .exit _ | .nop _ => []
  | .block body _ => stmtsLiterals body
  | .withEach subject body _ _ _ _ => subject.literals ++ body.literals
  | .returnValue value _ => value.literals
  | .object _ _ init create destroy methods _ =>
    init.literals ++ functionLiterals? create ++ functionLiterals? destroy ++ methodsLiterals methods
  | .call callee args _ _ _ => callee.literals ++ exprsLiterals args
  | .rawCall _ args _ => exprsLiterals args

def stmtsLiterals : List Stmt → List Binary64
  | [] => []
  | s :: rest => s.literals ++ stmtsLiterals rest

def Declarator.literals : Declarator → List Binary64
  | .mk _ value _ => exprLiterals? value

def declaratorsLiterals : List Declarator → List Binary64
  | [] => []
  | d :: rest => d.literals ++ declaratorsLiterals rest

def Clause.literals : Clause → List Binary64
  | .case value body => value.literals ++ body.literals
  | .default body => body.literals

def clausesLiterals : List Clause → List Binary64
  | [] => []
  | c :: rest => c.literals ++ clausesLiterals rest

def Method.literals : Method → List Binary64
  | .mk _ fn => fn.literals

def methodsLiterals : List Method → List Binary64
  | [] => []
  | m :: rest => m.literals ++ methodsLiterals rest
end

/-- Every literal denotes itself. -/
def Rereading {α : Type} (literals : α → List Binary64) (a : α) : Prop := ∀ x ∈ literals a, x.Rereads

theorem Decoder.Keeps.each {α : Type} {d : Decoder α} {literals : α → List Binary64} {write : α → Json}
    (h : d.Keeps (Rereading literals) write) {literalsAll : List α → List Binary64}
    {writeAll : List α → List Json}
    (hNil : writeAll [] = []) (hWrite : ∀ a as, writeAll (a :: as) = write a :: writeAll as)
    (hLiterals : ∀ a as, literalsAll (a :: as) = literals a ++ literalsAll as) :
    d.list.Keeps (Rereading literalsAll) fun as => .array (writeAll as) := by
  refine h.list.mono (fun as => ?_) fun as hAll => ?_
  · induction as with
    | nil => rw [hNil, List.map_nil]
    | cons a as ih =>
      rw [hWrite, List.map_cons]
      exact congrArg (fun js => Json.array (write a :: js)) (Json.array.inj ih)
  · induction as with
    | nil => rintro a ⟨⟩
    | cons a as ih =>
      rw [Rereading, hLiterals, List.forall_mem_append] at hAll
      rw [List.forall_mem_cons]
      exact ⟨hAll.1, ih hAll.2⟩

/-! ## References -/

namespace Reference

theorem named_yields : namedRecord.Yields fun ref => decoder.Restores ref.toJson ref := by
  refine Record.Yields.map ((keeps_required keeps_natural "scope").and (keeps_required keeps_text "name")
    (by decide)) ?_
  rintro ⟨s, name⟩ h
  have hObject := ((h ⟨trivial, trivial⟩).map fun p => named p.1 p.2).object
  refine restores_firstOf [] [slotRecord.object] hObject ?_
  rintro d ⟨⟩

theorem slot_yields : slotRecord.Yields fun ref => decoder.Restores ref.toJson ref := by
  refine Record.Yields.map ((keeps_required keeps_natural "scope").and (keeps_required keeps_natural "index")
    (by decide)) ?_
  rintro ⟨s, index⟩ h
  have hObject := ((h ⟨trivial, trivial⟩).map fun p => slot p.1 p.2).object
  -- The named form is tried first and fails for want of a name.
  refine restores_firstOf [namedRecord.object] [] hObject ?_
  rw [List.forall_mem_singleton]
  have hName : namedRecord.Needs "name" := Needs.map ((needs_required "name" .text).and _) _
  exact hName.object_toOption (by simp [Member.entry, Member.key])

theorem keeps : decoder.Keeps (fun _ => True) toJson := by
  have hForms : ∀ d ∈ [namedRecord.object, slotRecord.object], d.Yields fun ref =>
    decoder.Restores ref.toJson ref := by
    rw [List.forall_mem_cons, List.forall_mem_singleton]
    exact ⟨named_yields.object, slot_yields.object⟩
  exact fun source j ref h _ => yields_firstOf hForms source j ref h

end Reference

/-! ## Operators -/

theorem BinaryOp.keeps : BinaryOp.decoder.Keeps (fun _ => True) fun op => .string op.symbol :=
  fun _ _ op _ _ => restores_choice (by cases op <;> rfl)

theorem UnaryOp.keeps : UnaryOp.decoder.Keeps (fun _ => True) fun op => .string op.symbol :=
  fun _ _ op _ _ => restores_choice (by cases op <;> rfl)

/-! ## Records of nodes -/

theorem Expr.toJson_ne_null (e : Expr) : e.toJson ≠ .null := by
  cases e <;> exact Json.noConfusion

theorem Reference.toJson_ne_null (ref : Reference) : ref.toJson ≠ .null := by
  cases ref <;> exact Json.noConfusion

section

variable {expr : Decoder Expr} {stmt : Decoder Stmt} (hExpr : expr.Keeps (Rereading Expr.literals) Expr.toJson)
  (hStmt : stmt.Keeps (Rereading Stmt.literals) Stmt.toJson)

include hStmt in
theorem Function.keeps : (Function.record stmt).Keeps ["args", "stmts", "scope"] (Rereading Function.literals)
    Function.members := by
  refine Record.Keeps.map ((keeps_withDefault keeps_text.list "args" [] (restores_nil _)).and
    ((keeps_required hStmt "stmts").and (keeps_required keeps_natural "scope") (by decide)) (by decide)) ?_
  rintro ⟨params, body, scope⟩
  exact ⟨rfl, fun h => ⟨fun _ _ => trivial, h, trivial⟩⟩

include hStmt in
theorem Function.keeps_optional (name : String) : (Record.optional name (Function.decoder stmt)).Keeps [name]
    (Rereading functionLiterals?) fun o => Member.optionalEntry name (functionToJson? o) := by
  have hDecoder := Record.Keeps.decoder (Function.keeps hStmt)
  refine (Record.keeps_optional hDecoder (fun _ => Json.noConfusion) name).mono fun o h hFits => ?_
  cases o with
  | none => exact h (by rintro fn ⟨⟩)
  | some fn => exact h (by rintro fn ⟨⟩; exact hFits)

include hStmt in
theorem Method.keeps : (Method.decoder stmt).Keeps (Rereading Method.literals) Method.toJson := by
  refine Record.Yields.around (keeps_required keeps_text "methodname") fun name held m hName hm hFits => ?_
  obtain ⟨fn, hFn, rfl⟩ := exists_of_map_eq_ok hm
  have hAbsorbs := members_yields (Function.keeps hStmt) hFn hFits
  refine ((hName trivial).around _ fn.members ?_ hAbsorbs.writable ?_).1
  · intro m hm
    obtain ⟨key, hKey, hm⟩ := hAbsorbs.keys m hm
    exact ⟨key, hm, fun hMem => absurd hKey (by rw [List.mem_singleton.mp hMem]; decide)⟩
  · have hHeld : ∀ m ∈ fn.members, Source.Admits .memory m.value := fun _ _ => trivial
    exact congrArg (Except.map (Method.mk name)) (hAbsorbs.members hHeld)

include hExpr in
theorem Declarator.keeps : (Declarator.decoder expr).Keeps (Rereading Declarator.literals) Declarator.toJson := by
  refine Record.Keeps.decoder_map ((keeps_required keeps_text "name").and
    ((keeps_optional hExpr Expr.toJson_ne_null "expr").and
      (keeps_optional Reference.keeps Reference.toJson_ne_null "variable") (by decide)) (by decide)) ?_
  rintro ⟨name, value, ref⟩
  cases value with
  | none => exact ⟨rfl, fun _ => ⟨trivial, by rintro e ⟨⟩, fun _ _ => trivial⟩⟩
  | some e => exact ⟨rfl, fun h => ⟨trivial, by rintro e ⟨⟩; exact h, fun _ _ => trivial⟩⟩

include hExpr hStmt in
theorem Clause.keeps : (Clause.decoder expr stmt).Keeps (Rereading Clause.literals) Clause.toJson := by
  apply Variant.keeps_decoder
  · exact (by decide : ["case", "defaultcase"].Nodup)
  · rw [List.forall_mem_cons, List.forall_mem_singleton]
    constructor
    · refine Variant.keeps_ofRecord ((keeps_required hExpr "expr").and (keeps_required hStmt "stmts") (by decide))
        (by decide) ?_
      rintro ⟨value, body⟩
      exact ⟨rfl, List.forall_mem_append.mp⟩
    · exact Variant.keeps_ofRecord (keeps_required hStmt "stmts") (by decide) fun _ => ⟨rfl, id⟩

include hExpr in
theorem exprs_keeps : expr.list.Keeps (Rereading exprsLiterals) fun es => .array (exprsToJson es) :=
  hExpr.each rfl (fun _ _ => rfl) fun _ _ => rfl

include hStmt in
theorem stmts_keeps : stmt.list.Keeps (Rereading stmtsLiterals) fun ss => .array (stmtsToJson ss) :=
  hStmt.each rfl (fun _ _ => rfl) fun _ _ => rfl

include hExpr in
theorem Expr.callRecord_keeps : (callRecord expr).Keeps ["expr", "args", "isMethodCall", "scope"]
    (fun p => Rereading Expr.literals p.1 ∧ Rereading exprsLiterals p.2.1)
    fun p => [.entry "expr" p.1.toJson, .entry "args" (.array (exprsToJson p.2.1)),
      .entry "isMethodCall" (.bool p.2.2.1), .entry "scope" (.ofNat p.2.2.2)] := by
  have hFields :=
    (keeps_required hExpr "expr").and ((keeps_withDefault (exprs_keeps hExpr) "args" [] (restores_nil _)).and
    ((keeps_withDefault keeps_flag "isMethodCall" false (restores_flag false)).and
      (keeps_required keeps_natural "scope")
      (by decide)) (by decide)) (by decide)
  exact hFields.mono fun p h hFits => h ⟨hFits.1, hFits.2, trivial, trivial⟩

include hExpr in
theorem Expr.rawCallRecord_keeps : (rawCallRecord expr).Keeps ["expr", "args"]
    (fun p => Rereading exprsLiterals p.2)
    fun p => [.entry "expr" (.string p.1), .entry "args" (.array (exprsToJson p.2))] := by
  have hFields := (keeps_required keeps_text "expr").and
    (keeps_withDefault (exprs_keeps hExpr) "args" [] (restores_nil _)) (by decide)
  exact hFields.mono fun p h hFits => h ⟨trivial, hFits⟩

include hExpr hStmt in
theorem Expr.variants_keep : ∀ v ∈ Expr.variants expr stmt, v.KeepsNode (Rereading Expr.literals) Expr.toJson := by
  simp only [Expr.variants, List.forall_mem_cons]
  refine ⟨?identifier, ?binary, ?unary, ?number, ?string, ?index, ?call, ?closure, ?rawCall, ?raw,
    by rintro v ⟨⟩⟩
  case identifier =>
    refine keepsNode_ofRecord ((keeps_required keeps_text "name").and
      (keeps_optional Reference.keeps Reference.toJson_ne_null "variable") (by decide)) (by decide) ?_
    rintro ⟨name, ref⟩ loc
    exact ⟨rfl, fun _ => ⟨trivial, fun _ _ => trivial⟩⟩
  case binary =>
    refine keepsNode_ofRecord ((keeps_required BinaryOp.keeps "op").and
      ((keeps_required hExpr "expr1").and (keeps_required hExpr "expr2") (by decide)) (by decide)) (by decide) ?_
    rintro ⟨op, left, right⟩ loc
    exact ⟨rfl, fun h => ⟨trivial, List.forall_mem_append.mp h⟩⟩
  case unary =>
    refine keepsNode_ofRecord ((keeps_required UnaryOp.keeps "op").and (keeps_required hExpr "expr") (by decide))
      (by decide) ?_
    rintro ⟨op, operand⟩ loc
    exact ⟨rfl, fun h => ⟨trivial, h⟩⟩
  case number =>
    exact keepsNode_ofRecord (keeps_required keeps_double "val") (by decide)
      fun value loc => ⟨rfl, fun h => h value List.mem_cons_self⟩
  case string =>
    exact keepsNode_ofRecord (keeps_required keeps_text "val") (by decide) fun value loc => ⟨rfl, fun _ => trivial⟩
  case index =>
    refine keepsNode_ofRecord ((keeps_required hExpr "expr").and (keeps_required (exprs_keeps hExpr) "indexes")
      (by decide)) (by decide) ?_
    rintro ⟨base, indexes⟩ loc
    exact ⟨rfl, List.forall_mem_append.mp⟩
  case call =>
    refine keepsNode_ofRecord (Expr.callRecord_keeps hExpr) (by decide) ?_
    rintro ⟨callee, args, isMethod, scope⟩ loc
    exact ⟨rfl, List.forall_mem_append.mp⟩
  case closure =>
    exact keepsNode_ofRecord (Function.keeps hStmt) (by decide) fun fn loc => ⟨rfl, id⟩
  case rawCall =>
    refine keepsNode_ofRecord (Expr.rawCallRecord_keeps hExpr) (by decide) ?_
    rintro ⟨code, args⟩ loc
    exact ⟨rfl, id⟩
  case raw =>
    exact keepsNode_ofRecord (keeps_required keeps_text "expr") (by decide) fun code loc => ⟨rfl, fun _ => trivial⟩

include hStmt in
theorem Stmt.objectRecord_keeps : (objectRecord stmt).Keeps
    ["name", "parent", "propertyinitscript", "createscript", "destroyscript", "methods"]
    (fun p => Rereading Function.literals p.2.2.1 ∧ Rereading functionLiterals? p.2.2.2.1 ∧
      Rereading functionLiterals? p.2.2.2.2.1 ∧ Rereading methodsLiterals p.2.2.2.2.2)
    fun p => [.entry "name" (.string p.1), .entry "parent" (.string p.2.1),
        .entry "propertyinitscript" (.object p.2.2.1.members)]
      ++ Member.optionalEntry "createscript" (functionToJson? p.2.2.2.1)
      ++ Member.optionalEntry "destroyscript" (functionToJson? p.2.2.2.2.1)
      ++ [.entry "methods" (.array (methodsToJson p.2.2.2.2.2))] := by
  have hMethods : (Method.decoder stmt).list.Keeps (Rereading methodsLiterals) fun ms => .array (methodsToJson ms) :=
    (Method.keeps hStmt).each rfl (fun _ _ => rfl) fun _ _ => rfl
  have hFields := (keeps_required keeps_text "name").and ((keeps_required keeps_text "parent").and
    ((keeps_required (Function.keeps hStmt).decoder "propertyinitscript").and
      ((Function.keeps_optional hStmt "createscript").and ((Function.keeps_optional hStmt "destroyscript").and
        (keeps_withDefault hMethods "methods" [] (restores_nil _)) (by decide)) (by decide)) (by decide))
    (by decide)) (by decide)
  refine hFields.mono fun p h hFits => ?_
  have hAbsorbs := h ⟨trivial, trivial, hFits⟩
  simp only [List.cons_append, List.nil_append, List.append_assoc] at hAbsorbs ⊢
  exact hAbsorbs

include hExpr hStmt in
theorem Stmt.withRecord_keeps : (withRecord expr stmt).Keeps
    ["expr", "stmt", "scope", "indexVariable", "allObjectsVariable"]
    (fun p => Rereading Expr.literals p.1 ∧ Rereading Stmt.literals p.2.1)
    fun p => [.entry "expr" p.1.toJson, .entry "stmt" p.2.1.toJson, .entry "scope" (.ofNat p.2.2.1),
      .entry "indexVariable" p.2.2.2.1.toJson, .entry "allObjectsVariable" p.2.2.2.2.toJson] := by
  have hFields := (keeps_required hExpr "expr").and ((keeps_required hStmt "stmt").and
    ((keeps_required keeps_natural "scope").and ((keeps_required Reference.keeps "indexVariable").and
      (keeps_required Reference.keeps "allObjectsVariable") (by decide)) (by decide)) (by decide)) (by decide)
  exact hFields.mono fun p h hFits => h ⟨hFits.1, hFits.2, trivial, trivial, trivial⟩

include hExpr hStmt in
theorem Stmt.variants_keep : ∀ v ∈ Stmt.variants expr stmt, v.KeepsNode (Rereading Stmt.literals) Stmt.toJson := by
  have hGuarded : ((Record.required "expr" expr).and (Record.required "stmt" stmt)).Keeps ["expr", "stmt"]
      (fun p => Rereading Expr.literals p.1 ∧ Rereading Stmt.literals p.2)
      fun p => [.entry "expr" p.1.toJson, .entry "stmt" p.2.toJson] :=
    (keeps_required hExpr "expr").and (keeps_required hStmt "stmt") (by decide)
  simp only [Stmt.variants, List.forall_mem_cons]
  refine ⟨?declare, ?assign, ?define, ?constant, ?switch, ?loop, ?when, ?branch, ?repeatWhile, ?repeatUntil,
    keepsNode_ofValue fun _ => rfl, keepsNode_ofValue fun _ => rfl, ?block, ?withEach, ?returnValue,
    keepsNode_ofValue fun _ => rfl, ?object, keepsNode_ofValue fun _ => rfl, ?call, ?rawCall, by rintro v ⟨⟩⟩
  case declare =>
    have hDeclarators : (Declarator.decoder expr).list.Keeps (Rereading declaratorsLiterals)
        fun ds => .array (declaratorsToJson ds) :=
      (Declarator.keeps hExpr).each rfl (fun _ _ => rfl) fun _ _ => rfl
    exact keepsNode_ofRecord (keeps_required hDeclarators "list") (by decide) fun _ _ => ⟨rfl, id⟩
  case assign =>
    refine keepsNode_ofRecord ((keeps_required hExpr "lval").and (keeps_required hExpr "rval") (by decide))
      (by decide) ?_
    rintro ⟨left, right⟩ loc
    exact ⟨rfl, List.forall_mem_append.mp⟩
  case define =>
    refine keepsNode_ofRecord ((keeps_required keeps_text "name").and (Function.keeps hStmt) (by decide))
      (by decide) ?_
    rintro ⟨name, fn⟩ loc
    exact ⟨rfl, fun h => ⟨trivial, h⟩⟩
  case constant =>
    refine keepsNode_ofRecord ((keeps_required keeps_text "name").and (keeps_required hExpr "expr") (by decide))
      (by decide) ?_
    rintro ⟨name, value⟩ loc
    exact ⟨rfl, fun h => ⟨trivial, h⟩⟩
  case switch =>
    have hClauses : (Clause.decoder expr stmt).list.Keeps (Rereading clausesLiterals)
        fun cs => .array (clausesToJson cs) :=
      (Clause.keeps hExpr hStmt).each rfl (fun _ _ => rfl) fun _ _ => rfl
    refine keepsNode_ofRecord ((keeps_required hExpr "expr").and (keeps_required hClauses "cases") (by decide))
      (by decide) ?_
    rintro ⟨subject, clauses⟩ loc
    exact ⟨rfl, List.forall_mem_append.mp⟩
  case loop =>
    refine keepsNode_ofRecord ((keeps_required hStmt "initstmt").and ((keeps_required hExpr "contexpr").and
      ((keeps_required hStmt "stepstmt").and (keeps_required hStmt "stmt") (by decide)) (by decide)) (by decide))
      (by decide) ?_
    rintro ⟨init, condition, step, body⟩ loc
    refine ⟨rfl, fun h => ?_⟩
    simp only [Rereading, Stmt.literals, List.forall_mem_append, and_assoc] at h
    exact h
  case when =>
    refine keepsNode_ofRecord hGuarded (by decide) ?_
    rintro ⟨condition, body⟩ loc
    exact ⟨rfl, List.forall_mem_append.mp⟩
  case branch =>
    refine keepsNode_ofRecord ((keeps_required hExpr "expr").and ((keeps_required hStmt "stmt1").and
      (keeps_required hStmt "stmt2") (by decide)) (by decide)) (by decide) ?_
    rintro ⟨condition, yes, no⟩ loc
    refine ⟨rfl, fun h => ?_⟩
    simp only [Rereading, Stmt.literals, List.forall_mem_append, and_assoc] at h
    exact h
  case repeatWhile =>
    refine keepsNode_ofRecord hGuarded (by decide) ?_
    rintro ⟨condition, body⟩ loc
    exact ⟨rfl, List.forall_mem_append.mp⟩
  case repeatUntil =>
    refine keepsNode_ofRecord ((keeps_required hStmt "stmt").and (keeps_required hExpr "expr") (by decide))
      (by decide) ?_
    rintro ⟨body, condition⟩ loc
    exact ⟨rfl, List.forall_mem_append.mp⟩
  case block =>
    exact keepsNode_ofRecord (keeps_required (stmts_keeps hStmt) "list") (by decide) fun _ _ => ⟨rfl, id⟩
  case withEach =>
    refine keepsNode_ofRecord (Stmt.withRecord_keeps hExpr hStmt) (by decide) ?_
    rintro ⟨subject, body, scope, index, all⟩ loc
    exact ⟨rfl, List.forall_mem_append.mp⟩
  case returnValue =>
    exact keepsNode_ofRecord (keeps_required hExpr "expr") (by decide) fun _ _ => ⟨rfl, id⟩
  case object =>
    refine keepsNode_ofRecord (Stmt.objectRecord_keeps hStmt) (by decide) ?_
    rintro ⟨name, parent, init, create, destroy, methods⟩ loc
    refine ⟨rfl, fun h => ?_⟩
    simp only [Rereading, Stmt.literals, List.forall_mem_append, and_assoc] at h
    exact h
  case call =>
    refine keepsNode_ofRecord (Expr.callRecord_keeps hExpr) (by decide) ?_
    rintro ⟨callee, args, isMethod, scope⟩ loc
    exact ⟨rfl, List.forall_mem_append.mp⟩
  case rawCall =>
    refine keepsNode_ofRecord (Expr.rawCallRecord_keeps hExpr) (by decide) ?_
    rintro ⟨code, args⟩ loc
    exact ⟨rfl, id⟩

end

theorem nodeDecoders_keep (n : Nat) : (nodeDecoders n).1.Keeps (Rereading Expr.literals) Expr.toJson ∧
    (nodeDecoders n).2.Keeps (Rereading Stmt.literals) Stmt.toJson := by
  -- A node that is decoded at depth `n + 1` has its parts decoded at depth `n`, and so they are taken back there.
  induction n with
  | zero =>
    constructor
    · rintro source j e ⟨⟩
    · rintro source j s ⟨⟩
  | succ n ih =>
    obtain ⟨hExpr, hStmt⟩ := ih
    have hTags : ((Expr.variants (nodeDecoders n).1 (nodeDecoders n).2).map tag).Nodup := by
      exact (by decide : ["identifier", "binop", "unop", "number", "string", "index", "funccall", "script",
        "jsfunccall", "jsexpr"].Nodup)
    have hTags' : ((Stmt.variants (nodeDecoders n).1 (nodeDecoders n).2).map tag).Nodup := by
      exact (by decide : ["var", "assign", "scriptdef", "const", "switch", "for", "if", "ifelse", "while", "dountil",
        "break", "continue", "statements", "with", "return", "exit", "object", "nop", "funccall", "jsfunccall"].Nodup)
    exact ⟨keeps_nodeDecoder hTags (Expr.variants_keep hExpr hStmt),
      keeps_nodeDecoder hTags' (Stmt.variants_keep hExpr hStmt)⟩

end TreeLowering
