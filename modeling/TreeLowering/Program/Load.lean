import TreeLowering.Program.Document

/-! # Loading programs from JSON

Nodes nest no deeper than the brackets of the text they come from, so the nesting limit bounds
the recursion: `decoders n` takes nodes that are nested at most `n` deep. -/
namespace TreeLowering
set_option autoImplicit false

namespace Function

def record (stmt : Decoder Stmt) :=
  ((Record.withDefault "args" Decoder.text.list []).and
    ((Record.required "stmts" stmt).and (Record.required "scope" .natural))).map
    fun (params, body, scope) => Function.mk params body scope

def decoder (stmt : Decoder Stmt) : Decoder Function := (record stmt).decoder

end Function

def Declarator.decoder (expr : Decoder Expr) : Decoder Declarator :=
  (((Record.required "name" .text).and
    ((Record.optional "expr" expr).and (Record.optional "variable" Reference.decoder))).map
    fun (name, value, ref) => Declarator.mk name value ref).decoder

/-- A method's name is taken first, the function from the other members. -/
def Method.decoder (stmt : Decoder Stmt) : Decoder Method :=
  (Record.required "methodname" .text).around fun name held =>
    let r := Function.record stmt
    (r.members .memory held r.start).map (Method.mk name)

def Clause.decoder (expr : Decoder Expr) (stmt : Decoder Stmt) : Decoder Clause :=
  Variant.decoder
    [.ofRecord "case" (((Record.required "expr" expr).and (Record.required "stmts" stmt)).map
        fun (value, body) => .case value body),
      .ofRecord "defaultcase" ((Record.required "stmts" stmt).map .default)]

/-- A node: its position is taken first, the variant from the other members. -/
def nodeDecoder {α : Type} (variants : List (Variant (Option Location → α))) : Decoder α :=
  (Record.optional "location" Location.decoder).around fun loc held =>
    (Variant.members variants .memory held none []).map fun make => make loc

def Expr.callRecord (expr : Decoder Expr) :=
  (Record.required "expr" expr).and
    ((Record.withDefault "args" expr.list []).and
      ((Record.withDefault "isMethodCall" .flag false).and (Record.required "scope" .natural)))

def Expr.rawCallRecord (expr : Decoder Expr) :=
  (Record.required "expr" .text).and (Record.withDefault "args" expr.list [])

def Expr.variants (expr : Decoder Expr) (stmt : Decoder Stmt) :
    List (Variant (Option Location → Expr)) :=
  [.ofRecord "identifier"
      (((Record.required "name" .text).and (Record.optional "variable" Reference.decoder)).map
        fun (name, ref) => .identifier name ref),
    .ofRecord "binop"
      (((Record.required "op" BinaryOp.decoder).and
        ((Record.required "expr1" expr).and (Record.required "expr2" expr))).map
        fun (op, left, right) => .binary op left right),
    .ofRecord "unop"
      (((Record.required "op" UnaryOp.decoder).and (Record.required "expr" expr)).map
        fun (op, operand) => .unary op operand),
    .ofRecord "number" ((Record.required "val" .double).map .number),
    .ofRecord "string" ((Record.required "val" .text).map .string),
    .ofRecord "index"
      (((Record.required "expr" expr).and (Record.required "indexes" expr.list)).map
        fun (base, indexes) => .index base indexes),
    .ofRecord "funccall"
      ((callRecord expr).map fun (callee, args, isMethod, scope) => .call callee args isMethod scope),
    .ofRecord "script" ((Function.record stmt).map .closure),
    .ofRecord "jsfunccall" ((rawCallRecord expr).map fun (code, args) => .rawCall code args),
    .ofRecord "jsexpr" ((Record.required "expr" .text).map .raw)]

def Stmt.objectRecord (stmt : Decoder Stmt) :=
  (Record.required "name" .text).and
    ((Record.required "parent" .text).and
      ((Record.required "propertyinitscript" (Function.decoder stmt)).and
        ((Record.optional "createscript" (Function.decoder stmt)).and
          ((Record.optional "destroyscript" (Function.decoder stmt)).and
            (Record.withDefault "methods" (Method.decoder stmt).list [])))))

def Stmt.withRecord (expr : Decoder Expr) (stmt : Decoder Stmt) :=
  (Record.required "expr" expr).and
    ((Record.required "stmt" stmt).and
      ((Record.required "scope" .natural).and
        ((Record.required "indexVariable" Reference.decoder).and
          (Record.required "allObjectsVariable" Reference.decoder))))

def Stmt.variants (expr : Decoder Expr) (stmt : Decoder Stmt) :
    List (Variant (Option Location → Stmt)) :=
  [.ofRecord "var" ((Record.required "list" (Declarator.decoder expr).list).map .declare),
    .ofRecord "assign"
      (((Record.required "lval" expr).and (Record.required "rval" expr)).map
        fun (left, right) => .assign left right),
    .ofRecord "scriptdef"
      (((Record.required "name" .text).and (Function.record stmt)).map
        fun (name, fn) => .define name fn),
    .ofRecord "const"
      (((Record.required "name" .text).and (Record.required "expr" expr)).map
        fun (name, value) => .constant name value),
    .ofRecord "switch"
      (((Record.required "expr" expr).and
        (Record.required "cases" (Clause.decoder expr stmt).list)).map
        fun (subject, clauses) => .switch subject clauses),
    .ofRecord "for"
      (((Record.required "initstmt" stmt).and
        ((Record.required "contexpr" expr).and
          ((Record.required "stepstmt" stmt).and (Record.required "stmt" stmt)))).map
        fun (init, condition, step, body) => .loop init condition step body),
    .ofRecord "if"
      (((Record.required "expr" expr).and (Record.required "stmt" stmt)).map
        fun (condition, body) => .when condition body),
    .ofRecord "ifelse"
      (((Record.required "expr" expr).and
        ((Record.required "stmt1" stmt).and (Record.required "stmt2" stmt))).map
        fun (condition, yes, no) => .branch condition yes no),
    .ofRecord "while"
      (((Record.required "expr" expr).and (Record.required "stmt" stmt)).map
        fun (condition, body) => .repeatWhile condition body),
    .ofRecord "dountil"
      (((Record.required "stmt" stmt).and (Record.required "expr" expr)).map
        fun (body, condition) => .repeatUntil body condition),
    .ofValue "break" .breakLoop,
    .ofValue "continue" .continueLoop,
    .ofRecord "statements" ((Record.required "list" stmt.list).map .block),
    .ofRecord "with"
      ((withRecord expr stmt).map
        fun (subject, body, scope, index, all) => .withEach subject body scope index all),
    .ofRecord "return" ((Record.required "expr" expr).map .returnValue),
    .ofValue "exit" .exit,
    .ofRecord "object"
      ((objectRecord stmt).map
        fun (name, parent, init, create, destroy, methods) =>
          .object name parent init create destroy methods),
    .ofValue "nop" .nop,
    .ofRecord "funccall"
      ((Expr.callRecord expr).map
        fun (callee, args, isMethod, scope) => .call callee args isMethod scope),
    .ofRecord "jsfunccall" ((Expr.rawCallRecord expr).map fun (code, args) => .rawCall code args)]

/-- Decoders of expressions and statements that are nested at most so deep. -/
def nodeDecoders : Nat → Decoder Expr × Decoder Stmt
  | 0 => (fun _ _ => throw .malformed, fun _ _ => throw .malformed)
  | n + 1 =>
    let inner := nodeDecoders n
    (nodeDecoder (Expr.variants inner.1 inner.2), nodeDecoder (Stmt.variants inner.1 inner.2))

def Expr.decoder : Decoder Expr := (nodeDecoders (Json.nestingLimit + 1)).1

def Stmt.decoder : Decoder Stmt := (nodeDecoders (Json.nestingLimit + 1)).2

namespace Program

def record :=
  ((Record.required "stmts" Stmt.decoder.list).and (Record.required "scope" .natural)).map
    fun (body, scope) => Program.mk body scope

def decoder : Decoder Program := record.decoder

/-- The root of a document: a program tagged as a file. -/
def rootDecoder : Decoder Program := Variant.decoder [.ofRecord "file" record]

end Program

namespace Document

def record :=
  ((Record.withDefault "scopes" ScopeDecl.decoder.list []).and
    (Record.required "root" Program.rootDecoder)).map
    fun (scopes, program) => Document.mk scopes program

def decoder : Decoder Document := record.decoder

/-- Loads a document; `file` names it in diagnostics. -/
def load (text file : String) : Result Document :=
  match decoder.load text.toList with
  | .ok d => pure d
  | .error e => fail (.document file e)

end Document
end TreeLowering
