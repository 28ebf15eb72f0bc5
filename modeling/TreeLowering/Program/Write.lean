import TreeLowering.Program.Document
import TreeLowering.Json.Writer

/-! # Writing documents as JSON

Fields stand in declaration order; optional members of nodes are left out when absent. -/
namespace TreeLowering
set_option autoImplicit false

/-- A member that is written only if there is a value. -/
def Member.optionalEntry (key : String) : Option Json → List Member
  | some j => [.entry key j]
  | none => []

/-- A node: its tag, its fields, and its position if it has one. -/
def Json.node (tag : String) (fields : List Member) (loc : Option Location) : Json :=
  .object (.entry "type" (.string tag) ::
    (fields ++ Member.optionalEntry "location" (loc.map Location.toJson)))

def Json.texts (names : List String) : Json := .array (names.map .string)

mutual
def Expr.toJson : Expr → Json
  | .identifier name ref loc =>
    .node "identifier"
      (.entry "name" (.string name) :: Member.optionalEntry "variable" (ref.map Reference.toJson)) loc
  | .binary op left right loc =>
    .node "binop" [.entry "op" (.string op.symbol), .entry "expr1" left.toJson,
      .entry "expr2" right.toJson] loc
  | .unary op operand loc =>
    .node "unop" [.entry "op" (.string op.symbol), .entry "expr" operand.toJson] loc
  | .number value loc => .node "number" [.entry "val" (.number (.ofBinary64 value))] loc
  | .string value loc => .node "string" [.entry "val" (.string value)] loc
  | .index base indexes loc =>
    .node "index" [.entry "expr" base.toJson, .entry "indexes" (.array (exprsToJson indexes))] loc
  | .call callee args isMethod scope loc =>
    .node "funccall" [.entry "expr" callee.toJson, .entry "args" (.array (exprsToJson args)),
      .entry "isMethodCall" (.bool isMethod), .entry "scope" (.ofNat scope)] loc
  | .closure fn loc => .node "script" fn.members loc
  | .rawCall code args loc =>
    .node "jsfunccall" [.entry "expr" (.string code), .entry "args" (.array (exprsToJson args))] loc
  | .raw code loc => .node "jsexpr" [.entry "expr" (.string code)] loc

def exprsToJson : List Expr → List Json
  | [] => []
  | e :: rest => e.toJson :: exprsToJson rest

def exprToJson? : Option Expr → Option Json
  | some e => some e.toJson
  | none => none

def Function.members : Function → List Member
  | .mk params body scope =>
    [.entry "args" (.texts params), .entry "stmts" body.toJson, .entry "scope" (.ofNat scope)]

def functionToJson? : Option Function → Option Json
  | some fn => some (.object fn.members)
  | none => none

def Stmt.toJson : Stmt → Json
  | .declare declarators loc =>
    .node "var" [.entry "list" (.array (declaratorsToJson declarators))] loc
  | .assign left right loc =>
    .node "assign" [.entry "lval" left.toJson, .entry "rval" right.toJson] loc
  | .define name fn loc => .node "scriptdef" (.entry "name" (.string name) :: fn.members) loc
  | .constant name value loc =>
    .node "const" [.entry "name" (.string name), .entry "expr" value.toJson] loc
  | .switch subject clauses loc =>
    .node "switch" [.entry "expr" subject.toJson,
      .entry "cases" (.array (clausesToJson clauses))] loc
  | .loop init condition step body loc =>
    .node "for" [.entry "initstmt" init.toJson, .entry "contexpr" condition.toJson,
      .entry "stepstmt" step.toJson, .entry "stmt" body.toJson] loc
  | .when condition body loc =>
    .node "if" [.entry "expr" condition.toJson, .entry "stmt" body.toJson] loc
  | .branch condition yes no loc =>
    .node "ifelse" [.entry "expr" condition.toJson, .entry "stmt1" yes.toJson,
      .entry "stmt2" no.toJson] loc
  | .repeatWhile condition body loc =>
    .node "while" [.entry "expr" condition.toJson, .entry "stmt" body.toJson] loc
  | .repeatUntil body condition loc =>
    .node "dountil" [.entry "stmt" body.toJson, .entry "expr" condition.toJson] loc
  | .breakLoop loc => .node "break" [] loc
  | .continueLoop loc => .node "continue" [] loc
  | .block body loc => .node "statements" [.entry "list" (.array (stmtsToJson body))] loc
  | .withEach subject body scope index all loc =>
    .node "with" [.entry "expr" subject.toJson, .entry "stmt" body.toJson,
      .entry "scope" (.ofNat scope), .entry "indexVariable" index.toJson,
      .entry "allObjectsVariable" all.toJson] loc
  | .returnValue value loc => .node "return" [.entry "expr" value.toJson] loc
  | .exit loc => .node "exit" [] loc
  | .object name parent init create destroy methods loc =>
    .node "object"
      ([.entry "name" (.string name), .entry "parent" (.string parent),
        .entry "propertyinitscript" (.object init.members)]
        ++ Member.optionalEntry "createscript" (functionToJson? create)
        ++ Member.optionalEntry "destroyscript" (functionToJson? destroy)
        ++ [.entry "methods" (.array (methodsToJson methods))]) loc
  | .nop loc => .node "nop" [] loc
  | .call callee args isMethod scope loc =>
    .node "funccall" [.entry "expr" callee.toJson, .entry "args" (.array (exprsToJson args)),
      .entry "isMethodCall" (.bool isMethod), .entry "scope" (.ofNat scope)] loc
  | .rawCall code args loc =>
    .node "jsfunccall" [.entry "expr" (.string code), .entry "args" (.array (exprsToJson args))] loc

def stmtsToJson : List Stmt → List Json
  | [] => []
  | s :: rest => s.toJson :: stmtsToJson rest

def Declarator.toJson : Declarator → Json
  | .mk name value ref =>
    .object (.entry "name" (.string name) :: (Member.optionalEntry "expr" (exprToJson? value)
      ++ Member.optionalEntry "variable" (ref.map Reference.toJson)))

def declaratorsToJson : List Declarator → List Json
  | [] => []
  | d :: rest => d.toJson :: declaratorsToJson rest

def Clause.toJson : Clause → Json
  | .case value body =>
    .object [.entry "type" (.string "case"), .entry "expr" value.toJson, .entry "stmts" body.toJson]
  | .default body => .object [.entry "type" (.string "defaultcase"), .entry "stmts" body.toJson]

def clausesToJson : List Clause → List Json
  | [] => []
  | c :: rest => c.toJson :: clausesToJson rest

def Method.toJson : Method → Json
  | .mk name fn => .object (.entry "methodname" (.string name) :: fn.members)

def methodsToJson : List Method → List Json
  | [] => []
  | m :: rest => m.toJson :: methodsToJson rest
end

/-- The root of a document. -/
def Program.toJson (p : Program) : Json :=
  .object [.entry "type" (.string "file"), .entry "stmts" (.array (stmtsToJson p.body)),
    .entry "scope" (.ofNat p.scope)]

namespace Document

def toJson (d : Document) : Json :=
  .object [.entry "scopes" (.array (d.scopes.map ScopeDecl.toJson)), .entry "root" d.program.toJson]

/-- The document as pretty JSON text. -/
def write (d : Document) : String := d.toJson.pretty

end Document
end TreeLowering
