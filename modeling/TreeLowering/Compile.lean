import TreeLowering.Emit.Lowering
import TreeLowering.Program.Attach
import TreeLowering.Program.Load
import TreeLowering.Program.Mention

/-! # From documents to module texts -/
namespace TreeLowering
set_option autoImplicit false

namespace Document

/-- Places the scopes of a document, checks its program and names the bindings. -/
def build (d : Document) : Arena.Update Unit := do
  ScopeDecl.placeAll d.scopes
  Edit.inspect fun a => d.program.validate a.tree
  Arena.allocate

/-- The finished arena of a document: globals, declared scopes, checked, and named. -/
def arena (d : Document) (registry : Registry) (options : Options) : Result Arena := do
  let globals ← Arena.ofGlobals registry options.extraGlobals options.runtime.globalsIdentifier
  Edit.finish d.build globals

/-- The finished scope tree of a document. -/
def scopeTree (d : Document) (registry : Registry) (options : Options) : Result Tree :=
  (d.arena registry options).map Arena.tree

/-- The module text of a document. -/
def compile (d : Document) (registry : Registry) (options : Options) : Result String := do
  let t ← d.scopeTree registry options
  d.program.lower t options

end Document

/-- The module text of a document's text; `file` names it in diagnostics. -/
def compileText (text file : String) (registry : Registry) (options : Options) : Result String := do
  let d ← Document.load text file
  d.compile registry options

end TreeLowering
