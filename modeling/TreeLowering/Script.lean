import TreeLowering.Path
import TreeLowering.Program.Load
import TreeLowering.Text.Escape

/-! # Scripts: documents with the place they were read from -/
namespace TreeLowering
set_option autoImplicit false

structure Script where
  name : String
  path : Path
  content : String

namespace Script

/-- A script that was read from a file; diagnostics name it by its file name. -/
def ofFile (path : Path) (content : String) : Script := ⟨path.fileName?.getD "", path, content⟩

/-- A script that is named by a path as a whole. -/
def ofContent (name content : String) : Script := ⟨name, ⟨name⟩, content⟩

def render (s : Script) : String :=
  "Script: " ++ s.name ++ " at " ++ Text.inQuotes s.path.text

/-- What the stem of a document's name may end in. -/
def treeSuffix : String := ".tree"

/-- The text without a given end, if it has it. -/
def withoutEnd (s ending : String) : String :=
  if ending.toList.isSuffixOf s.toList then String.ofList (s.toList.take (s.length - ending.length))
  else s

/-- The name of the module that the script becomes. -/
def outputName (s : Script) : String := withoutEnd s.path.stem treeSuffix ++ ".js"

def document (s : Script) : Result Document := Document.load s.content s.name

end Script
end TreeLowering
