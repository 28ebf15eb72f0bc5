import TreeLowering.Text.Search

/-! # Paths of files, as they are written -/
namespace TreeLowering
set_option autoImplicit false

structure Path where
  text : String
deriving DecidableEq, Inhabited

namespace Path

/-- What a component of a path stands for. -/
inductive Step where
  | root
  /-- The working directory; it counts only at the front. -/
  | here
  | up
  | name (s : String)
deriving DecidableEq, Inhabited

/-- The parts between slashes, some of them empty. -/
def parts (p : Path) : List String :=
  (Text.splitAt (· == '/') p.text.toList).map String.ofList

def isAbsolute (p : Path) : Bool := p.text.toList.head? == some '/'

/-- The step of a part that is not the first one, if it is one. -/
def stepOf? : String → Option Step
  | "" | "." => none
  | ".." => some .up
  | s => some (.name s)

/-- Components after the first part, each with the length of the text up to its end. -/
def stepsFrom : Nat → List String → List (Step × Nat)
  | _, [] => []
  | start, part :: rest =>
    let stop := start + part.length
    match stepOf? part with
    | some step => (step, stop) :: stepsFrom (stop + 1) rest
    | none => stepsFrom (stop + 1) rest

/-- The components, each with the length of the text up to its end. -/
def steps (p : Path) : List (Step × Nat) :=
  match p.parts with
  | "" :: rest => if p.isAbsolute then (.root, 1) :: stepsFrom 1 rest else []
  | "." :: rest => (.here, 1) :: stepsFrom 2 rest
  | parts => stepsFrom 0 parts

/-- The path names the working directory and nothing else. -/
def isHere (p : Path) : Bool := p.steps.map (·.1) == [.here]

/-- The last component, if it is a name. -/
def fileName? (p : Path) : Option String :=
  match p.steps.getLast? with
  | some (.name s, _) => some s
  | _ => none

/-- The path without its last component; the root has none. -/
def parent? (p : Path) : Option Path :=
  match p.steps.reverse with
  | [] | (.root, _) :: _ => none
  | _ :: [] => some ⟨""⟩
  | _ :: (_, length) :: _ => some ⟨String.ofList (p.text.toList.take length)⟩

/-- The path followed by a relative one. -/
def join (p : Path) (s : String) : Path :=
  if p.text.isEmpty || p.text.toList.getLast? == some '/' then ⟨p.text ++ s⟩
  else ⟨p.text ++ "/" ++ s⟩

/-- The path with its file name replaced. -/
def withFileName (p : Path) (s : String) : Path :=
  match p.fileName?, p.parent? with
  | some _, some parent => parent.join s
  | _, _ => p.join s

/-- Splits a name before its last dot, unless that is its first character. -/
def stemOfName (s : String) : String :=
  match Text.splitAt (· == '.') s.toList with
  | [] | [_] | [[], _] => s
  | parts => String.ofList (['.'].intercalate parts.dropLast)

/-- The file name without its extension. -/
def stem (p : Path) : String := stemOfName (p.fileName?.getD "")

end Path
end TreeLowering
