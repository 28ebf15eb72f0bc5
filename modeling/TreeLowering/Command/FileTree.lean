import TreeLowering.Path

/-! # A tree of files and directories

Files and directories lie at locations, lists of names from the root. Relative paths start from
the working directory. The root is always a directory. -/
namespace TreeLowering
set_option autoImplicit false

/-- What a file holds. -/
inductive Content where
  | text (s : String)
  /-- Bytes that are no text. -/
  | binary (bytes : List UInt8)
deriving DecidableEq, Inhabited

def Content.ofBytes (bytes : ByteArray) : Content :=
  match String.fromUTF8? bytes with
  | some s => text s
  | none => binary bytes.toList

/-- Why a file operation fails. -/
inductive FileError where
  | missing
  | occupied
  | notDirectory
  | isDirectory
  | tooLong
  | notText
deriving DecidableEq, Inhabited

def FileError.message : FileError → String
  | missing => "No such file or directory (os error 2)"
  | occupied => "File exists (os error 17)"
  | notDirectory => "Not a directory (os error 20)"
  | isDirectory => "Is a directory (os error 21)"
  | tooLong => "File name too long (os error 36)"
  | notText => "stream did not contain valid UTF-8"

inductive FileNode where
  | file (content : Content)
  | directory
deriving DecidableEq, Inhabited

structure FileTree where
  workingDirectory : List String
  nodes : List (List String × FileNode)
deriving Inhabited

namespace FileTree

/-- What lies at a location. -/
def node? (t : FileTree) (names : List String) : Option FileNode :=
  if names.isEmpty then some .directory else t.nodes.lookup names

/-- Puts a node at a location, in place of what was there. -/
def put (t : FileTree) (names : List String) (n : FileNode) : FileTree :=
  { t with nodes := (names, n) :: t.nodes.filter fun entry => entry.1 != names }

theorem node?_put_self (t : FileTree) {names : List String} (n : FileNode) (h : names ≠ []) :
    (t.put names n).node? names = some n := by
  simp [put, node?, h]

/-- Puts directories at a location and at all locations above it. -/
def putDirectories (t : FileTree) (names : List String) : FileTree :=
  (List.range names.length).foldl (fun t n => t.put (names.take (n + 1)) .directory) t

/-- A tree with nothing but the working directory and those it lies in. -/
def empty (workingDirectory : List String) : FileTree :=
  putDirectories ⟨workingDirectory, []⟩ workingDirectory

/-- Puts a file at a location, with the directories that lead there. -/
def putFile (t : FileTree) (names : List String) (content : Content) : FileTree :=
  (t.putDirectories names.dropLast).put names (.file content)

/-- Enters a directory. -/
def enter (t : FileTree) (names : List String) : Except FileError (List String) :=
  match t.node? names with
  | some .directory => pure names
  | some (.file _) => throw .notDirectory
  | none => throw .missing

/-- Bytes that a name may have. -/
def nameLimit : Nat := 255

/-- Bytes that a path must stay below. -/
def pathLimit : Nat := 4096

/-- Where the parts of a path lead from a location. A location is entered when another part
follows, even an empty one. -/
def follow (t : FileTree) : List String → List String → Except FileError (List String)
  | names, [] => pure names
  | names, part :: rest => do
    let names ← t.enter names
    match part with
    | "" | "." => follow t names rest
    | ".." => follow t names.dropLast rest
    | part =>
      if part.utf8ByteSize > nameLimit then throw .tooLong else follow t (names ++ [part]) rest

/-- The location that a path names: what leads there must be directories, but nothing need lie
there. -/
def locate (t : FileTree) (p : Path) : Except FileError (List String) :=
  if p.text.isEmpty then throw .missing
  else if p.text.utf8ByteSize ≥ pathLimit then throw .tooLong
  else if p.isAbsolute then t.follow [] p.parts
  else t.follow t.workingDirectory p.parts

/-- What a path names. -/
def find (t : FileTree) (p : Path) : Except FileError FileNode := do
  let names ← t.locate p
  match t.node? names with
  | some n => pure n
  | none => throw .missing

/-- Whether a path names anything. -/
def hasNode (t : FileTree) (p : Path) : Bool :=
  match t.find p with
  | .ok _ => true
  | .error _ => false

def isDirectory (t : FileTree) (p : Path) : Bool :=
  match t.find p with
  | .ok .directory => true
  | _ => false

/-- The text of a file. -/
def read (t : FileTree) (p : Path) : Except FileError String := do
  match ← t.find p with
  | .file (.text s) => pure s
  | .file (.binary _) => throw .notText
  | .directory => throw .isDirectory

/-- Writes a file, new or in place of an old one. A path that ends in a slash asks for a
directory. -/
def write (t : FileTree) (p : Path) (s : String) : Except FileError FileTree := do
  match p.parts.reverse with
  | "" :: name :: before =>
    if name.isEmpty then throw .isDirectory
    else
      let _ ← t.locate ⟨Text.join "/" ("." :: before).reverse⟩
      throw .isDirectory
  | _ =>
    let names ← t.locate p
    match t.node? names with
    | some .directory => throw .isDirectory
    | _ => pure (t.put names (.file (.text s)))

/-- Makes one directory. -/
def makeDirectory (t : FileTree) (p : Path) : Except FileError FileTree := do
  let names ← t.locate p
  match t.node? names with
  | some _ => throw .occupied
  | none => pure (t.put names .directory)

/-- Makes a directory and, as far as `fuel` goes, those it lies in. -/
def makeDirectoriesFrom : Nat → FileTree → Path → Except FileError FileTree
  | 0, t, p => t.makeDirectory p
  | fuel + 1, t, p =>
    match t.makeDirectory p with
    | .ok t => pure t
    | .error .missing =>
      match p.parent? with
      | some parent => do
        let t ← if parent.text.isEmpty then pure t else makeDirectoriesFrom fuel t parent
        if t.isDirectory p then pure t else t.makeDirectory p
      | none => throw .missing
    | .error e => if t.isDirectory p then pure t else throw e

/-- Makes a directory and those it lies in, as far as they are missing. -/
def makeDirectories (t : FileTree) (p : Path) : Except FileError FileTree :=
  makeDirectoriesFrom p.text.length t p

/-- The names of what lies in a directory, in ascending order. -/
def entryNames (t : FileTree) (names : List String) : List String :=
  let below := t.nodes.filterMap fun entry =>
    match entry.1.getLast? with
    | some name => if entry.1.dropLast = names then some name else none
    | none => none
  below.mergeSort fun a b => decide (a ≤ b)

/-- The paths of what lies in a directory, in ascending order of names. The working directory is
left out of them. -/
def children (t : FileTree) (p : Path) : List Path :=
  match t.locate p with
  | .ok names =>
    (t.entryNames names).map fun name => if p.isHere then ⟨name⟩ else p.join name
  | .error _ => []

/-- Everything below a directory, at most `fuel` levels deep: each entry, followed by what is below
it. -/
def descendantsFrom (t : FileTree) : Nat → Path → List Path
  | 0, _ => []
  | fuel + 1, p =>
    (t.children p).flatMap fun child =>
      child :: if t.isDirectory child then t.descendantsFrom fuel child else []

/-- Everything below a directory; nothing is deeper than there are nodes. -/
def descendants (t : FileTree) (p : Path) : List Path := t.descendantsFrom t.nodes.length p

/-- The files that are not in an earlier tree or had other content there. -/
def changedFiles (t earlier : FileTree) : List (List String × Content) :=
  t.nodes.filterMap fun (names, n) =>
    match n with
    | .file content => if earlier.node? names = some n then none else some (names, content)
    | .directory => none

end FileTree
end TreeLowering
