import TreeLowering.Command.Run

/-! # The command line program

The part of the disk that a command line can touch is read into a tree of files, the command line
runs over that tree, and the files it changed are written back. -/
namespace TreeLowering.Disk
set_option autoImplicit false

/-- The names of an absolute path. -/
def namesOf (path : String) : List String := (Path.mk path).parts.filter fun s => !s.isEmpty

def pathOf (names : List String) : String := "/" ++ Text.join "/" names

/-- Adds what the disk holds at a path: a directory, or a file. -/
def observeHere (t : FileTree) (path : String) : IO FileTree := do
  let real ← IO.FS.realPath path
  if ← real.isDir then
    pure (t.putDirectories (namesOf real.toString))
  else
    let bytes ← IO.FS.readBinFile real
    pure (t.putFile (namesOf real.toString) (Content.ofBytes bytes))

/-- Adds what the disk holds at a path, or else at the nearest place that leads there. -/
partial def observe (t : FileTree) (p : Path) : IO FileTree := do
  try
    observeHere t (if p.text.isEmpty then "." else p.text)
  catch _ =>
    match p.parent? with
    | some parent => observe t parent
    | none => pure t

/-- Adds everything below a directory. -/
partial def observeBelow (t : FileTree) (directory : String) : IO FileTree := do
  let t ← observe t ⟨directory⟩
  let real ← IO.FS.realPath directory
  if ← real.isDir then
    (← real.readDir).foldlM (fun t entry => observeBelow t (directory ++ "/" ++ entry.fileName)) t
  else pure t

/-- The directory that everything a pattern can match lies in. -/
def patternRoot (input : String) : String :=
  let fixed := (Path.mk input).parts.takeWhile fun part => !Pattern.looksLike part
  if fixed.isEmpty then "." else Text.join "/" fixed

def observeInput (t : FileTree) (input : String) : IO FileTree :=
  if Pattern.looksLike input then
    observeBelow t (if (patternRoot input).isEmpty then "/" else patternRoot input)
  else observe t ⟨input⟩

/-- Adds what a build can read or overwrite. -/
def observeBuild (t : FileTree) (r : BuildRequest) : IO FileTree := do
  let t ← r.inputs.foldlM observeInput t
  let t ← [r.output, r.outDir, r.config, r.globals].reduceOption.foldlM observe t
  match r.prepare t with
  | .error _ => pure t
  | .ok (job, paths) =>
    (paths.filterMap fun p => job.destination.target? (Script.ofFile p "")).foldlM observe t

def observeRequest (t : FileTree) : Option Request → IO FileTree
  | some (.build r) => observeBuild t r
  | some (.globals (some p)) => observe t p
  | _ => pure t

def writeBack (names : List String) (content : Content) : IO Unit := do
  IO.FS.createDirAll (pathOf names.dropLast)
  match content with
  | .text s => IO.FS.writeFile (pathOf names) s
  | .binary bytes => IO.FS.writeBinFile (pathOf names) ⟨bytes.toArray⟩

end TreeLowering.Disk

open TreeLowering in
def main (args : List String) : IO UInt32 := do
  let directory ← IO.currentDir
  let before ← Disk.observeRequest (FileTree.empty (Disk.namesOf directory.toString))
    (Arguments.parse args)
  let outcome := run args before
  for (names, content) in outcome.files.changedFiles before do
    Disk.writeBack names content
  IO.print outcome.printed
  for notice in outcome.notices do
    IO.eprintln (notice.line Failure.report)
  if outcome.code = 2 then IO.eprint (HelpTopic.render .program)
  pure outcome.code.toUInt32
