import TreeLowering.Command.Arguments
import TreeLowering.Command.Pattern
import TreeLowering.Compile
import TreeLowering.Program.Write
import TreeLowering.Scope.Table
import TreeLowering.Script

/-! # Building units over a tree of files

Every unit is attempted in order, whatever happened to those before it. What a failing unit
printed, and the directories it made, stay; its failure is told and counted before the next unit is
tried. -/
namespace TreeLowering
set_option autoImplicit false

/-- What a build works on: the files, and the text printed so far. -/
structure Console where
  files : FileTree
  printed : String

abbrev Build (α : Type) : Type := EStateM Failure Console α

/-- Where the text of a unit goes. -/
inductive Destination where
  | file (p : Path)
  | directory (p : Path)
  | console
  /-- A file beside the input. -/
  | beside
deriving DecidableEq, Inhabited

/-- Everything that all units of a build share. -/
structure Job where
  registry : Registry
  options : Options
  dump : Option Stage
  destination : Destination

/-- What a run tells on the side. -/
inductive Notice where
  | failed (unit : String) (failure : Failure)
  | failedUnits (failed units : Nat)
  | compiledUnits (units : Nat)

/-- The line of a notice; `report` words the failure of a unit. -/
def Notice.line (report : Failure → String) : Notice → String
  | failed unit failure => "error[" ++ unit ++ "]: " ++ report failure
  | failedUnits k n => s!"error: {k} of {n} units failed"
  | compiledUnits n => s!"compiled {n} units"

/-- What the loop over the units carries along: the console that units work on, what has been told
on the side, and the number of units that failed. -/
structure Progress where
  console : Console
  notices : List Notice
  failures : Nat

namespace Progress

def start (t : FileTree) : Progress := ⟨⟨t, ""⟩, [], 0⟩

/-- Goes on from what a unit left behind. -/
def pass (s : Progress) (c : Console) : Progress := { s with console := c }

/-- Goes on from what a failing unit left behind: its failure is told and counted. -/
def miss (s : Progress) (c : Console) (p : Path) (e : Failure) : Progress :=
  ⟨c, s.notices ++ [.failed p.text e], s.failures + 1⟩

/-- Tells the result of so many units. -/
def conclude (s : Progress) (units : Nat) : Progress :=
  if s.failures > 0 then { s with notices := s.notices ++ [.failedUnits s.failures units] }
  else if units > 1 then { s with notices := s.notices ++ [.compiledUnits units] }
  else s

end Progress

namespace Build

/-- Uses a value that is found without printing or writing. -/
def query {α : Type} (r : Result α) : Build α := fun c =>
  match r with
  | .ok a => .ok a c
  | .error e => .error e c

/-- Prints a text and a line break. -/
def printLine (s : String) : Build Unit := modify fun c => { c with printed := c.printed ++ s ++ "\n" }

def readScript (p : Path) : Build Script := do
  match (← get).files.read p with
  | .ok content => pure (Script.ofFile p content)
  | .error e => fail (.unreadableScript (Text.inQuotes p.text) e.message)

/-- Makes the directory that a file lies in. -/
def makeParent (p : Path) : Build Unit := do
  match p.parent? with
  | none => pure ()
  | some parent =>
    if parent.text.isEmpty then pure ()
    else
      match (← get).files.makeDirectories parent with
      | .ok files => modify fun c => { c with files := files }
      | .error e => fail (.directoryNotCreated parent.text e.message)

def writeFile (p : Path) (s : String) : Build Unit := do
  makeParent p
  match (← get).files.write p s with
  | .ok files => modify fun c => { c with files := files }
  | .error e => fail (.fileNotWritten p.text e.message)

end Build

/-- The file that a unit's text goes to, if it goes to a file. -/
def Destination.target? (d : Destination) (s : Script) : Option Path :=
  match d with
  | file p => some p
  | directory p => some (p.join s.outputName)
  | console => none
  | beside => some (s.path.withFileName s.outputName)

namespace Job

/-- Shows the stage that was asked for. -/
def printStage (job : Job) (d : Document) : Build Unit :=
  match job.dump with
  | none => pure ()
  | some .tree => Build.printLine d.write
  | some .scopes => do
    let t ← Build.query (d.scopeTree job.registry job.options)
    Build.printLine t.table.render

/-- Builds one unit. -/
def buildUnit (job : Job) (p : Path) : Build Unit := do
  let script ← Build.readScript p
  let d ← Build.query script.document
  job.printStage d
  let code ← Build.query (d.compile job.registry job.options)
  match job.destination.target? script with
  | some target => Build.writeFile target code
  | none => Build.printLine code

/-- Builds units in order. -/
def buildUnits (job : Job) : List Path → Progress → Progress
  | [], s => s
  | p :: rest, s =>
    match job.buildUnit p s.console with
    | .ok _ c => job.buildUnits rest (s.pass c)
    | .error e c => job.buildUnits rest (s.miss c p e)

end Job

namespace BuildRequest

/-- The paths that an input stands for. -/
def expandInput (t : FileTree) (input : String) : Result (List Path) :=
  if Pattern.looksLike input then
    match Pattern.read input with
    | .error e => fail (.badPattern input e.message)
    | .ok pattern =>
      match pattern.expand t with
      | [] => fail (.unmatchedPattern input)
      | paths => pure paths
  else pure [⟨input⟩]

def loadOptions (t : FileTree) : Option Path → Result Options
  | none => pure Options.default
  | some p =>
    match t.read p with
    | .ok text => Options.parse text
    | .error e => fail (.unreadableOptions p.text e.message)

def loadRegistry (t : FileTree) : Option Path → Result Registry
  | none => pure Registry.builtin
  | some p =>
    match t.read p with
    | .ok text => Registry.parse text
    | .error e => fail (.unreadableRegistry p.text e.message)

/-- Where the text of each of so many units goes. -/
def destination (r : BuildRequest) (units : Nat) : Destination :=
  match r.output, r.outDir with
  | some p, _ => .file p
  | none, some p => .directory p
  | none, none => if units = 1 then .console else .beside

/-- The units of a build and what they share. -/
def prepare (r : BuildRequest) (t : FileTree) : Result (Job × List Path) := do
  let paths ← r.inputs.mapM (expandInput t)
  let paths := paths.flatten
  let options ← loadOptions t r.config
  let options := { options with extraGlobals := options.extraGlobals ++ r.extraGlobals }
  let registry ← loadRegistry t r.globals
  if r.output.isSome && paths.length > 1 then fail .severalInputs
  else pure (⟨registry, options, r.dump, r.destination paths.length⟩, paths)

end BuildRequest
end TreeLowering
