import TreeLowering.Command.Build
import TreeLowering.Command.Help

/-! # Running a command line -/
namespace TreeLowering
set_option autoImplicit false

/-- The line shown to users for a failure. -/
def Failure.report : Failure → String
  | .fault cause loc => (cause.diagnostic loc).report
  | .outOfRange => "index out of range"

/-- What a run leaves behind. -/
structure Outcome where
  code : Nat
  printed : String
  notices : List Notice
  files : FileTree

namespace Outcome

/-- The name under which failures outside any unit are told. -/
def programName : String := "anglc"

def version : String := "anglc 0.1.0"

/-- A run that fails before any unit is built. -/
def aborted (t : FileTree) (e : Failure) : Outcome := ⟨1, "", [.failed programName e], t⟩

def build (r : BuildRequest) (t : FileTree) : Outcome :=
  match r.prepare t with
  | .error e => aborted t e
  | .ok (job, paths) =>
    let s := (job.buildUnits paths (.start t)).conclude paths.length
    { code := if s.failures > 0 then 1 else 0
      printed := s.console.printed
      notices := s.notices
      files := s.console.files }

/-- Lists the names of the registry. -/
def globals (registry : Option Path) (t : FileTree) : Outcome :=
  match BuildRequest.loadRegistry t registry with
  | .error e => aborted t e
  | .ok r => ⟨0, String.join (r.names.map (· ++ "\n")), [], t⟩

def ofRequest (t : FileTree) : Option Request → Outcome
  | some (.build r) => build r t
  | some (.globals registry) => globals registry t
  | some (.help topic) => ⟨0, topic.render, [], t⟩
  | some .version => ⟨0, version ++ "\n", [], t⟩
  | none => ⟨2, "", [], t⟩

end Outcome

/-- Runs a command line over a tree of files. -/
def run (args : List String) (t : FileTree) : Outcome := Outcome.ofRequest t (Arguments.parse args)

end TreeLowering
