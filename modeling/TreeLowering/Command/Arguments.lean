import TreeLowering.Path

/-! # Command line arguments -/
namespace TreeLowering
set_option autoImplicit false

/-- An intermediate stage that can be shown. -/
inductive Stage where
  | scopes
  | tree
deriving DecidableEq, Inhabited

def Stage.parse? : String → Option Stage
  | "scopes" => some scopes
  | "tree" => some tree
  | _ => none

structure BuildRequest where
  inputs : List String := []
  output : Option Path := none
  outDir : Option Path := none
  config : Option Path := none
  globals : Option Path := none
  extraGlobals : List String := []
  dump : Option Stage := none
deriving DecidableEq, Inhabited

inductive HelpTopic where
  | program
  | build
  | globals
deriving DecidableEq, Inhabited

inductive Request where
  | build (r : BuildRequest)
  | globals (registry : Option Path)
  | help (topic : HelpTopic)
  | version
deriving DecidableEq, Inhabited

namespace Arguments

/-- What an option asks for. -/
inductive Switch where
  | verbose
  | help
  | version
  | output
  | outDir
  | config
  | globals
  | global
  | dump
deriving DecidableEq, Inhabited

namespace Switch

def takesValue : Switch → Bool
  | verbose | help | version => false
  | _ => true

def long : Switch → String
  | verbose => "verbose"
  | help => "help"
  | version => "version"
  | output => "output"
  | outDir => "out-dir"
  | config => "config"
  | globals => "globals"
  | global => "global"
  | dump => "dump"

def short? : Switch → Option Char
  | verbose => some 'v'
  | help => some 'h'
  | version => some 'V'
  | output => some 'o'
  | global => some 'g'
  | dump => some 'd'
  | outDir | config | globals => none

end Switch

def programSwitches : List Switch := [.verbose, .help, .version]

def buildSwitches : List Switch :=
  [.output, .outDir, .config, .globals, .global, .dump, .verbose, .help]

def globalsSwitches : List Switch := [.globals, .verbose, .help]

/-- What has been taken from the arguments of a command. -/
structure Taken where
  request : BuildRequest := {}
  verbose : Bool := false
deriving Inhabited

/-- A path must not be empty, and an option is given at most once. -/
def takePath (old : Option Path) (value : String) : Option Path :=
  if old.isSome || value.isEmpty then none else some ⟨value⟩

/-- Takes an option with its value; `none` is a misuse. -/
def takeValue (taken : Taken) (value : String) : Switch → Option Taken
  | .output => (takePath taken.request.output value).map fun p =>
    { taken with request := { taken.request with output := some p } }
  | .outDir => (takePath taken.request.outDir value).map fun p =>
    { taken with request := { taken.request with outDir := some p } }
  | .config => (takePath taken.request.config value).map fun p =>
    { taken with request := { taken.request with config := some p } }
  | .globals => (takePath taken.request.globals value).map fun p =>
    { taken with request := { taken.request with globals := some p } }
  | .global => some
    { taken with request :=
        { taken.request with extraGlobals := taken.request.extraGlobals ++ [value] } }
  | .dump =>
    if taken.request.dump.isSome then none
    else (Stage.parse? value).map fun stage =>
      { taken with request := { taken.request with dump := some stage } }
  | .verbose | .help | .version => none

/-- What reading an argument leads to. -/
inductive Progress where
  | more (taken : Taken)
  /-- The next argument is the value of an option. -/
  | awaits (switch : Switch) (taken : Taken)
  /-- The command ends here with a request of its own. -/
  | done (switch : Switch)
  | misuse

def Progress.ofOption : Option Taken → Progress
  | some taken => .more taken
  | none => .misuse

/-- Takes an option without value. -/
def takeFlag (taken : Taken) : Switch → Progress
  | .verbose => if taken.verbose then .misuse else .more { taken with verbose := true }
  | switch => .done switch

/-- Reads `name` or `name=value` after two dashes. -/
def readLong (switches : List Switch) (taken : Taken) (cs : List Char) : Progress :=
  let name := String.ofList (cs.takeWhile (· != '='))
  match switches.find? fun s => s.long == name, cs.dropWhile (· != '=') with
  | none, _ => .misuse
  | some switch, [] => if switch.takesValue then .awaits switch taken else takeFlag taken switch
  | some switch, _ :: value =>
    if switch.takesValue then .ofOption (takeValue taken (String.ofList value) switch) else .misuse

/-- Reads letters after one dash; the first that takes a value takes the rest as its value, an
equals sign apart. -/
def readShort (switches : List Switch) (taken : Taken) : List Char → Progress
  | [] => .more taken
  | c :: rest =>
    match switches.find? fun s => s.short? == some c with
    | none => .misuse
    | some switch =>
      if switch.takesValue then
        match rest with
        | [] => .awaits switch taken
        | '=' :: value => .ofOption (takeValue taken (String.ofList value) switch)
        | value => .ofOption (takeValue taken (String.ofList value) switch)
      else
        match takeFlag taken switch with
        | .more taken => readShort switches taken rest
        | progress => progress

/-- The argument is an option or the mark that no options follow. -/
def looksLikeOption (arg : String) : Bool :=
  match arg.toList with
  | '-' :: _ :: _ => true
  | _ => false

def takeInput (taken : Taken) (input : String) : Taken :=
  { taken with request := { taken.request with inputs := taken.request.inputs ++ [input] } }

/-- Reads one argument of a command. -/
def readOne (switches : List Switch) (taken : Taken) (arg : String) : Progress :=
  match arg.toList with
  | '-' :: '-' :: name => readLong switches taken name
  | '-' :: letter :: rest => readShort switches taken (letter :: rest)
  | _ => .more (takeInput taken arg)

/-- The arguments of a command, or a request that ends it. -/
inductive Reading where
  | all (taken : Taken)
  | done (switch : Switch)

/-- Reads the arguments of a command in order; `none` is a misuse. -/
def readAll (switches : List Switch) : List String → Taken → Option Reading
  | [], taken => some (.all taken)
  | "--" :: inputs, taken => some (.all (inputs.foldl takeInput taken))
  | arg :: rest, taken =>
    match readOne switches taken arg with
    | .more taken => readAll switches rest taken
    | .done switch => some (.done switch)
    | .misuse => none
    | .awaits switch taken =>
      match rest with
      | [] => none
      | value :: rest =>
        if looksLikeOption value then none
        else
          match takeValue taken value switch with
          | some taken => readAll switches rest taken
          | none => none

/-- Checks what a build needs: inputs, and not two places for its output. -/
def buildOf (taken : Taken) : Option Request :=
  let r := taken.request
  if r.inputs.isEmpty || (r.output.isSome && r.outDir.isSome) then none else some (.build r)

def parseBuild (args : List String) : Option Request :=
  match readAll buildSwitches args {} with
  | some (.all taken) => buildOf taken
  | some (.done _) => some (.help .build)
  | none => none

def parseGlobals (args : List String) : Option Request :=
  match readAll globalsSwitches args {} with
  | some (.all taken) =>
    if taken.request.inputs.isEmpty then some (.globals taken.request.globals) else none
  | some (.done _) => some (.help .globals)
  | none => none

def parseHelp : List String → Option Request
  | [] | ["help"] => some (.help .program)
  | ["build"] => some (.help .build)
  | ["globals"] => some (.help .globals)
  | _ => none

/-- Reads a command line; `none` is a misuse. -/
def parseFrom (taken : Taken) : List String → Option Request
  | [] => none
  | "build" :: args => parseBuild args
  | "globals" :: args => parseGlobals args
  | "help" :: args => parseHelp args
  | "--" :: _ => none
  | arg :: rest =>
    if looksLikeOption arg then
      match readOne programSwitches taken arg with
      | .more taken => parseFrom taken rest
      | .done .version => some .version
      | .done _ => some (.help .program)
      | .awaits .. | .misuse => none
    else none

def parse (args : List String) : Option Request := parseFrom {} args

end Arguments
end TreeLowering
