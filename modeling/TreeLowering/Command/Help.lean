import TreeLowering.Command.Arguments
import TreeLowering.Text.Search

/-! # Help texts -/
namespace TreeLowering.HelpTopic
set_option autoImplicit false

/-- A name with what it means. -/
structure Item where
  name : String
  about : String

/-- Items one below the other, with their meanings in one column. -/
def listing (items : List Item) : List String :=
  let widest := (items.map fun i => i.name.length).foldl max 0
  items.map fun i =>
    "  " ++ i.name ++ String.ofList (List.replicate (widest - i.name.length + 2) ' ') ++ i.about

def verboseItem : Item :=
  ⟨"-v, --verbose", "Log debug output to stderr when ANGL_LOG/RUST_LOG are unset"⟩

def helpItem : Item := ⟨"-h, --help", "Print help"⟩

def globalsItem : Item :=
  ⟨"    --globals <FILE>", "JSON object of global names replacing the built-in registry"⟩

def lines : HelpTopic → List String
  | program =>
    ["Lower scope-annotated Angl trees to JavaScript modules", "",
      "Usage: anglc [OPTIONS] <COMMAND>", "", "Commands:"] ++
    listing [⟨"build", "Compile annotated tree documents to JavaScript"⟩,
      ⟨"globals", "List the names in the global registry"⟩,
      ⟨"help", "Print this message or the help of the given subcommand(s)"⟩] ++
    ["", "Options:"] ++ listing [verboseItem, helpItem, ⟨"-V, --version", "Print version"⟩]
  | build =>
    ["Compile annotated tree documents to JavaScript", "",
      "Usage: anglc build [OPTIONS] <INPUT>...", "", "Arguments:"] ++
    listing [⟨"<INPUT>...", "Tree documents to compile; glob patterns are expanded"⟩] ++
    ["", "Options:"] ++
    listing [⟨"-o, --output <FILE>", "Write the result to this file (single input only)"⟩,
      ⟨"    --out-dir <DIR>", "Write one <stem>.js per input into this directory"⟩,
      ⟨"    --config <FILE>", "Compile options (JSON)"⟩, globalsItem,
      ⟨"-g, --global <NAME>", "Extra global name, in addition to the registry"⟩,
      ⟨"-d, --dump <STAGE>",
        "Print an intermediate stage to stdout before compiling [possible values: scopes, tree]"⟩,
      verboseItem, helpItem]
  | globals =>
    ["List the names in the global registry", "", "Usage: anglc globals [OPTIONS]", "",
      "Options:"] ++ listing [globalsItem, verboseItem, helpItem]

def render (t : HelpTopic) : String := Text.join "\n" t.lines ++ "\n"

end TreeLowering.HelpTopic
