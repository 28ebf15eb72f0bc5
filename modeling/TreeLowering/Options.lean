import TreeLowering.Fault

/-! # Options of a compilation -/
namespace TreeLowering
set_option autoImplicit false

/-- What emitted code expects of the runtime support library. -/
structure Contract where
  /-- Name of the globals container inside a module. -/
  globalsIdentifier : String := "$G"
  /-- Name of the helpers container inside a module. -/
  runtimeIdentifier : String := "$R"
  globalsModule : String := "angl/globals"
  runtimeModule : String := "angl/runtime"
  /-- Helper that registers an object: name, parent's name, set-up function. -/
  createObject : String := "createAnglObject"
  /-- Helper that links a child to its parent. -/
  inherit : String := "inherit"
  initPropertiesMethod : String := "$initProperties"
  createMethod : String := "$create"
  destroyMethod : String := "$destroy"
deriving DecidableEq, Inhabited

structure Options where
  runtime : Contract := {}
  /-- Global names beyond the registry. -/
  extraGlobals : List String := []
  /-- One level of indentation. -/
  indent : String := "    "
deriving DecidableEq, Inhabited

namespace Contract

def default : Contract := {}

def record :=
  ((Record.withDefault "globalsIdentifier" .text default.globalsIdentifier).and
    ((Record.withDefault "runtimeIdentifier" .text default.runtimeIdentifier).and
      ((Record.withDefault "globalsModule" .text default.globalsModule).and
        ((Record.withDefault "runtimeModule" .text default.runtimeModule).and
          ((Record.withDefault "createObject" .text default.createObject).and
            ((Record.withDefault "inherit" .text default.inherit).and
              ((Record.withDefault "initPropertiesMethod" .text default.initPropertiesMethod).and
                ((Record.withDefault "createMethod" .text default.createMethod).and
                  (Record.withDefault "destroyMethod" .text default.destroyMethod))))))))).map
    fun (globals, runtime, globalsModule, runtimeModule, create, inherit, initMethod,
        createMethod, destroyMethod) =>
      Contract.mk globals runtime globalsModule runtimeModule create inherit initMethod createMethod
        destroyMethod

def decoder : Decoder Contract := record.decoder

def toJson (c : Contract) : Json :=
  .object [.entry "globalsIdentifier" (.string c.globalsIdentifier),
    .entry "runtimeIdentifier" (.string c.runtimeIdentifier),
    .entry "globalsModule" (.string c.globalsModule),
    .entry "runtimeModule" (.string c.runtimeModule),
    .entry "createObject" (.string c.createObject),
    .entry "inherit" (.string c.inherit),
    .entry "initPropertiesMethod" (.string c.initPropertiesMethod),
    .entry "createMethod" (.string c.createMethod),
    .entry "destroyMethod" (.string c.destroyMethod)]

end Contract

namespace Options

def default : Options := {}

def record :=
  ((Record.withDefault "runtime" Contract.decoder default.runtime).and
    ((Record.withDefault "extraGlobals" Decoder.text.list default.extraGlobals).and
      (Record.withDefault "indent" .text default.indent))).map
    fun (runtime, extraGlobals, indent) => Options.mk runtime extraGlobals indent

def decoder : Decoder Options := record.decoder

/-- Loads options; what is left out keeps its default. -/
def parse (text : String) : Result Options :=
  match decoder.load text.toList with
  | .ok o => pure o
  | .error e => fail (.options e)

def toJson (o : Options) : Json :=
  .object [.entry "runtime" o.runtime.toJson,
    .entry "extraGlobals" (.array (o.extraGlobals.map .string)), .entry "indent" (.string o.indent)]

end Options
end TreeLowering
