import TreeLowering.Json.Record
import TreeLowering.Json.Writer

/-! # Source positions -/
namespace TreeLowering
set_option autoImplicit false

structure Location where
  file : String
  line : Nat
  column : Nat
deriving DecidableEq, Inhabited

structure Span where
  start : Location
  stop : Location
deriving DecidableEq, Inhabited

namespace Location

def render (l : Location) : String := s!"{l.file}:{l.line}:{l.column}"

def record :=
  ((Record.withDefault "file" .text "").and
    ((Record.required "line" .natural).and (Record.withDefault "column" .natural 0))).map
    fun (file, line, column) => Location.mk file line column

def decoder : Decoder Location := record.decoder

def toJson (l : Location) : Json :=
  .object [.entry "file" (.string l.file), .entry "line" (.ofNat l.line),
    .entry "column" (.ofNat l.column)]

end Location

namespace Span

def render (s : Span) : String := s.start.render ++ " - " ++ s.stop.render

def record :=
  ((Record.required "start" Location.decoder).and (Record.required "end" Location.decoder)).map
    fun (start, stop) => Span.mk start stop

def decoder : Decoder Span := record.decoder

def toJson (s : Span) : Json := .object [.entry "start" s.start.toJson, .entry "end" s.stop.toJson]

end Span
end TreeLowering
