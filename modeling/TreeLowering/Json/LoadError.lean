import TreeLowering.Json.Basic
import TreeLowering.Text.Quoted
import TreeLowering.Text.Search

/-! # Why a value could not be loaded -/
namespace TreeLowering
set_option autoImplicit false

/-- The cause of a failed load. -/
inductive LoadError where
  /-- Ill-formed text, or a value of the wrong type, range or length. -/
  | malformed
  /-- A string where something else is expected. -/
  | misplacedText (s : String)
  | missingField (name : String)
  | duplicateField (name : String)
  | unknownVariant (name : String) (expected : List String)
  /-- A value that fits none of the forms of a type. -/
  | noMatchingForm (type : String)
deriving DecidableEq, Inhabited

namespace LoadError

def ticked (s : String) : String := "`" ++ s ++ "`"

/-- The spellings that would have been accepted, in declaration order. -/
def expectation : List String → String
  | [a] => "expected " ++ ticked a
  | [a, b] => "expected " ++ ticked a ++ " or " ++ ticked b
  | names => "expected one of " ++ Text.join ", " (names.map ticked)

/-- The short message; values of the wrong type or range are not described. -/
def message : LoadError → String
  | malformed | misplacedText _ => "<malformed>"
  | missingField name => "missing field " ++ ticked name
  | duplicateField name => "duplicate field " ++ ticked name
  | unknownVariant name expected =>
    "unknown variant " ++ ticked name ++ ", " ++ expectation expected
  | noMatchingForm type => "data did not match any variant of untagged enum " ++ type

/-- The full message, which quotes a misplaced text. -/
def detail : LoadError → String
  | misplacedText s => "invalid type: string " ++ Quoted.quote s
  | e => e.message

/-- The full message speaks of an unknown variant. -/
def mentionsUnknownVariant (e : LoadError) : Bool :=
  Text.occursIn "unknown variant".toList e.detail.toList

/-- The failure of finding `j` where another type is expected. -/
def wrongType : Json → LoadError
  | .string s => misplacedText s
  | _ => malformed

end LoadError
end TreeLowering
