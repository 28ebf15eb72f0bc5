import TreeLowering.Json.Numeral

/-! # JSON texts as far as they can be read

A reader that takes a text from left to right reports the first fault it meets. `Json` keeps
enough of an ill-formed text for that: where the text ends or goes wrong there is a `broken`
value, and nothing is kept behind it. -/
namespace TreeLowering
set_option autoImplicit false

mutual
/-- A JSON value. Object members keep their order and repetitions. -/
inductive Json where
  | null
  | bool (b : Bool)
  | number (n : Numeral)
  | string (s : String)
  /-- A string with the escape of a surrogate that has no partner. -/
  | unpaired
  | array (items : List Json)
  | object (members : List Member)
  /-- The place where the text ends early or is ill-formed. -/
  | broken

/-- A member of an object; the key is `none` where no key can be read. -/
inductive Member where
  | mk (key : Option String) (value : Json)
end

instance : Inhabited Json := ⟨.null⟩

namespace Member

def key : Member → Option String
  | mk k _ => k

def value : Member → Json
  | mk _ v => v

/-- A member with a known key. -/
def entry (key : String) (value : Json) : Member := mk (some key) value

end Member

namespace Json

/-- How many arrays and objects may be open at once. -/
def nestingLimit : Nat := 127

mutual
/-- The value is well-formed JSON. -/
def wellFormed : Json → Bool
  | broken => false
  | array items => itemsWellFormed items
  | object members => membersWellFormed members
  | _ => true

def itemsWellFormed : List Json → Bool
  | [] => true
  | j :: rest => j.wellFormed && itemsWellFormed rest

def membersWellFormed : List Member → Bool
  | [] => true
  | .mk _ v :: rest => v.wellFormed && membersWellFormed rest
end

mutual
/-- The value can be held in memory below `depth` open brackets: it is well-formed, its strings
are text, its numbers are in range and it keeps to the nesting limit. -/
def holdable (depth : Nat) : Json → Bool
  | broken | unpaired => false
  | number n => n.value?.isSome
  | array items => decide (depth < nestingLimit) && itemsHoldable (depth + 1) items
  | object members => decide (depth < nestingLimit) && membersHoldable (depth + 1) members
  | _ => true

def itemsHoldable (depth : Nat) : List Json → Bool
  | [] => true
  | j :: rest => j.holdable depth && itemsHoldable depth rest

def membersHoldable (depth : Nat) : List Member → Bool
  | [] => true
  | .mk k v :: rest => k.isSome && v.holdable depth && membersHoldable depth rest
end

end Json
end TreeLowering
