/-! # Searching in text -/
namespace TreeLowering.Text
set_option autoImplicit false

/-- `needle` occurs in a list as consecutive elements. -/
def occursIn {α : Type} [BEq α] (needle : List α) : List α → Bool
  | [] => needle.isEmpty
  | c :: rest => needle.isPrefixOf (c :: rest) || occursIn needle rest

/-- The texts put one after another with a separator between them. -/
def join (separator : String) (parts : List String) : String := separator.intercalate parts

/-- Splits a list at each element that satisfies `p`; the result is never empty. -/
def splitAt {α : Type} (p : α → Bool) : List α → List (List α)
  | [] => [[]]
  | c :: rest =>
    match splitAt p rest with
    | [] => [[c]]
    | part :: parts => if p c then [] :: part :: parts else (c :: part) :: parts

theorem splitAt_ne_nil {α : Type} (p : α → Bool) (l : List α) : splitAt p l ≠ [] := by
  cases l with
  | nil => simp [splitAt]
  | cons c rest =>
    unfold splitAt
    split
    · simp
    · split <;> simp

end TreeLowering.Text
