import TreeLowering.Command.FileTree

/-! # File patterns: `*`, `?`, character sets, and `**` for any number of directories -/
namespace TreeLowering
set_option autoImplicit false

/-- A member of a character set. -/
inductive CharSpec where
  | one (c : Char)
  | range (first last : Char)
deriving DecidableEq

namespace CharSpec

def has (c : Char) : CharSpec → Bool
  | one d => c == d
  | range first last => first ≤ c && c ≤ last

/-- Reads the inside of a set: `a-z` is a range. -/
def read : List Char → List CharSpec
  | first :: '-' :: last :: rest => range first last :: read rest
  | c :: rest => one c :: read rest
  | [] => []

end CharSpec

/-- One token of a pattern for a name. -/
inductive Glob where
  | char (c : Char)
  /-- Any one character. -/
  | any
  /-- Any characters. -/
  | many
  /-- Any number of directories. -/
  | deep
  | within (specs : List CharSpec)
  | except (specs : List CharSpec)
deriving DecidableEq

/-- Why a pattern is refused, with the position of the fault. -/
inductive PatternError where
  | wildcards (position : Nat)
  | recursiveWildcards (position : Nat)
  | range (position : Nat)
deriving DecidableEq

namespace PatternError

def position : PatternError → Nat
  | wildcards n | recursiveWildcards n | range n => n

def reason : PatternError → String
  | wildcards _ => "wildcards are either regular `*` or recursive `**`"
  | recursiveWildcards _ => "recursive wildcards must form a single path component"
  | range _ => "invalid range pattern"

def message (e : PatternError) : String :=
  s!"Pattern syntax error near position {e.position}: " ++ e.reason

end PatternError

namespace Glob

/-- Splits before the first closing bracket; the first character belongs to the set even if it is
a bracket. -/
def closing? : List Char → Option (List Char × List Char)
  | [] => none
  | first :: rest =>
    let inside := rest.takeWhile (· != ']')
    match rest.dropWhile (· != ']') with
    | _ :: after => some (first :: inside, after)
    | [] => none

/-- Reads a set after its opening bracket: the token and what follows it. -/
def readSet? : List Char → Option (Glob × List Char)
  | '!' :: rest => (closing? rest).map fun (inside, after) => (except (CharSpec.read inside), after)
  | cs => (closing? cs).map fun (inside, after) => (within (CharSpec.read inside), after)

/-- Reads a pattern; `position` counts the characters before it and `previous` is the last of
them. `fuel` bounds the number of tokens. -/
def readFrom : Nat → Nat → Option Char → List Char → Except PatternError (List Glob)
  | 0, _, _, _ => pure []
  | _, _, _, [] => pure []
  | fuel + 1, position, previous, '*' :: rest =>
    let stars := 1 + (rest.takeWhile (· == '*')).length
    let after := rest.dropWhile (· == '*')
    if stars > 2 then throw (.wildcards (position + 2))
    else if stars = 1 then do
      let globs ← readFrom fuel (position + 1) (some '*') after
      pure (many :: globs)
    else if previous.isNone || previous == some '/' then
      match after with
      | [] => pure [deep]
      | '/' :: after => do
        let globs ← readFrom fuel (position + 3) (some '/') after
        pure (deep :: globs)
      | _ => throw (.recursiveWildcards (position + 2))
    else throw (.recursiveWildcards (position - 1))
  | fuel + 1, position, _, '[' :: rest =>
    match readSet? rest with
    | some (set, after) => do
      let globs ← readFrom fuel (position + 1 + rest.length - after.length) (some ']') after
      pure (set :: globs)
    | none => throw (.range position)
  | fuel + 1, position, _, '?' :: rest => do
    let globs ← readFrom fuel (position + 1) (some '?') rest
    pure (any :: globs)
  | fuel + 1, position, _, c :: rest => do
    let globs ← readFrom fuel (position + 1) (some c) rest
    pure (char c :: globs)

def read (cs : List Char) : Except PatternError (List Glob) := readFrom cs.length 0 none cs

/-- The ends of a list, the whole list first. -/
def suffixes : List Char → List (List Char)
  | [] => [[]]
  | c :: rest => (c :: rest) :: suffixes rest

/-- Whether a name fits a pattern. -/
def accepts : List Glob → List Char → Bool
  | [], cs => cs.isEmpty
  | many :: globs, cs => (suffixes cs).any fun rest => accepts globs rest
  | deep :: globs, cs => accepts globs cs
  | _ :: _, [] => false
  | char d :: globs, c :: cs => c == d && accepts globs cs
  | any :: globs, _ :: cs => accepts globs cs
  | within specs :: globs, c :: cs => specs.any (·.has c) && accepts globs cs
  | except specs :: globs, c :: cs => !specs.any (·.has c) && accepts globs cs

/-- A pattern without wildcards fits the name it spells and no other. -/
theorem accepts_map_char (name cs : List Char) :
    accepts (name.map char) cs = true ↔ cs = name := by
  induction name generalizing cs with
  | nil => simp [accepts]
  | cons d rest ih =>
    cases cs with
    | nil => simp [accepts]
    | cons c cs => simp [accepts, ih]

/-- The name that a pattern without wildcards spells. -/
def literal? : List Glob → Option (List Char)
  | [] => some []
  | char c :: globs => (literal? globs).map (c :: ·)
  | _ :: _ => none

end Glob

/-- A pattern for paths. -/
structure Pattern where
  isAbsolute : Bool
  components : List (List Glob)
  /-- Only directories fit. -/
  directoriesOnly : Bool

namespace Pattern

/-- Whether an input is a pattern and not a plain path. -/
def looksLike (s : String) : Bool := s.toList.any fun c => c == '*' || c == '?' || c == '['

/-- The parts of a path text; a slash at its end begins no part. -/
def componentTexts (cs : List Char) : List (List Char) :=
  let parts := Text.splitAt (· == '/') cs
  if parts.getLast? == some [] then parts.dropLast else parts

/-- Several `**` in a row are as good as one. -/
def collapse : List (List Glob) → List (List Glob)
  | [.deep] :: rest =>
    match collapse rest with
    | [.deep] :: rest => [.deep] :: rest
    | rest => [.deep] :: rest
  | globs :: rest => globs :: collapse rest
  | [] => []

/-- Reads a pattern: it must be well-formed as a whole and in each component. -/
def read (s : String) : Except PatternError Pattern := do
  let cs := s.toList
  let _ ← Glob.read cs
  let isAbsolute := cs.head? == some '/'
  let components ← (componentTexts (if isAbsolute then cs.drop 1 else cs)).mapM Glob.read
  pure ⟨isAbsolute, collapse components, cs.getLast? == some '/'⟩

/-- Whether a component fits the name of a path. -/
def fits (globs : List Glob) (p : Path) : Bool := Glob.accepts globs (p.fileName?.getD "").toList

/-- The directory itself and the one above it, where a component that starts with a dot fits
them. -/
def dotEntries (globs : List Glob) (p : Path) : List Path :=
  if globs.head? == some (.char '.') then
    ["..", "."].filterMap fun s => if Glob.accepts globs s.toList then some (p.join s) else none
  else []

/-- The paths below `p` that fit the remaining components, in ascending order of names; a
directory comes before what is below it. -/
def search (t : FileTree) (directoriesOnly : Bool) : List (List Glob) → Path → List Path
  | [], p => if directoriesOnly && !t.isDirectory p then [] else [p]
  | globs :: rest, p =>
    match Glob.literal? globs with
    | some cs =>
      let name := String.ofList cs
      let next : Path := if p.isHere then ⟨name⟩ else p.join name
      let found := if name = "." || name = ".." then t.isDirectory p else t.hasNode next
      if found then search t directoriesOnly rest next else []
    | none =>
      if !t.isDirectory p then []
      else if globs = [.deep] then
        match rest with
        | [] => (t.descendants p).filter t.isDirectory
        | after :: rest =>
          (t.descendants p).flatMap fun q =>
            if fits after q then search t directoriesOnly rest q else []
      else
        (dotEntries globs p).flatMap (fun q => search t directoriesOnly rest q) ++
          (t.children p).flatMap fun q =>
            if fits globs q then search t directoriesOnly rest q else []

/-- The paths that fit a pattern. -/
def expand (t : FileTree) (pattern : Pattern) : List Path :=
  search t pattern.directoriesOnly pattern.components ⟨if pattern.isAbsolute then "/" else "."⟩

end Pattern
end TreeLowering
