import Mathlib.Data.List.DropRight
import TreeLowering.Json.Reader
import TreeLowering.Json.Writer
import TreeLowering.Proofs.Json.Numeral
import TreeLowering.Proofs.Text.Literal

/-! # Pretty JSON text reads back

The reader takes a written value to its last character, whatever follows it, as long as that does not go
on with a number. -/
namespace TreeLowering.Json
set_option autoImplicit false

open Numeral (Ends)

/-- The value is whole, every key and string in it is text, and every number has a value. -/
inductive Writable : Json → Prop where
  | null : Writable null
  | bool (b : Bool) : Writable (bool b)
  | number {n : Numeral} (hValid : n.Valid) (hValue : n.value?.isSome = true) : Writable (number n)
  | string (s : String) : Writable (string s)
  | array {items : List Json} (hItems : ∀ j ∈ items, Writable j) : Writable (array items)
  | object {members : List Member} (hKeys : ∀ m ∈ members, m.key.isSome = true)
    (hValues : ∀ m ∈ members, Writable m.value) : Writable (object members)

/-! ## Blanks -/

theorem skipBlanks_cons {c : Char} (h : isBlank c = false) (cs : List Char) : skipBlanks (c :: cs) = c :: cs := by
  simp [skipBlanks, h]

theorem skipBlanks_newline (level : Nat) (cs : List Char) : skipBlanks (newline level ++ cs) = skipBlanks cs := by
  refine List.dropWhile_append_of_pos fun c hc => ?_
  rcases List.mem_cons.mp hc with rfl | hc
  · rfl
  · rw [List.eq_of_mem_replicate hc]
    rfl

theorem skipBlanks_skipBlanks (cs : List Char) : skipBlanks (skipBlanks cs) = skipBlanks cs :=
  List.dropWhile_idempotent isBlank cs

theorem readValue_congr {cs cs' : List Char} (h : skipBlanks cs = skipBlanks cs') (fuel : Nat) :
    readValue fuel cs = readValue fuel cs' := by
  cases fuel with
  | zero => rfl
  | succ fuel => rw [readValue, readValue, h]

theorem readValue_blank (fuel : Nat) (cs : List Char) : readValue fuel (' ' :: cs) = readValue fuel cs := by
  have hSkip : skipBlanks (' ' :: cs) = skipBlanks cs := rfl
  exact readValue_congr hSkip fuel

theorem readItems_congr {cs cs' : List Char} (h : skipBlanks cs = skipBlanks cs') (fuel : Nat) :
    readItems fuel cs = readItems fuel cs' := by
  cases fuel with
  | zero => rfl
  | succ fuel => rw [readItems, readItems, readValue_congr h]

theorem readMembers_congr {cs cs' : List Char} (h : skipBlanks cs = skipBlanks cs') (fuel : Nat) :
    readMembers fuel cs = readMembers fuel cs' := by
  cases fuel with
  | zero => rfl
  | succ fuel => rw [readMembers, readMembers, h]

/-! ## Values -/

/-- The reader takes back what is written for the value. -/
def ReadsBack (j : Json) : Prop :=
  ∀ (level fuel : Nat) (rest : List Char), 2 * (j.prettyChars level).length ≤ fuel → Ends rest →
    readValue fuel (j.prettyChars level ++ rest) = (j, rest)

theorem ends_cons {c : Char} (h : c.isDigit = false ∧ c ≠ '.' ∧ c ≠ 'e' ∧ c ≠ 'E') (cs : List Char) :
    Ends (c :: cs) := by
  rintro _ ⟨⟩
  exact h

theorem ends_newline (level : Nat) (cs : List Char) : Ends (newline level ++ cs) := ends_cons (by decide) _

/-- The characters that a written value may start with. -/
def Starts (c : Char) : Prop := isBlank c = false ∧ c ≠ ']'

theorem starts_of_isDigit {c : Char} (h : c.isDigit = true) : Starts c := by
  constructor
  · rw [← Bool.not_eq_true]
    intro hBlank
    simp only [isBlank, Bool.or_eq_true, beq_iff_eq] at hBlank
    rcases hBlank with ((rfl | rfl) | rfl) | rfl <;> exact absurd h (by decide)
  · rintro rfl
    exact absurd h (by decide)

theorem Writable.exists_cons {j : Json} (h : j.Writable) (level : Nat) :
    ∃ c cs, j.prettyChars level = c :: cs ∧ Starts c := by
  cases h with
  | null => exact ⟨'n', _, rfl, rfl, by decide⟩
  | bool b =>
    cases b with
    | false => exact ⟨'f', _, rfl, rfl, by decide⟩
    | true => exact ⟨'t', _, rfl, rfl, by decide⟩
  | number hValid hValue =>
    obtain ⟨c, cs, hRender, rfl | hDigit⟩ := hValid.exists_render
    · exact ⟨'-', cs, hRender, rfl, by decide⟩
    · exact ⟨c, cs, hRender, starts_of_isDigit hDigit⟩
  | string s => exact ⟨'"', _, rfl, rfl, by decide⟩
  | @array items hItems => cases items <;> exact ⟨'[', _, rfl, rfl, by decide⟩
  | @object members hKeys hValues => cases members <;> exact ⟨'\x7b', _, rfl, rfl, by decide⟩

/-! ## Reading one value -/

theorem readsBack_number {n : Numeral} (h : n.Valid) : (number n).ReadsBack := by
  intro level fuel rest hFuel hRest
  obtain ⟨c, cs, hRender, hStart⟩ := h.exists_render
  have hText : (number n).prettyChars level = c :: cs := hRender
  have hRead := Numeral.read?_render h hRest
  rw [hRender, List.cons_append] at hRead
  rw [hText] at hFuel ⊢
  obtain ⟨fuel, rfl⟩ := Nat.exists_eq_succ_of_ne_zero (n := fuel) (by simp at hFuel; omega)
  have hBlank : isBlank c = false := by
    rcases hStart with rfl | hDigit
    · rfl
    · exact (starts_of_isDigit hDigit).1
  -- Every other value starts with a character that no number starts with.
  have hOther : ∀ d ∈ ['n', 't', 'f', '"', '[', '\x7b'], ∀ tail tail', c :: tail ≠ d :: tail' := by
    rintro d hd tail tail' ⟨⟩
    simp only [List.mem_cons, List.not_mem_nil, or_false] at hd
    rcases hd with rfl | rfl | rfl | rfl | rfl | rfl <;> revert hStart <;> decide
  rw [List.cons_append, readValue, skipBlanks_cons hBlank]
  split
  · exact absurd ‹_› (hOther _ (by decide) _ _)
  · exact absurd ‹_› (hOther _ (by decide) _ _)
  · exact absurd ‹_› (hOther _ (by decide) _ _)
  · exact absurd ‹_› (hOther _ (by decide) _ _)
  · exact absurd ‹_› (hOther _ (by decide) _ _)
  · exact absurd ‹_› (hOther _ (by decide) _ _)
  · simp only [hRead]

theorem readValue_string (fuel : Nat) (s : String) (rest : List Char) :
    readValue (fuel + 1) ((Quoted.quote s).toList ++ rest) = (string s, rest) := by
  rw [Quoted.toList_quote, List.cons_append, List.append_assoc, readValue, skipBlanks_cons (by decide)]
  simp only [List.singleton_append, Quoted.read?_encode]

theorem readsBack_string (s : String) : (string s).ReadsBack := by
  intro level fuel rest hFuel _
  have hText : (string s).prettyChars level = (Quoted.quote s).toList := by
    rw [prettyChars, Quoted.quote, String.toList_ofList]
  rw [hText] at hFuel ⊢
  obtain ⟨fuel, rfl⟩ := Nat.exists_eq_succ_of_ne_zero (n := fuel) (by simp [Quoted.toList_quote] at hFuel; omega)
  exact readValue_string fuel s rest

theorem readValue_array {fuel : Nat} {cs rest : List Char} {items : List Json}
    (hOpen : ∀ tail, skipBlanks cs ≠ ']' :: tail) (hItems : readItems fuel cs = (items, rest)) :
    readValue (fuel + 1) ('[' :: cs) = (array items, rest) := by
  rw [← readItems_congr (skipBlanks_skipBlanks cs)] at hItems
  simp only [readValue, skipBlanks_cons (show isBlank '[' = false by decide), hItems]

theorem readValue_object {fuel : Nat} {cs rest : List Char} {members : List Member}
    (hOpen : ∀ tail, skipBlanks cs ≠ '\x7d' :: tail) (hMembers : readMembers fuel cs = (members, rest)) :
    readValue (fuel + 1) ('\x7b' :: cs) = (object members, rest) := by
  rw [← readMembers_congr (skipBlanks_skipBlanks cs)] at hMembers
  simp only [readValue, skipBlanks_cons (show isBlank '\x7b' = false by decide), hMembers]

/-! ## Items and members -/

theorem readItems_last {fuel : Nat} {cs rest : List Char} {j : Json} {outer : Nat}
    (h : readValue fuel cs = (j, newline outer ++ ']' :: rest)) : readItems (fuel + 1) cs = ([j], rest) := by
  simp only [readItems, h, skipBlanks_newline, skipBlanks_cons (show isBlank ']' = false by decide)]

theorem readItems_next {fuel : Nat} {cs tail rest : List Char} {j : Json} {items : List Json}
    (h : readValue fuel cs = (j, ',' :: tail)) (hItems : readItems fuel tail = (items, rest)) :
    readItems (fuel + 1) cs = (j :: items, rest) := by
  simp only [readItems, h, skipBlanks_cons (show isBlank ',' = false by decide), hItems]

theorem readItems_pretty {items : List Json} (hItems : ∀ j ∈ items, j.ReadsBack) (hNonempty : items ≠ [])
    (level outer : Nat) {fuel : Nat} (hFuel : 2 * (prettyItems level items).length ≤ fuel) (rest : List Char) :
    readItems fuel (prettyItems level items ++ (newline outer ++ ']' :: rest)) = (items, rest) := by
  induction items generalizing fuel with
  | nil => exact absurd rfl hNonempty
  | cons j items ih =>
    rw [List.forall_mem_cons] at hItems
    cases items with
    | nil =>
      have hText : prettyItems level [j] = newline level ++ j.prettyChars level := rfl
      simp only [hText, List.length_append, newline, List.length_cons] at hFuel
      obtain ⟨fuel, rfl⟩ := Nat.exists_eq_succ_of_ne_zero (n := fuel) (by omega)
      have hValue := hItems.1 level fuel _ (by omega) (ends_newline outer (']' :: rest))
      rw [hText, List.append_assoc]
      exact readItems_last ((readValue_congr (skipBlanks_newline level _) _).trans hValue)
    | cons k items =>
      have hText : prettyItems level (j :: k :: items) =
          newline level ++ j.prettyChars level ++ ',' :: prettyItems level (k :: items) := rfl
      simp only [hText, List.length_append, newline, List.length_cons] at hFuel
      obtain ⟨fuel, rfl⟩ := Nat.exists_eq_succ_of_ne_zero (n := fuel) (by omega)
      have hRest := ih hItems.2 (List.cons_ne_nil k items) (by omega : _ ≤ fuel)
      have hValue := hItems.1 level fuel (',' :: (prettyItems level (k :: items) ++ (newline outer ++ ']' :: rest)))
        (by omega) (ends_cons (by decide) _)
      rw [hText, List.append_assoc, List.append_assoc]
      exact readItems_next ((readValue_congr (skipBlanks_newline level _) _).trans hValue) hRest

theorem skipBlanks_key (key : String) (cs : List Char) :
    skipBlanks (keyChars (some key) ++ cs) = '"' :: (Quoted.encode key.toList ++ '"' :: cs) := by
  rw [keyChars, Quoted.quoteChars, List.cons_append, skipBlanks_cons (by decide), List.append_assoc]
  rfl

theorem readMembers_last {fuel level outer : Nat} {cs rest : List Char} (key : String) {value : Json}
    (h : readValue fuel (' ' :: cs) = (value, newline outer ++ '\x7d' :: rest)) :
    readMembers (fuel + 1) (newline level ++ (keyChars (some key) ++ ':' :: ' ' :: cs)) =
      ([.mk (some key) value], rest) := by
  simp only [readMembers, skipBlanks_newline, skipBlanks_key, Quoted.read?_encode,
    skipBlanks_cons (show isBlank ':' = false by decide), h, skipBlanks_cons (show isBlank '\x7d' = false by decide)]

theorem readMembers_next {fuel level : Nat} {cs tail rest : List Char} (key : String) {value : Json}
    {members : List Member} (h : readValue fuel (' ' :: cs) = (value, ',' :: tail))
    (hMembers : readMembers fuel tail = (members, rest)) :
    readMembers (fuel + 1) (newline level ++ (keyChars (some key) ++ ':' :: ' ' :: cs)) =
      (.mk (some key) value :: members, rest) := by
  simp only [readMembers, skipBlanks_newline, skipBlanks_key, Quoted.read?_encode,
    skipBlanks_cons (show isBlank ':' = false by decide), h, skipBlanks_cons (show isBlank ',' = false by decide),
    hMembers]

theorem readMembers_pretty {members : List Member} (hKeys : ∀ m ∈ members, m.key.isSome = true)
    (hMembers : ∀ m ∈ members, m.value.ReadsBack) (hNonempty : members ≠ []) (level outer : Nat) {fuel : Nat}
    (hFuel : 2 * (prettyMembers level members).length ≤ fuel) (rest : List Char) :
    readMembers fuel (prettyMembers level members ++ (newline outer ++ '\x7d' :: rest)) = (members, rest) := by
  induction members generalizing fuel with
  | nil => exact absurd rfl hNonempty
  | cons m members ih =>
    rw [List.forall_mem_cons] at hKeys hMembers
    obtain ⟨key, value⟩ := m
    obtain ⟨key, rfl⟩ := Option.isSome_iff_exists.mp hKeys.1
    cases members with
    | nil =>
      have hText : prettyMembers level [.mk (some key) value] =
          newline level ++ keyChars (some key) ++ ':' :: ' ' :: value.prettyChars level := rfl
      simp only [hText, List.length_append, newline, List.length_cons] at hFuel
      obtain ⟨fuel, rfl⟩ := Nat.exists_eq_succ_of_ne_zero (n := fuel) (by omega)
      have hValue := hMembers.1 level fuel _ (by rw [Member.value]; omega) (ends_newline outer ('\x7d' :: rest))
      simp only [hText, List.append_assoc, List.cons_append]
      exact readMembers_last key ((readValue_blank fuel _).trans hValue)
    | cons n members =>
      have hText : prettyMembers level (.mk (some key) value :: n :: members) =
          newline level ++ keyChars (some key) ++
            ':' :: ' ' :: (value.prettyChars level ++ ',' :: prettyMembers level (n :: members)) := rfl
      simp only [hText, List.length_append, newline, List.length_cons] at hFuel
      obtain ⟨fuel, rfl⟩ := Nat.exists_eq_succ_of_ne_zero (n := fuel) (by omega)
      have hRest := ih hKeys.2 hMembers.2 (List.cons_ne_nil n members) (by omega : _ ≤ fuel)
      have hValue := hMembers.1 level fuel
        (',' :: (prettyMembers level (n :: members) ++ (newline outer ++ '\x7d' :: rest)))
        (by rw [Member.value]; omega) (ends_cons (by decide) _)
      simp only [hText, List.append_assoc, List.cons_append]
      exact readMembers_next key ((readValue_blank fuel _).trans hValue) hRest

theorem prettyItems_cons (level : Nat) (j : Json) (items : List Json) :
    ∃ tail, prettyItems level (j :: items) = newline level ++ (j.prettyChars level ++ tail) := by
  cases items with
  | nil => exact ⟨[], by rw [List.append_nil]; rfl⟩
  | cons k items => exact ⟨_, List.append_assoc ..⟩

theorem prettyMembers_cons (level : Nat) (key : Option String) (value : Json) (members : List Member) :
    ∃ tail, prettyMembers level (.mk key value :: members) = newline level ++ (keyChars key ++ tail) := by
  cases members with
  | nil => exact ⟨_, List.append_assoc ..⟩
  | cons m members => exact ⟨_, List.append_assoc ..⟩

theorem Writable.readsBack {j : Json} (h : j.Writable) : j.ReadsBack := by
  induction h with
  | null =>
    intro level fuel rest hFuel _
    obtain ⟨fuel, rfl⟩ := Nat.exists_eq_succ_of_ne_zero (n := fuel) (by simp [prettyChars] at hFuel; omega)
    rfl
  | bool b =>
    intro level fuel rest hFuel _
    obtain ⟨fuel, rfl⟩ := Nat.exists_eq_succ_of_ne_zero (n := fuel)
      (by cases b <;> simp [prettyChars] at hFuel <;> omega)
    cases b <;> rfl
  | number hValid hValue => exact readsBack_number hValid
  | string s => exact readsBack_string s
  | @array items hItems ih =>
    intro level fuel rest hFuel _
    cases items with
    | nil =>
      obtain ⟨fuel, rfl⟩ := Nat.exists_eq_succ_of_ne_zero (n := fuel) (by simp [prettyChars] at hFuel; omega)
      rfl
    | cons j items =>
      simp only [prettyChars, List.length_cons, List.length_append] at hFuel
      obtain ⟨fuel, rfl⟩ := Nat.exists_eq_succ_of_ne_zero (n := fuel) (by omega)
      simp only [prettyChars, List.cons_append, List.append_assoc, List.nil_append]
      refine readValue_array ?_ (readItems_pretty ih (List.cons_ne_nil j items) _ _ (by omega) rest)
      -- What follows the bracket is the start of an item, not the closing bracket.
      intro tail hClosed
      obtain ⟨c, cs, hFirst, hBlank, hStart⟩ := (hItems j List.mem_cons_self).exists_cons (level + 1)
      obtain ⟨after, hText⟩ := prettyItems_cons (level + 1) j items
      rw [hText, hFirst, List.append_assoc, skipBlanks_newline, List.cons_append, List.cons_append,
        skipBlanks_cons hBlank] at hClosed
      exact hStart (List.cons.inj hClosed).1
  | @object members hKeys hValues ih =>
    intro level fuel rest hFuel _
    cases members with
    | nil =>
      obtain ⟨fuel, rfl⟩ := Nat.exists_eq_succ_of_ne_zero (n := fuel) (by simp [prettyChars] at hFuel; omega)
      rfl
    | cons m members =>
      simp only [prettyChars, List.length_cons, List.length_append] at hFuel
      obtain ⟨fuel, rfl⟩ := Nat.exists_eq_succ_of_ne_zero (n := fuel) (by omega)
      simp only [prettyChars, List.cons_append, List.append_assoc, List.nil_append]
      refine readValue_object ?_ (readMembers_pretty hKeys ih (List.cons_ne_nil m members) _ _ (by omega) rest)
      intro tail hClosed
      obtain ⟨key, value⟩ := m
      obtain ⟨key, rfl⟩ := Option.isSome_iff_exists.mp (hKeys _ List.mem_cons_self)
      obtain ⟨after, hText⟩ := prettyMembers_cons (level + 1) (some key) value members
      rw [hText, List.append_assoc, List.append_assoc, skipBlanks_newline, skipBlanks_key] at hClosed
      cases hClosed

theorem read_pretty {j : Json} (h : j.Writable) : read (j.prettyChars 0) = (j, []) := by
  have hRead := h.readsBack 0 (2 * (j.prettyChars 0).length + 2) [] (by omega) (by rintro c ⟨⟩)
  rwa [List.append_nil] at hRead

end TreeLowering.Json
