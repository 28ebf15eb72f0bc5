import TreeLowering.Proofs.Json.ReadBack

/-! # Literals end at their closing quote

A quote inside a literal ends it unless a backslash escapes it, and a backslash that is escaped itself
escapes nothing. So whether a character is escaped depends on how many backslashes stand right before it. -/
namespace TreeLowering.Quoted
set_option autoImplicit false

/-! ## Escaped characters -/

/-- How many backslashes end a text. -/
def backslashesAtEnd (cs : List Char) : Nat := (cs.reverse.takeWhile (· = '\\')).length

/-- An odd number of backslashes at the end escapes the character that follows. -/
def Escapes (before : List Char) : Prop := backslashesAtEnd before % 2 = 1

/-- Whether a backslash is waiting for the character it escapes, after more characters. -/
def pendingAfter (pending : Bool) (cs : List Char) : Bool := cs.foldl (fun p c => c = '\\' && !p) pending

theorem backslashesAtEnd_concat (cs : List Char) (c : Char) :
    backslashesAtEnd (cs ++ [c]) = if c = '\\' then backslashesAtEnd cs + 1 else 0 := by
  by_cases hSlash : c = '\\' <;> simp [backslashesAtEnd, hSlash]

theorem pendingAfter_append (pending : Bool) (cs ds : List Char) :
    pendingAfter pending (cs ++ ds) = pendingAfter (pendingAfter pending cs) ds := List.foldl_append

theorem escapes_iff_pendingAfter (cs : List Char) : Escapes cs ↔ pendingAfter false cs = true := by
  induction cs using List.reverseRecOn with
  | nil => simp [Escapes, backslashesAtEnd, pendingAfter]
  | append_singleton cs c ih =>
    rw [Escapes] at ih ⊢
    rw [pendingAfter_append, backslashesAtEnd_concat]
    by_cases hSlash : c = '\\'
    · have hPending : pendingAfter (pendingAfter false cs) [c] = !pendingAfter false cs := by
        simp [pendingAfter, hSlash]
      rw [hPending, if_pos hSlash]
      cases hRun : pendingAfter false cs <;> simp [hRun] at ih ⊢ <;> omega
    · have hPending : pendingAfter (pendingAfter false cs) [c] = false := by simp [pendingAfter, hSlash]
      simp [hPending, hSlash]

/-! ## Written characters -/

theorem toNat_shortEscape? {c e : Char} (h : shortEscape? c = some e) : 32 ≤ e.toNat := by
  rw [shortEscape?] at h
  split_ifs at h <;> cases h <;> decide

theorem toNat_of_mem_encodeChar {c d : Char} (h : d ∈ encodeChar c) : 32 ≤ d.toNat := by
  obtain ⟨e, hShort, hText⟩ | ⟨a, b, ha, hb, hText⟩ | ⟨hPrintable, -, -, hText⟩ := encodeChar_cases c
  · simp only [hText, List.mem_cons, List.not_mem_nil, or_false] at h
    rcases h with rfl | rfl
    · decide
    · exact toNat_shortEscape? hShort
  · simp only [hText, List.mem_cons, List.not_mem_nil, or_false] at h
    rcases h with rfl | rfl | rfl | rfl | rfl | rfl
    · decide
    · decide
    · decide
    · decide
    · exact (hexDigit_plain ha).1
    · exact (hexDigit_plain hb).1
  · rw [hText, List.mem_singleton] at h
    rwa [h]

/-- A written character leaves no backslash waiting. -/
theorem pendingAfter_encodeChar (c : Char) : pendingAfter false (encodeChar c) = false := by
  obtain ⟨e, -, hText⟩ | ⟨a, b, ha, hb, hText⟩ | ⟨-, hSlash, -, hText⟩ := encodeChar_cases c
  · simp [pendingAfter, hText]
  · simp [pendingAfter, hText, (hexDigit_plain hb).2.1]
  · simp [pendingAfter, hText, hSlash]

/-- A quote in a written character stands after a backslash that waits for it. -/
theorem pendingAfter_of_encodeChar {c : Char} {before after : List Char}
    (h : encodeChar c = before ++ '"' :: after) : pendingAfter false before = true := by
  have hMem : '"' ∈ encodeChar c := by simp [h]
  obtain ⟨e, -, hText⟩ | ⟨a, b, ha, hb, hText⟩ | ⟨-, -, hQuote, hText⟩ := encodeChar_cases c
  · rw [hText] at h
    rcases before with _ | ⟨x, _ | ⟨y, tail⟩⟩
    · simp at h
    · obtain ⟨rfl, -⟩ := List.cons.inj h
      rfl
    · simp at h
  · simp [hText, (hexDigit_plain ha).2.2.1.symm, (hexDigit_plain hb).2.2.1.symm] at hMem
  · simp [hText, hQuote.symm] at hMem

/-! ## Written texts -/

theorem toNat_of_mem_quote {s : String} {d : Char} (h : d ∈ (quote s).toList) : 32 ≤ d.toNat := by
  simp only [toList_quote, List.mem_cons, List.mem_append, List.not_mem_nil, or_false] at h
  rcases h with rfl | h | rfl
  · decide
  · obtain ⟨c, -, hChar⟩ := List.mem_flatMap.mp h
    exact toNat_of_mem_encodeChar hChar
  · decide

/-- The quotes of a text are escaped, and the one that ends its literal is not. -/
theorem escapes_iff_of_encode {cs before after : List Char} (h : encode cs ++ ['"'] = before ++ '"' :: after) :
    Escapes before ↔ after ≠ [] := by
  rw [escapes_iff_pendingAfter]
  induction cs generalizing before with
  | nil =>
    have hEnd : before = [] ∧ after = [] := by
      rcases before with _ | ⟨x, before⟩
      · simpa [encode, eq_comm] using h
      · simp [encode] at h
    simp [hEnd.1, hEnd.2, pendingAfter]
  | cons c cs ih =>
    have hBehind {before' : List Char} (hBefore : before = encodeChar c ++ before')
        (hRest : encode cs ++ ['"'] = before' ++ '"' :: after) : pendingAfter false before = true ↔ after ≠ [] := by
      rw [hBefore, pendingAfter_append, pendingAfter_encodeChar]
      exact ih hRest
    rw [encode_cons, List.append_assoc] at h
    -- The quote lies behind the first written character, or in it.
    rcases List.append_eq_append_iff.mp h with ⟨before', hBefore, hRest⟩ | ⟨middle, hChar, hRest⟩
    · exact hBehind hBefore hRest
    · rcases List.cons_eq_append_iff.mp hRest with ⟨rfl, hRest⟩ | ⟨middle, rfl, rfl⟩
      · have hBefore : before = encodeChar c ++ [] := by simpa using hChar.symm
        exact hBehind hBefore hRest.symm
      · simp [pendingAfter_of_encodeChar hChar]

/-! ## Reading -/

/-- Whatever follows a literal, its reader stops right behind it. -/
theorem read_quote (s : String) (rest : List Char) : Json.read ((quote s).toList ++ rest) = (.string s, rest) :=
  Json.readValue_string _ s rest

theorem quote_append_inj {s s' : String} {rest rest' : List Char} :
    (quote s).toList ++ rest = (quote s').toList ++ rest' ↔ s = s' ∧ rest = rest' := by
  constructor
  · intro h
    have hRead := read_quote s rest
    rw [h, read_quote] at hRead
    cases hRead
    exact ⟨rfl, rfl⟩
  · rintro ⟨rfl, rfl⟩
    rfl

/-- A literal is read as its text up to its last character, whatever follows it. It has no control
characters, and of the quotes after its first one just the last is not escaped. So a text starts with one
literal at most, and a literal has one text. -/
theorem quote_delimits_itself :
    (∀ (s : String) (rest : List Char), Json.read ((quote s).toList ++ rest) = (.string s, rest)) ∧
      (∀ (s : String), ∀ c ∈ (quote s).toList, 32 ≤ c.toNat) ∧
      (∀ (s : String) (before after : List Char), (quote s).toList = '"' :: (before ++ '"' :: after) →
        (Escapes before ↔ after ≠ [])) ∧
      (∀ (s s' : String) (rest rest' : List Char),
        (quote s).toList ++ rest = (quote s').toList ++ rest' ↔ s = s' ∧ rest = rest') ∧
      Function.Injective quote := by
  refine ⟨read_quote, fun s c h => toNat_of_mem_quote h, fun s before after h => ?_,
    fun s s' rest rest' => quote_append_inj, fun s s' h => ?_⟩
  · rw [toList_quote] at h
    exact escapes_iff_of_encode (List.cons.inj h).2
  · have hText : (quote s).toList ++ [] = (quote s').toList ++ [] := by rw [h]
    exact (quote_append_inj.mp hText).1

/-- A backslash and a quote: the quote that ends their literal follows three backslashes and a quote. -/
theorem quote_backslash_quote_delimits :
    Json.read ((quote "\\\"").toList ++ ['"']) = (.string "\\\"", ['"']) ∧
      32 ≤ '"'.toNat ∧
      Escapes ['\\', '\\', '\\'] ∧ ¬Escapes ['\\', '\\', '\\', '"'] := by
  obtain ⟨hRead, hControl, hQuotes, -, -⟩ := quote_delimits_itself
  refine ⟨hRead _ _, hControl "\\\"" _ (by decide), ?_, ?_⟩
  · exact (hQuotes "\\\"" ['\\', '\\', '\\'] ['"'] (by decide)).mpr (by decide)
  · rw [hQuotes "\\\"" ['\\', '\\', '\\', '"'] [] (by decide)]
    decide

end TreeLowering.Quoted
