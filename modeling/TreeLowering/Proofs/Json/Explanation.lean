import TreeLowering.Json.Decoder
import TreeLowering.Proofs.Sequence
import TreeLowering.Proofs.Text.Search

/-! # What a failed load says about its value

A cause that quotes the value it comes from quotes a text that stands in it, or a word that stands where
one of a closed list of words is expected. Both survive when the value is put into a larger one, so they
follow the combinators of decoders. -/
namespace TreeLowering
set_option autoImplicit false

/-! ## Messages -/

namespace LoadError

open Text

theorem toList_phrase : "unknown variant".toList =
    'u' :: 'n' :: ['k', 'n', 'o', 'w', 'n', ' ', 'v', 'a', 'r', 'i', 'a', 'n', 't'] := by
  simp

/-- The text speaks of an unknown variant. -/
def Mentions (s : String) : Prop := occursIn "unknown variant".toList s.toList = true

instance (s : String) : Decidable (Mentions s) := inferInstanceAs (Decidable (_ = true))

theorem Mentions.append {front : String} (h : Mentions front) (s : String) : Mentions (front ++ s) := by
  rw [Mentions, String.toList_append]
  exact occursIn_append h _

theorem mentions_ticked {front : String} (hFront : ¬Mentions front) (name : String) :
    Mentions (front ++ ticked name) ↔ Mentions name := by
  have hText : (front ++ ticked name).toList = front.toList ++ '`' :: (name.toList ++ ['`']) := by
    simp [ticked, String.toList_append]
  rw [Mentions, hText, occursIn_enclosed (by decide) (by decide) (Bool.eq_false_iff.mpr hFront)]
  rfl

/-- The escapes of a quoted text make no difference. -/
theorem mentions_quoted {front : String} (hFront : ¬Mentions front) (s : String) :
    Mentions (front ++ Quoted.quote s) ↔ Mentions s := by
  have hText : (front ++ Quoted.quote s).toList = front.toList ++ '"' :: (Quoted.encode s.toList ++ ['"']) := by
    rw [String.toList_append, Quoted.toList_quote]
  have hEncode : occursIn "unknown variant".toList (Quoted.encode s.toList) =
      occursIn "unknown variant".toList s.toList := by
    rw [toList_phrase]
    exact Quoted.occursIn_encode (by simp [Quoted.encodeChar, Quoted.shortEscape?]) _
  rw [Mentions, hText, occursIn_enclosed (by decide) (by decide) (Bool.eq_false_iff.mpr hFront), hEncode]
  rfl

theorem mentions_unknownVariant (name : String) (expected : List String) :
    Mentions (unknownVariant name expected).detail :=
  have hFront : Mentions "unknown variant " := by decide
  ((hFront.append _).append _).append _

/-- The cause quotes no text of the value and does not speak of unknown variants. -/
def Vague : LoadError → Prop
  | misplacedText _ => False
  | e => ¬Mentions e.detail

theorem Vague.not_mentions {e : LoadError} (h : e.Vague) : ¬Mentions e.detail := by
  cases e with
  | misplacedText s => exact h.elim
  | _ => exact h

theorem vague_missingField {name : String} (h : ¬Mentions name) : (missingField name).Vague :=
  mt (mentions_ticked (by decide) name).mp h

theorem vague_duplicateField {name : String} (h : ¬Mentions name) : (duplicateField name).Vague :=
  mt (mentions_ticked (by decide) name).mp h

end LoadError

/-! ## Values in values -/

namespace Json

/-- The value is the other one or stands in it. -/
inductive Within (v : Json) : Json → Prop where
  | self : Within v v
  | item {j : Json} {js : List Json} (hMem : j ∈ js) (h : Within v j) : Within v (.array js)
  | member {m : Member} {ms : List Member} (hMem : m ∈ ms) (h : Within v m.value) : Within v (.object ms)

theorem Within.trans {u v j : Json} (huv : u.Within v) (hvj : v.Within j) : u.Within j := by
  induction hvj with
  | self => exact huv
  | item hMem _ ih => exact .item hMem ih
  | member hMem _ ih => exact .member hMem ih

/-- An object with further members holds what stands in its members. -/
theorem Within.grow {v : Json} {ms ms' : List Member} (h : v.Within (.object ms)) (hSubset : ms ⊆ ms') :
    v = .object ms ∨ v.Within (.object ms') := by
  cases h with
  | self => exact .inl rfl
  | member hMem h => exact .inr (.member (hSubset hMem) h)

/-- The value names a word: it is the word, or an object whose first key it is. -/
inductive Spells : Json → String → Prop where
  | text (word : String) : Spells (.string word) word
  | key (word : String) (payload : Json) (ms : List Member) : Spells (.object (.mk (some word) payload :: ms)) word

end Json

/-- A place for a word of a closed list: a member of an object, or an item of an array where the container
may be written as one. -/
structure Slot where
  key : String
  position? : Option Nat
  words : List String

namespace Slot

/-- The container has the value at the place. -/
inductive Holds (slot : Slot) : Json → Json → Prop where
  | member {ms : List Member} {v : Json} (h : .mk (some slot.key) v ∈ ms) : Holds slot (.object ms) v
  | item {js : List Json} {v : Json} {p : Nat} (hPosition : slot.position? = some p) (h : js[p]? = some v) :
    Holds slot (.array js) v

/-- The failure is that the value names a word that is none of the place. -/
inductive Misspelt (slot : Slot) (v : Json) : LoadError → Prop where
  | mk {word : String} (hSpells : v.Spells word) (hWord : word ∉ slot.words) :
    Misspelt slot v (.unknownVariant word slot.words)

end Slot

/-! ## Explanations -/

namespace Json

variable {slots : List Slot}

/-- The failure is that the value has, at one of the places, a word that is none of the place. -/
def UnknownWord (slots : List Slot) (j : Json) (e : LoadError) : Prop :=
  ∃ slot ∈ slots, ∃ container v, container.Within j ∧ slot.Holds container v ∧ slot.Misspelt v e

/-- The cause quotes nothing, a text that stands in the value, or a word that is none of its place. -/
inductive Explains (slots : List Slot) (j : Json) : LoadError → Prop where
  | vague {e : LoadError} (h : e.Vague) : Explains slots j e
  | misplacedText {s : String} (h : (string s).Within j) : Explains slots j (.misplacedText s)
  | unknownWord {e : LoadError} (h : j.UnknownWord slots e) : Explains slots j e

theorem explains_malformed {j : Json} : j.Explains slots .malformed :=
  .vague (show ¬LoadError.Mentions "<malformed>" by decide)

theorem explains_wrongType (j : Json) : j.Explains slots (.wrongType j) := by
  cases j with
  | string s => exact .misplacedText .self
  | _ => exact explains_malformed

theorem Explains.within {v j : Json} {e : LoadError} (h : v.Explains slots e) (hWithin : v.Within j) :
    j.Explains slots e := by
  cases h with
  | vague h => exact .vague h
  | misplacedText h => exact .misplacedText (h.trans hWithin)
  | unknownWord h =>
    obtain ⟨slot, hSlot, container, word, hContainer, hHolds, hWord⟩ := h
    exact .unknownWord ⟨slot, hSlot, container, word, hContainer.trans hWithin, hHolds, hWord⟩

theorem Explains.grow {ms ms' : List Member} {e : LoadError} (h : (object ms).Explains slots e) (hSubset : ms ⊆ ms') :
    (object ms').Explains slots e := by
  cases h with
  | vague h => exact .vague h
  | misplacedText h =>
    rcases h.grow hSubset with hText | h
    · cases hText
    · exact .misplacedText h
  | unknownWord h =>
    obtain ⟨slot, hSlot, container, word, hContainer, hHolds, hWord⟩ := h
    rcases hContainer.grow hSubset with rfl | hContainer
    · cases hHolds with
      | member hMem => exact .unknownWord ⟨slot, hSlot, _, word, .self, .member (hSubset hMem), hWord⟩
    · exact .unknownWord ⟨slot, hSlot, container, word, hContainer, hHolds, hWord⟩

theorem explains_of_hold {source : Source} {j v : Json} {e : LoadError} (h : source.hold v = .error e) :
    j.Explains slots e := by
  cases source with
  | memory => cases h
  | text depth =>
    rw [Source.hold] at h
    split at h
    · cases h
    · cases h
      exact explains_malformed

theorem explains_of_ignore {j v : Json} {e : LoadError} (h : Source.ignore v = .error e) : j.Explains slots e := by
  rw [Source.ignore] at h
  split at h
  · cases h
  · cases h
    exact explains_malformed

/-- The message of a cause speaks of unknown variants for a word that is none of its place, and for a text of
the value that does so itself. -/
theorem Explains.mentions_iff {j : Json} {e : LoadError} (h : j.Explains slots e) :
    LoadError.Mentions e.detail ↔
      j.UnknownWord slots e ∨ ∃ s, e = .misplacedText s ∧ (string s).Within j ∧ LoadError.Mentions s := by
  constructor
  · intro hMentions
    cases h with
    | vague hVague => exact absurd hMentions hVague.not_mentions
    | misplacedText hWithin => exact .inr ⟨_, rfl, hWithin, (LoadError.mentions_quoted (by decide) _).mp hMentions⟩
    | unknownWord hWord => exact .inl hWord
  · rintro (⟨slot, _, _, _, _, _, hWord⟩ | ⟨s, rfl, _, hMentions⟩)
    · cases hWord
      exact LoadError.mentions_unknownVariant _ _
    · exact (LoadError.mentions_quoted (by decide) _).mpr hMentions

end Json

/-! ## Decoders -/

namespace Decoder

variable {slots : List Slot} {α β : Type}

/-- Every failure of the decoder is explained by the value it comes from. -/
def Explained (slots : List Slot) (d : Decoder α) : Prop :=
  ∀ source j e, d source j = .error e → j.Explains slots e

/-- Every failure of the decoder is explained by the value it comes from, or by a word of a place. -/
def ExplainedAt (slots : List Slot) (here : Slot → Prop) (d : Decoder α) : Prop :=
  ∀ source j e, d source j = .error e → j.Explains slots e ∨ ∃ slot ∈ slots, here slot ∧ slot.Misspelt j e

theorem Explained.at {d : Decoder α} (h : d.Explained slots) (here : Slot → Prop) : d.ExplainedAt slots here :=
  fun source j e he => .inl (h source j e he)

theorem ExplainedAt.member {d : Decoder α} {key : String} (h : d.ExplainedAt slots (·.key = key)) {source : Source}
    {j : Json} {e : LoadError} (he : d source j = .error e) {ms : List Member} (hMem : .mk (some key) j ∈ ms) :
    (Json.object ms).Explains slots e := by
  rcases h source j e he with hValue | ⟨slot, hSlot, rfl, hWord⟩
  · exact hValue.within (.member hMem .self)
  · exact .unknownWord ⟨slot, hSlot, _, j, .self, .member hMem, hWord⟩

theorem ExplainedAt.item {d : Decoder α} {p : Nat} (h : d.ExplainedAt slots (·.position? = some p)) {source : Source}
    {j : Json} {e : LoadError} (he : d source j = .error e) {js : List Json} (hAt : js[p]? = some j) :
    (Json.array js).Explains slots e := by
  rcases h source j e he with hValue | ⟨slot, hSlot, hPosition, hWord⟩
  · exact hValue.within (.item (List.mem_of_getElem? hAt) .self)
  · exact .unknownWord ⟨slot, hSlot, _, j, .self, .item hPosition hAt, hWord⟩

theorem explained_text : text.Explained slots := by
  intro source j e h
  cases j with
  | string s => cases h
  | _ =>
    cases h
    exact Json.explains_wrongType _

theorem explained_flag : flag.Explained slots := by
  intro source j e h
  cases j with
  | bool b => cases h
  | _ =>
    cases h
    exact Json.explains_wrongType _

theorem explained_natural : natural.Explained slots := by
  intro source j e h
  cases j with
  | number n =>
    rw [natural] at h
    split at h
    · cases h
    · cases h
      exact Json.explains_malformed
  | _ =>
    cases h
    exact Json.explains_wrongType _

theorem explained_double : double.Explained slots := by
  intro source j e h
  cases j with
  | number n =>
    rw [double] at h
    split at h
    · cases h
    · cases h
      exact Json.explains_malformed
  | _ =>
    cases h
    exact Json.explains_wrongType _

theorem Explained.optional {d : Decoder α} (h : d.Explained slots) : d.optional.Explained slots := by
  intro source j e he
  cases hShape : j with
  | null =>
    rw [hShape] at he
    cases he
  | _ =>
    rw [hShape] at he
    exact h source _ e (eq_error_of_map he)

theorem explains_items {d : Decoder α} (h : d.Explained slots) {source : Source} {js : List Json} {e : LoadError}
    (he : items d source js = .error e) : ∃ j ∈ js, j.Explains slots e := by
  induction js with
  | nil => cases he
  | cons j js ih =>
    rcases error_cases_of_bind he with hFirst | ⟨a, -, hRest⟩
    · exact ⟨j, List.mem_cons_self, h source j e hFirst⟩
    · rcases error_cases_of_bind hRest with hOthers | ⟨as, -, hEnd⟩
      · obtain ⟨v, hMem, hv⟩ := ih hOthers
        exact ⟨v, List.mem_cons_of_mem _ hMem, hv⟩
      · cases hEnd

theorem Explained.list {d : Decoder α} (h : d.Explained slots) : d.list.Explained slots := by
  intro source j e he
  cases hShape : j with
  | array js =>
    rw [hShape, Decoder.list] at he
    split at he
    · obtain ⟨v, hMem, hv⟩ := explains_items h he
      exact hv.within (.item hMem .self)
    · cases he
      exact Json.explains_malformed
  | _ =>
    rw [hShape] at he
    cases he
    exact Json.explains_wrongType _

theorem explained_firstOf {type : String} (hType : (LoadError.noMatchingForm type).Vague) (forms : List (Decoder α)) :
    (firstOf type forms).Explained slots := by
  intro source j e he
  rcases error_cases_of_bind he with hHold | ⟨_, -, hForms⟩
  · exact Json.explains_of_hold hHold
  · split at hForms
    · cases hForms
    · cases hForms
      exact .vague hType

theorem explainedAt_choice {options : List (String × α)} {slot : Slot} (hSlot : slot ∈ slots)
    (hWords : slot.words = options.map Prod.fst) {here : Slot → Prop} (hHere : here slot) :
    (choice options).ExplainedAt slots here := by
  intro source j e he
  have hUnknown {word : String} (hSpells : j.Spells word) (hLookup : options.lookup word = none) :
      ∃ slot ∈ slots, here slot ∧ slot.Misspelt j (.unknownVariant word (options.map Prod.fst)) := by
    refine ⟨slot, hSlot, hHere, ?_⟩
    have hWord : word ∉ slot.words := by
      rw [hWords, List.mem_map]
      rintro ⟨option, hMem, rfl⟩
      simpa using List.lookup_eq_none_iff.mp hLookup option hMem
    rw [← hWords]
    exact ⟨hSpells, hWord⟩
  simp only [choice] at he
  split at he
  · split at he
    · cases he
    · cases he
      exact .inr (hUnknown (.text _) ‹_›)
  · rcases error_cases_of_bind he with hName | ⟨a, -, hPayload⟩
    · split at hName
      · cases hName
      · cases hName
        exact .inr (hUnknown (.key _ _ _) ‹_›)
    · split at hPayload
      · cases hPayload
      · cases hPayload
      · cases hPayload
        exact .inl ((Json.explains_wrongType _).within (.member List.mem_cons_self .self))
  · split at he
    · rcases error_cases_of_bind he with hName | ⟨a, -, hPayload⟩
      · split at hName
        · cases hName
        · cases hName
          exact .inr (hUnknown (.key _ _ _) ‹_›)
      · split at hPayload
        · cases hPayload
        · cases hPayload
          exact .inl Json.explains_malformed
        · cases hPayload
          exact .inl ((Json.explains_wrongType _).within (.member List.mem_cons_self .self))
    · cases he
      exact .inl Json.explains_malformed
  · cases he
    exact .inl Json.explains_malformed

end Decoder

end TreeLowering
