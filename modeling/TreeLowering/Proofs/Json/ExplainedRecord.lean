import TreeLowering.Proofs.Json.Explanation
import TreeLowering.Proofs.Json.Tagged

/-! # Records and tagged values explain their failures

A field fails at the value of a member or of an item, which stands in the value of the record. Members that
are held back for another record are members of the same object. -/
namespace TreeLowering
set_option autoImplicit false

/-! ## Records -/

namespace Record

variable {slots : List Slot} {σ τ α β : Type}

/-- Every failure at a member is explained by any object with that member, and the missing of a field needs
no explanation. -/
structure ExplainsMembers (slots : List Slot) (r : Record σ α) : Prop where
  meet : ∀ source key j seen e, r.meet source key j seen = some (.error e) →
    ∀ ms, .mk (some key) j ∈ ms → (Json.object ms).Explains slots e
  finish : ∀ seen e, r.finish seen = .error e → e.Vague

/-- Every failure at the items behind the first `offset` is explained by the array, of which the record takes
`width` items. -/
structure ExplainsItems (slots : List Slot) (r : Record σ α) (offset width : Nat) : Prop where
  rest : ∀ source (js : List Json) a rest, r.positional source (js.drop offset) = .ok (a, rest) →
    rest = js.drop (offset + width)
  fail : ∀ source (js : List Json) e, r.positional source (js.drop offset) = .error e →
    (Json.array js).Explains slots e

theorem explainsMembers_field {name : String} (hName : ¬LoadError.Mentions name) {d : Decoder α}
    (h : d.ExplainedAt slots (·.key = name)) (default? : Option α) :
    (field name d default?).ExplainsMembers slots where
  meet source key j seen e hMeet ms hMem := by
    simp only [field] at hMeet
    split at hMeet
    · subst key
      cases seen with
      | some a =>
        cases hMeet
        exact .vague (LoadError.vague_duplicateField hName)
      | none => exact h.member (eq_error_of_map (Option.some.inj hMeet)) hMem
    · cases hMeet
  finish seen e hFinish := by
    cases seen with
    | some a => cases hFinish
    | none =>
      cases default? with
      | some a => cases hFinish
      | none =>
        cases hFinish
        exact LoadError.vague_missingField hName

theorem explainsItems_field {name : String} {offset : Nat} {d : Decoder α}
    (h : d.ExplainedAt slots (·.position? = some offset)) (default? : Option α) :
    (field name d default?).ExplainsItems slots offset 1 where
  rest source js a rest hPositional := by
    rw [← List.drop_drop]
    cases hDrop : js.drop offset with
    | cons j js' =>
      rw [hDrop] at hPositional
      obtain ⟨b, -, hPair⟩ := exists_of_bind_eq_ok hPositional
      cases hPair
      rfl
    | nil =>
      rw [hDrop] at hPositional
      cases default? with
      | some b =>
        cases hPositional
        rfl
      | none => cases hPositional
  fail source js e hPositional := by
    cases hDrop : js.drop offset with
    | cons j js' =>
      have hAt : js[offset]? = some j := by
        have hHead := congrArg List.head? hDrop
        rwa [List.head?_drop] at hHead
      rw [hDrop] at hPositional
      rcases error_cases_of_bind hPositional with hDecode | ⟨a, -, hPair⟩
      · exact h.item hDecode hAt
      · cases hPair
    | nil =>
      rw [hDrop] at hPositional
      cases default? with
      | some b => cases hPositional
      | none =>
        cases hPositional
        exact Json.explains_malformed

theorem ExplainsMembers.and {r : Record σ α} {s : Record τ β} (hr : r.ExplainsMembers slots)
    (hs : s.ExplainsMembers slots) : (r.and s).ExplainsMembers slots where
  meet source key j seen e hMeet ms hMem := by
    simp only [Record.and] at hMeet
    cases hLeft : r.meet source key j seen.1 with
    | some result =>
      simp only [hLeft] at hMeet
      rw [eq_error_of_map (Option.some.inj hMeet)] at hLeft
      exact hr.meet _ _ _ _ _ hLeft ms hMem
    | none =>
      simp only [hLeft] at hMeet
      obtain ⟨result, hRight, hResult⟩ := Option.map_eq_some_iff.mp hMeet
      rw [eq_error_of_map hResult] at hRight
      exact hs.meet _ _ _ _ _ hRight ms hMem
  finish seen e hFinish := by
    rcases error_cases_of_bind hFinish with hLeft | ⟨a, -, hRest⟩
    · exact hr.finish _ _ hLeft
    · rcases error_cases_of_bind hRest with hRight | ⟨b, -, hPair⟩
      · exact hs.finish _ _ hRight
      · cases hPair

theorem ExplainsItems.and {r : Record σ α} {s : Record τ β} {offset width width' : Nat}
    (hr : r.ExplainsItems slots offset width) (hs : s.ExplainsItems slots (offset + width) width') :
    (r.and s).ExplainsItems slots offset (width + width') where
  rest source js p rest hPositional := by
    obtain ⟨⟨a, middle⟩, hLeft, hRest⟩ := exists_of_bind_eq_ok hPositional
    obtain ⟨⟨b, last⟩, hRight, hPair⟩ := exists_of_bind_eq_ok hRest
    cases hPair
    rw [hr.rest _ _ _ _ hLeft] at hRight
    rw [hs.rest _ _ _ _ hRight, Nat.add_assoc]
  fail source js e hPositional := by
    rcases error_cases_of_bind hPositional with hLeft | ⟨⟨a, middle⟩, hLeft, hRest⟩
    · exact hr.fail _ _ _ hLeft
    · rcases error_cases_of_bind hRest with hRight | ⟨⟨b, last⟩, -, hPair⟩
      · rw [hr.rest _ _ _ _ hLeft] at hRight
        exact hs.fail _ _ _ hRight
      · cases hPair

theorem ExplainsMembers.map {r : Record σ α} (h : r.ExplainsMembers slots) (f : α → β) :
    (r.map f).ExplainsMembers slots where
  meet := h.meet
  finish seen e hFinish := h.finish seen e (eq_error_of_map hFinish)

theorem ExplainsItems.map {r : Record σ α} {offset width : Nat} (h : r.ExplainsItems slots offset width)
    (f : α → β) : (r.map f).ExplainsItems slots offset width where
  rest source js b rest hPositional := by
    obtain ⟨⟨a, last⟩, hFields, hPair⟩ := exists_of_map_eq_ok hPositional
    cases hPair
    exact h.rest _ _ _ _ hFields
  fail source js e hPositional := h.fail source js e (eq_error_of_map hPositional)

theorem ExplainsMembers.members {r : Record σ α} (h : r.ExplainsMembers slots) {source : Source}
    {ms all : List Member} (hAll : ms ⊆ all) {seen : σ} {e : LoadError} (he : r.members source ms seen = .error e) :
    (Json.object all).Explains slots e := by
  induction ms generalizing seen with
  | nil => exact .vague (h.finish seen e he)
  | cons m ms ih =>
    rw [List.cons_subset] at hAll
    obtain ⟨key, j⟩ := m
    cases key with
    | none =>
      cases he
      exact Json.explains_malformed
    | some key =>
      rw [Record.members] at he
      cases hMeet : r.meet source key j seen with
      | some result =>
        simp only [hMeet] at he
        rcases error_cases_of_bind he with rfl | ⟨next, -, hRest⟩
        · exact h.meet _ _ _ _ _ hMeet all hAll.1
        · exact ih hAll.2 hRest
      | none =>
        simp only [hMeet] at he
        rcases error_cases_of_bind he with hIgnore | ⟨_, -, hRest⟩
        · exact Json.explains_of_ignore hIgnore
        · exact ih hAll.2 hRest

theorem ExplainsMembers.object {r : Record σ α} (h : r.ExplainsMembers slots) : r.object.Explained slots := by
  intro source j e he
  cases hShape : j with
  | object ms =>
    rw [hShape, Record.object] at he
    split at he
    · exact h.members (List.Subset.refl ms) he
    · cases he
      exact Json.explains_malformed
  | _ =>
    rw [hShape] at he
    cases he
    exact Json.explains_wrongType _

theorem ExplainsMembers.decoder {r : Record σ α} {width : Nat} (h : r.ExplainsMembers slots)
    (hItems : r.ExplainsItems slots 0 width) : r.decoder.Explained slots := by
  intro source j e he
  cases hShape : j with
  | array js =>
    rw [hShape, Record.decoder] at he
    split at he
    · rcases error_cases_of_bind he with hPositional | ⟨⟨a, rest⟩, -, hRest⟩
      · exact hItems.fail _ js e hPositional
      · dsimp only at hRest
        split at hRest
        · cases hRest
        · cases hRest
          exact Json.explains_malformed
    · cases he
      exact Json.explains_malformed
  | _ =>
    rw [hShape] at he
    exact h.object source _ e he

/-- What is held back for the inside stands beside the fields in one object. -/
theorem ExplainsMembers.flattened {r : Record σ α} (h : r.ExplainsMembers slots)
    {inner : α → List Member → Except LoadError β}
    (hInner : ∀ a held e, inner a held = .error e → (Json.object held).Explains slots e) {source : Source}
    {ms held all : List Member} (hAll : ms ⊆ all) (hHeld : held ⊆ all) {seen : σ} {e : LoadError}
    (he : r.flattened inner source ms seen held = .error e) : (Json.object all).Explains slots e := by
  induction ms generalizing seen held with
  | nil =>
    rcases error_cases_of_bind he with hFinish | ⟨a, -, hRest⟩
    · exact .vague (h.finish seen e hFinish)
    · exact (hInner a _ e hRest).grow fun m hm => hHeld (List.mem_reverse.mp hm)
  | cons m ms ih =>
    rw [List.cons_subset] at hAll
    obtain ⟨key, j⟩ := m
    cases key with
    | none =>
      cases he
      exact Json.explains_malformed
    | some key =>
      rw [Record.flattened] at he
      cases hMeet : r.meet source key j seen with
      | some result =>
        simp only [hMeet] at he
        rcases error_cases_of_bind he with rfl | ⟨next, -, hRest⟩
        · exact h.meet _ _ _ _ _ hMeet all hAll.1
        · exact ih hAll.2 hHeld hRest
      | none =>
        simp only [hMeet] at he
        rcases error_cases_of_bind he with hHold | ⟨_, -, hRest⟩
        · exact Json.explains_of_hold hHold
        · exact ih hAll.2 (List.cons_subset.mpr ⟨hAll.1, hHeld⟩) hRest

theorem ExplainsMembers.around {r : Record σ α} (h : r.ExplainsMembers slots)
    {inner : α → List Member → Except LoadError β}
    (hInner : ∀ a held e, inner a held = .error e → (Json.object held).Explains slots e) :
    (r.around inner).Explained slots := by
  intro source j e he
  cases hShape : j with
  | object ms =>
    rw [hShape, Record.around] at he
    split at he
    · exact h.flattened hInner (List.Subset.refl ms) (List.nil_subset ms) he
    · cases he
      exact Json.explains_malformed
  | _ =>
    rw [hShape] at he
    cases he
    exact Json.explains_wrongType _

end Record

/-! ## Tagged values -/

namespace Variant

variable {slots : List Slot} {σ α : Type}

/-- Every failure of the variant at an object is explained by it. -/
def ExplainsObject (slots : List Slot) (v : Variant α) : Prop :=
  ∀ ms e, v.body (.object ms) = .error e → (Json.object ms).Explains slots e

/-- Every failure of the variant at the items behind its tag is explained by the array. -/
def ExplainsArray (slots : List Slot) (v : Variant α) : Prop :=
  ∀ tag items e, v.body (.array items) = .error e → (Json.array (tag :: items)).Explains slots e

theorem explainsObject_ofRecord {r : Record σ α} (h : r.ExplainsMembers slots) (tag : String) :
    (ofRecord tag r).ExplainsObject slots :=
  fun _ _ he => h.members (List.Subset.refl _) he

theorem explainsArray_ofRecord {r : Record σ α} {width : Nat} (h : r.ExplainsItems slots 1 width) (tag : String) :
    (ofRecord tag r).ExplainsArray slots := by
  intro j items e he
  rcases error_cases_of_bind he with hPositional | ⟨⟨a, rest⟩, -, hRest⟩
  · exact h.fail _ (j :: items) e hPositional
  · dsimp only at hRest
    split at hRest
    · cases hRest
    · cases hRest
      exact Json.explains_malformed

theorem explainsObject_ofValue (tag : String) (a : α) : (ofValue tag a).ExplainsObject slots := by
  rintro ms e ⟨⟩

theorem explainedAt_choose {variants : List (Variant α)} {slot : Slot} (hSlot : slot ∈ slots)
    (hWords : slot.words = variants.map tag) {here : Slot → Prop} (hHere : here slot) :
    Decoder.ExplainedAt slots here (choose variants) := by
  intro source j e he
  unfold choose at he
  split at he
  · split at he
    · cases he
    · rename_i word _ hFind
      cases he
      have hWord : word ∉ slot.words := by
        rw [hWords, List.mem_map]
        rintro ⟨v, hMem, rfl⟩
        simpa using List.find?_eq_none.mp hFind v hMem
      rw [← hWords]
      exact .inr ⟨slot, hSlot, hHere, .text word, hWord⟩
  · split at he
    · cases he
    · cases he
      exact .inl Json.explains_malformed
  · cases he
    exact .inl (Json.explains_wrongType _)

theorem explains_of_holdAll {source : Source} {j : Json} {js : List Json} {e : LoadError}
    (h : holdAll source js = .error e) : j.Explains slots e := by
  induction js with
  | nil => cases h
  | cons v js ih =>
    rcases error_cases_of_bind h with hFirst | ⟨_, -, hRest⟩
    · exact Json.explains_of_hold hFirst
    · exact ih hRest

theorem explains_members {variants : List (Variant α)} {slot : Slot} (hSlot : slot ∈ slots)
    (hKey : slot.key = tagField) (hWords : slot.words = variants.map tag)
    (hVariants : ∀ v ∈ variants, v.ExplainsObject slots) {source : Source} {ms held all : List Member}
    (hAll : ms ⊆ all) (hHeld : held ⊆ all) {chosen : Option (Variant α)}
    (hChosen : ∀ v ∈ chosen, v ∈ variants)
    {e : LoadError} (he : members variants source ms chosen held = .error e) : (Json.object all).Explains slots e := by
  induction ms generalizing chosen held with
  | nil =>
    cases chosen with
    | none =>
      cases he
      exact .vague (LoadError.vague_missingField (by decide))
    | some v => exact (hVariants v (hChosen v rfl) _ e he).grow fun m hm => hHeld (List.mem_reverse.mp hm)
  | cons m ms ih =>
    rw [List.cons_subset] at hAll
    obtain ⟨key, j⟩ := m
    cases key with
    | none =>
      cases he
      exact Json.explains_malformed
    | some key =>
      have hOther (hRest : (do
          source.hold j
          members variants source ms chosen (.mk (some key) j :: held)) = .error e) :
          (Json.object all).Explains slots e := by
        rcases error_cases_of_bind hRest with hHold | ⟨_, -, hRest⟩
        · exact Json.explains_of_hold hHold
        · exact ih hAll.2 (List.cons_subset.mpr ⟨hAll.1, hHeld⟩) hChosen hRest
      cases chosen with
      | some v =>
        rw [members] at he
        split at he
        · cases he
          exact .vague (LoadError.vague_duplicateField (by decide))
        · exact hOther he
      | none =>
        rw [members] at he
        split at he
        · rename_i hTag
          subst key
          rcases error_cases_of_bind he with hChoose | ⟨v, hv, hRest⟩
          · exact (explainedAt_choose hSlot hWords hKey).member hChoose hAll.1
          · refine ih hAll.2 hHeld (fun u hu => ?_) hRest
            cases hu
            exact mem_of_choose hv
        · exact hOther he

theorem explained_decoder {variants : List (Variant α)} {slot : Slot} (hSlot : slot ∈ slots)
    (hKey : slot.key = tagField) (hPosition : slot.position? = some 0) (hWords : slot.words = variants.map tag)
    (hObject : ∀ v ∈ variants, v.ExplainsObject slots) (hArray : ∀ v ∈ variants, v.ExplainsArray slots) :
    (decoder variants).Explained slots := by
  intro source j e he
  cases hShape : j with
  | object ms =>
    rw [hShape, decoder] at he
    split at he
    · refine explains_members hSlot hKey hWords hObject (List.Subset.refl ms) (List.nil_subset ms) (fun v hv => ?_) he
      cases hv
    · cases he
      exact Json.explains_malformed
  | array js =>
    cases hEnter : source.enter? with
    | none =>
      simp only [hShape, decoder, hEnter] at he
      cases he
      exact Json.explains_malformed
    | some inner =>
      cases js with
      | nil =>
        simp only [hShape, decoder, hEnter] at he
        cases he
        exact .vague (LoadError.vague_missingField (by decide))
      | cons j js =>
        simp only [hShape, decoder, hEnter] at he
        rcases error_cases_of_bind he with hChoose | ⟨v, hv, hRest⟩
        · exact (explainedAt_choose hSlot hWords hPosition).item hChoose rfl
        · rcases error_cases_of_bind hRest with hHold | ⟨_, -, hBody⟩
          · exact explains_of_holdAll hHold
          · exact hArray v (mem_of_choose hv) _ _ e hBody
  | _ =>
    rw [hShape] at he
    cases he
    exact Json.explains_wrongType _

end Variant
end TreeLowering
