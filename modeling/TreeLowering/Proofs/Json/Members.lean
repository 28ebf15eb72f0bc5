import TreeLowering.Proofs.Json.Record

/-! # What a record reads from members

The members of an object go to the fields that they name, and the others are skipped. So each field of a
record reads the members as if it were alone. -/
namespace TreeLowering
set_option autoImplicit false

namespace Member

/-- The values under a key, in the order they are written. -/
def valuesOf (key : String) (ms : List Member) : List Json := (ms.filter fun m => m.key = some key).map value

theorem valuesOf_cons_self (key : String) (j : Json) (ms : List Member) :
    valuesOf key (.mk (some key) j :: ms) = j :: valuesOf key ms := by
  simp [valuesOf, Member.key, Member.value]

theorem valuesOf_cons_of_ne {key other : String} (h : other ≠ key) (j : Json) (ms : List Member) :
    valuesOf key (.mk (some other) j :: ms) = valuesOf key ms := by
  simp [valuesOf, Member.key, h]

end Member

namespace Json

theorem holdable_of_mem_members {ms : List Member} {depth : Nat} (h : membersHoldable depth ms = true) :
    ∀ m ∈ ms, m.key.isSome = true ∧ m.value.holdable depth = true := by
  induction ms with
  | nil => simp
  | cons m ms ih =>
    obtain ⟨key, value⟩ := m
    rw [membersHoldable, Bool.and_eq_true, Bool.and_eq_true] at h
    exact List.forall_mem_cons.mpr ⟨h.1, ih h.2⟩

mutual
theorem wellFormed_of_holdable (j : Json) {depth : Nat} (h : j.holdable depth = true) : j.wellFormed = true := by
  match j with
  | .broken => cases h
  | .array js =>
    rw [holdable, Bool.and_eq_true] at h
    exact itemsWellFormed_of_holdable js h.2
  | .object ms =>
    rw [holdable, Bool.and_eq_true] at h
    exact membersWellFormed_of_holdable ms h.2
  | .null | .bool _ | .number _ | .string _ | .unpaired => rfl

theorem itemsWellFormed_of_holdable (js : List Json) {depth : Nat} (h : itemsHoldable depth js = true) :
    itemsWellFormed js = true := by
  match js with
  | [] => rfl
  | j :: js =>
    rw [itemsHoldable, Bool.and_eq_true] at h
    rw [itemsWellFormed, wellFormed_of_holdable j h.1, itemsWellFormed_of_holdable js h.2]
    rfl

theorem membersWellFormed_of_holdable (ms : List Member) {depth : Nat} (h : membersHoldable depth ms = true) :
    membersWellFormed ms = true := by
  match ms with
  | [] => rfl
  | .mk key value :: ms =>
    rw [membersHoldable, Bool.and_eq_true, Bool.and_eq_true] at h
    rw [membersWellFormed, wellFormed_of_holdable value h.1.2, membersWellFormed_of_holdable ms h.2]
    rfl
end

end Json

namespace Record

open Member

variable {σ τ α β : Type} {source : Source}

/-- The record takes the members that belong to its fields, skips the others and finishes with the value. -/
inductive Reads (r : Record σ α) (source : Source) : List Member → σ → α → Prop where
  | finish {seen : σ} {a : α} (hFinish : r.finish seen = .ok a) : Reads r source [] seen a
  | take {key : String} {j : Json} {ms : List Member} {seen next : σ} {a : α}
    (hMeet : r.meet source key j seen = some (.ok next)) (hRest : Reads r source ms next a) :
    Reads r source (.mk (some key) j :: ms) seen a
  | skip {key : String} {j : Json} {ms : List Member} {seen : σ} {a : α}
    (hMeet : r.meet source key j seen = none) (hRest : Reads r source ms seen a) :
    Reads r source (.mk (some key) j :: ms) seen a

theorem reads_of_members {r : Record σ α} {ms : List Member} {seen : σ} {a : α}
    (h : r.members source ms seen = .ok a) : r.Reads source ms seen a := by
  induction ms generalizing seen with
  | nil => exact .finish h
  | cons m ms ih =>
    obtain ⟨key, j⟩ := m
    cases key with
    | none => cases h
    | some key =>
      rw [members] at h
      cases hMeet : r.meet source key j seen with
      | some result =>
        simp only [hMeet] at h
        obtain ⟨next, rfl, hRest⟩ := exists_of_bind_eq_ok h
        exact .take hMeet (ih hRest)
      | none =>
        simp only [hMeet] at h
        obtain ⟨_, _, hRest⟩ := exists_of_bind_eq_ok h
        exact .skip hMeet (ih hRest)

theorem Reads.members {r : Record σ α} {ms : List Member} {seen : σ} {a : α} (h : r.Reads source ms seen a)
    (hValues : ∀ m ∈ ms, m.value.wellFormed = true) : r.members source ms seen = .ok a := by
  induction h with
  | finish hFinish => exact hFinish
  | take hMeet _ ih =>
    rw [Record.members, hMeet]
    exact ih (List.forall_mem_cons.mp hValues).2
  | @skip _ j _ _ _ hMeet _ ih =>
    obtain ⟨hFirst, hOthers⟩ := List.forall_mem_cons.mp hValues
    have hIgnore : Source.ignore j = .ok () := if_pos hFirst
    simp only [Record.members, hMeet, hIgnore]
    exact ih hOthers

theorem Reads.keys {r : Record σ α} {ms : List Member} {seen : σ} {a : α} (h : r.Reads source ms seen a) :
    ∀ m ∈ ms, m.key.isSome = true := by
  induction h with
  | finish => simp
  | take _ _ ih | skip _ _ ih => exact List.forall_mem_cons.mpr ⟨rfl, ih⟩

theorem object_memory_iff {r : Record σ α} {ms : List Member} {a : α}
    (hValues : ∀ m ∈ ms, m.value.wellFormed = true) :
    r.object .memory (.object ms) = .ok a ↔ r.Reads .memory ms r.start a :=
  ⟨reads_of_members, fun h => h.members hValues⟩

theorem not_reads_cons_none {r : Record σ α} {j : Json} {ms : List Member} {seen : σ} {a : α} :
    ¬r.Reads source (.mk none j :: ms) seen a := by
  rintro ⟨⟩

theorem reads_cons_of_unknown {r : Record σ α} {names : List String} (hr : r.Knows names) {key : String}
    (hKey : key ∉ names) {j : Json} {ms : List Member} {seen : σ} {a : α} :
    r.Reads source (.mk (some key) j :: ms) seen a ↔ r.Reads source ms seen a := by
  have hMeet := hr source key j seen hKey
  constructor
  · intro h
    cases h with
    | take hTake => cases hMeet.symm.trans hTake
    | skip _ hRest => exact hRest
  · exact .skip hMeet

/-! ## Fields, one by one -/

theorem reads_field_seen_iff {name : String} {d : Decoder α} {default? : Option α} {ms : List Member} {a b : α} :
    (field name d default?).Reads source ms (some b) a ↔
      (∀ m ∈ ms, m.key.isSome = true) ∧ valuesOf name ms = [] ∧ b = a := by
  induction ms with
  | nil =>
    constructor
    · rintro ⟨⟨⟩⟩
      exact ⟨by simp, rfl, rfl⟩
    · rintro ⟨_, _, rfl⟩
      exact .finish rfl
  | cons m ms ih =>
    obtain ⟨key, j⟩ := m
    cases key with
    | none => simp [Member.key, not_reads_cons_none]
    | some key =>
      by_cases hName : key = name
      · -- The field has its value already, and a second member of the name is a fault.
        subst hName
        rw [valuesOf_cons_self]
        constructor
        · intro h
          cases h with
          | take hTake => simp [field, throw, throwThe, MonadExceptOf.throw] at hTake
          | skip hSkip => simp [field] at hSkip
        · rintro ⟨_, ⟨⟩, _⟩
      · rw [reads_cons_of_unknown (knows_field name d default?) (by simpa using hName), ih, valuesOf_cons_of_ne hName]
        simp [Member.key]

theorem finish_field_none_iff {name : String} {d : Decoder α} {default? : Option α} {a : α} :
    (field name d default?).finish none = .ok a ↔ default? = some a := by
  cases default? with
  | none => simp [field, throw, throwThe, MonadExceptOf.throw]
  | some b => simp [field, pure, Except.pure]

theorem meet_field_none_iff {name : String} {d : Decoder α} {default? : Option α} {j : Json} {next : Option α} :
    (field name d default?).meet source name j none = some (.ok next) ↔
      ∃ a, d source j = .ok a ∧ some a = next := by
  simp only [field, if_true, Option.some.injEq]
  constructor
  · exact exists_of_map_eq_ok
  · rintro ⟨a, hDecode, rfl⟩
    rw [hDecode]
    rfl

/-- A field reads its value from the one member that it names, or takes its default where there is none. -/
theorem reads_field_iff {name : String} {d : Decoder α} {default? : Option α} {ms : List Member} {a : α} :
    (field name d default?).Reads source ms none a ↔ (∀ m ∈ ms, m.key.isSome = true) ∧
      ((∃ j, valuesOf name ms = [j] ∧ d source j = .ok a) ∨ valuesOf name ms = [] ∧ default? = some a) := by
  induction ms with
  | nil =>
    constructor
    · rintro ⟨h⟩
      exact ⟨by simp, .inr ⟨rfl, finish_field_none_iff.mp h⟩⟩
    · rintro ⟨_, ⟨j, ⟨⟩, _⟩ | ⟨_, hDefault⟩⟩
      exact .finish (finish_field_none_iff.mpr hDefault)
  | cons m ms ih =>
    obtain ⟨key, j⟩ := m
    cases key with
    | none => simp [Member.key, not_reads_cons_none]
    | some key =>
      by_cases hName : key = name
      · subst hName
        rw [valuesOf_cons_self]
        constructor
        · intro h
          refine ⟨h.keys, .inl ⟨j, ?_⟩⟩
          cases h with
          | take hTake hRest =>
            obtain ⟨b, hDecode, rfl⟩ := meet_field_none_iff.mp hTake
            obtain ⟨_, hNone, rfl⟩ := reads_field_seen_iff.mp hRest
            exact ⟨by rw [hNone], hDecode⟩
          | skip hSkip => simp [field] at hSkip
        · rintro ⟨hKeys, ⟨i, hOne, hDecode⟩ | ⟨⟨⟩, _⟩⟩
          obtain ⟨rfl, hNone⟩ := List.cons.inj hOne
          exact .take (meet_field_none_iff.mpr ⟨a, hDecode, rfl⟩)
            (reads_field_seen_iff.mpr ⟨(List.forall_mem_cons.mp hKeys).2, hNone, rfl⟩)
      · rw [reads_cons_of_unknown (knows_field name d default?) (by simpa using hName), ih, valuesOf_cons_of_ne hName]
        simp [Member.key]

/-! ## Records of several fields -/

/-- A record that leaves a member to one of its parts reads on as that part does. -/
theorem reads_cons_of_part {r : Record σ α} {q : Record τ β} {f : σ → τ} {key : String} {j : Json}
    {ms : List Member} {seen : σ} {a : α} {b : β} {P : Prop}
    (hMeet : q.meet source key j (f seen) = (r.meet source key j seen).map fun result => result.map f)
    (hRest : ∀ next, q.Reads source ms (f next) b ↔ r.Reads source ms next a ∧ P) :
    q.Reads source (.mk (some key) j :: ms) (f seen) b ↔ r.Reads source (.mk (some key) j :: ms) seen a ∧ P := by
  constructor
  · intro h
    cases h with
    | take hTake hOthers =>
      rw [hMeet] at hTake
      obtain ⟨result, hPart, hResult⟩ := Option.map_eq_some_iff.mp hTake
      obtain ⟨next, rfl, rfl⟩ := exists_of_map_eq_ok hResult
      obtain ⟨hOthers, hP⟩ := (hRest next).mp hOthers
      exact ⟨.take hPart hOthers, hP⟩
    | skip hSkip hOthers =>
      rw [hMeet, Option.map_eq_none_iff] at hSkip
      obtain ⟨hOthers, hP⟩ := (hRest seen).mp hOthers
      exact ⟨.skip hSkip hOthers, hP⟩
  · rintro ⟨h, hP⟩
    cases h with
    | take hTake hOthers => exact .take (by rw [hMeet, hTake]; rfl) ((hRest _).mpr ⟨hOthers, hP⟩)
    | skip hSkip hOthers => exact .skip (by rw [hMeet, hSkip]; rfl) ((hRest _).mpr ⟨hOthers, hP⟩)

theorem reads_and_iff {r : Record σ α} {s : Record τ β} {names names' : List String} (hr : r.Knows names)
    (hs : s.Knows names') (hNames : ∀ key ∈ names', key ∉ names) {ms : List Member} {x : σ} {y : τ}
    {p : α × β} :
    (r.and s).Reads source ms (x, y) p ↔ r.Reads source ms x p.1 ∧ s.Reads source ms y p.2 := by
  induction ms generalizing x y with
  | nil =>
    constructor
    · rintro ⟨h⟩
      obtain ⟨a, hLeft, hRest⟩ := exists_of_bind_eq_ok h
      obtain ⟨b, hRight, hPair⟩ := exists_of_bind_eq_ok hRest
      cases hPair
      exact ⟨.finish hLeft, .finish hRight⟩
    · rintro ⟨⟨hLeft⟩, ⟨hRight⟩⟩
      refine .finish ?_
      simp only [Record.and, hLeft, hRight]
      rfl
  | cons m ms ih =>
    obtain ⟨key, j⟩ := m
    cases key with
    | none => simp [not_reads_cons_none]
    | some key =>
      -- The member belongs to the fields of one record, and the other one skips it.
      by_cases hKey : key ∈ names
      · have hOther : key ∉ names' := fun hMem => hNames key hMem hKey
        rw [reads_cons_of_unknown hs hOther]
        refine reads_cons_of_part (f := fun left => (left, y)) ?_ fun _ => ih
        simp only [Record.and, hs source key j y hOther]
        cases r.meet source key j x <;> rfl
      · rw [reads_cons_of_unknown hr hKey, and_comm]
        refine reads_cons_of_part (f := fun right => (x, right)) ?_ fun _ => ih.trans and_comm
        simp only [Record.and, hr source key j x hKey]

theorem reads_map_iff {r : Record σ α} {f : α → β} {ms : List Member} {seen : σ} {b : β} :
    (r.map f).Reads source ms seen b ↔ ∃ a, r.Reads source ms seen a ∧ f a = b := by
  constructor
  · intro h
    induction h with
    | finish hFinish =>
      obtain ⟨a, ha, hf⟩ := exists_of_map_eq_ok hFinish
      exact ⟨a, .finish ha, hf⟩
    | take hMeet _ ih =>
      obtain ⟨a, ha, hf⟩ := ih
      exact ⟨a, .take hMeet ha, hf⟩
    | skip hMeet _ ih =>
      obtain ⟨a, ha, hf⟩ := ih
      exact ⟨a, .skip hMeet ha, hf⟩
  · rintro ⟨a, h, rfl⟩
    induction h with
    | finish hFinish => exact .finish (by simp only [Record.map, hFinish]; rfl)
    | take hMeet _ ih => exact .take hMeet ih
    | skip hMeet _ ih => exact .skip hMeet ih

/-- Two fields that must be there, from members that can be held. -/
theorem object_pair_iff {γ : Type} {name name' : String} (hNames : name' ≠ name) {d : Decoder α} {e : Decoder β}
    {f : α × β → γ} {ms : List Member} {depth : Nat} (hms : Json.membersHoldable depth ms = true) {c : γ} :
    (((required name d).and (required name' e)).map f).object .memory (.object ms) = .ok c ↔
      ∃ i j a b, valuesOf name ms = [i] ∧ d .memory i = .ok a ∧ valuesOf name' ms = [j] ∧
        e .memory j = .ok b ∧
        f (a, b) = c := by
  have hMembers := Json.holdable_of_mem_members hms
  have hKeys : ∀ m ∈ ms, m.key.isSome = true := fun m hm => (hMembers m hm).1
  have hField {δ : Type} (key : String) (d' : Decoder δ) (a : δ) :
      (required key d').Reads .memory ms none a ↔ ∃ j, valuesOf key ms = [j] ∧ d' .memory j = .ok a := by
    rw [required, reads_field_iff, and_iff_right hKeys]
    simp
  have hDisjoint : ∀ key ∈ [name'], key ∉ [name] := by simpa using hNames
  rw [object_memory_iff fun m hm => m.value.wellFormed_of_holdable (hMembers m hm).2, reads_map_iff]
  constructor
  · rintro ⟨⟨a, b⟩, hBoth, rfl⟩
    obtain ⟨hFirst, hSecond⟩ := (reads_and_iff (knows_field _ _ _) (knows_field _ _ _) hDisjoint).mp hBoth
    obtain ⟨i, hi, hDecode⟩ := (hField name d a).mp hFirst
    obtain ⟨j, hj, hDecode'⟩ := (hField name' e b).mp hSecond
    exact ⟨i, j, a, b, hi, hDecode, hj, hDecode', rfl⟩
  · rintro ⟨i, j, a, b, hi, hDecode, hj, hDecode', hResult⟩
    refine ⟨(a, b), (reads_and_iff (knows_field _ _ _) (knows_field _ _ _) hDisjoint).mpr ⟨?_, ?_⟩, hResult⟩
    · exact (hField name d a).mpr ⟨i, hi, hDecode⟩
    · exact (hField name' e b).mpr ⟨j, hj, hDecode'⟩

/-- Members that belong to no field make no difference. -/
theorem Reads.without {r : Record σ α} {names : List String} (hr : r.Knows names) {key : String}
    (hKey : key ∉ names) {ms : List Member} {seen : σ} {a : α} (h : r.Reads source ms seen a) :
    r.Reads source (ms.filter fun m => m.key ≠ some key) seen a := by
  induction h with
  | finish hFinish => exact .finish hFinish
  | @take other j _ seen _ _ hMeet _ ih =>
    have hNe : other ≠ key := by
      rintro rfl
      cases (hr source other j seen hKey).symm.trans hMeet
    rw [List.filter_cons_of_pos (by simpa [Member.key] using hNe)]
    exact .take hMeet ih
  | @skip other j _ _ _ hMeet _ ih =>
    by_cases hNe : other = key
    · rw [List.filter_cons_of_neg (by simp [Member.key, hNe])]
      exact ih
    · rw [List.filter_cons_of_pos (by simpa [Member.key] using hNe)]
      exact .skip hMeet ih

/-! ## Fields by name or by position -/

/-- What the record gives for a field was decoded from the member of that name, or from the item at that
position. -/
structure Gives (r : Record σ α) (name : String) (position : Nat) (d : Decoder β) (get : α → β) : Prop where
  member : ∀ {source ms a}, r.Reads source ms r.start a → ∀ j ∈ valuesOf name ms, d source j = .ok (get a)
  item : ∀ {source js a rest}, r.positional source js = .ok (a, rest) →
    ∀ j ∈ js[position]?, d source j = .ok (get a)

theorem gives_field (name : String) (d : Decoder α) (default? : Option α) :
    (field name d default?).Gives name 0 d id where
  member {source ms a} h j hj := by
    obtain ⟨_, ⟨i, hOne, hDecode⟩ | ⟨hNone, _⟩⟩ := reads_field_iff.mp h
    · rw [hOne, List.mem_singleton] at hj
      exact hj ▸ hDecode
    · rw [hNone] at hj
      cases hj
  item {source js a rest} h j hj := by
    cases js with
    | nil => cases hj
    | cons i js =>
      cases hj
      obtain ⟨b, hDecode, hPair⟩ := exists_of_bind_eq_ok h
      cases hPair
      exact hDecode

theorem Gives.left {γ : Type} {r : Record σ α} {s : Record τ β} {name : String} {position : Nat} {d : Decoder γ}
    {get : α → γ} (h : r.Gives name position d get) {names names' : List String} (hr : r.Knows names)
    (hs : s.Knows names') (hNames : ∀ key ∈ names', key ∉ names) :
    (r.and s).Gives name position d fun p => get p.1 where
  member hReads := h.member ((reads_and_iff hr hs hNames).mp hReads).1
  item hItems := by
    obtain ⟨⟨a, middle⟩, hLeft, hRest⟩ := exists_of_bind_eq_ok hItems
    obtain ⟨⟨b, last⟩, _, hPair⟩ := exists_of_bind_eq_ok hRest
    cases hPair
    exact h.item hLeft

/-- Behind one more field, every field stands one position further. -/
theorem Gives.behind {γ : Type} {s : Record τ β} {name : String} {position : Nat} {d : Decoder γ} {get : β → γ}
    (h : s.Gives name position d get) {other : String} (e : Decoder α) (default? : Option α) {names : List String}
    (hs : s.Knows names) (hOther : other ∉ names) :
    ((field other e default?).and s).Gives name (position + 1) d fun p => get p.2 where
  member hReads := by
    have hNames : ∀ key ∈ names, key ∉ [other] := fun key hKey hEq => hOther (List.mem_singleton.mp hEq ▸ hKey)
    exact h.member ((reads_and_iff (knows_field other e default?) hs hNames).mp hReads).2
  item {source js p rest} hItems j hj := by
    obtain ⟨⟨a, middle⟩, hFirst, hRest⟩ := exists_of_bind_eq_ok hItems
    obtain ⟨⟨b, last⟩, hOthers, hPair⟩ := exists_of_bind_eq_ok hRest
    cases hPair
    cases js with
    | nil => cases hj
    | cons i js =>
      obtain ⟨c, _, hMiddle⟩ := exists_of_bind_eq_ok hFirst
      cases hMiddle
      exact h.item hOthers j hj

theorem Gives.map {γ : Type} {r : Record σ α} {name : String} {position : Nat} {d : Decoder γ} {get : α → γ}
    (h : r.Gives name position d get) {f : α → β} {get' : β → γ} (hGet : ∀ a, get' (f a) = get a) :
    (r.map f).Gives name position d get' where
  member hReads j hj := by
    obtain ⟨a, hRead, rfl⟩ := reads_map_iff.mp hReads
    rw [hGet]
    exact h.member hRead j hj
  item hItems j hj := by
    obtain ⟨⟨a, rest⟩, hRead, hPair⟩ := exists_of_map_eq_ok hItems
    cases hPair
    rw [hGet]
    exact h.item hRead j hj

end Record

/-- The value stands for a field: under its name in an object, or at its position in an array of the fields. -/
inductive Json.Field (name : String) (position : Nat) : Json → Json → Prop where
  | member {ms : List Member} {j : Json} (h : j ∈ Member.valuesOf name ms) : Field name position (.object ms) j
  | item {js : List Json} {j : Json} (h : j ∈ js[position]?) : Field name position (.array js) j

theorem Source.eq_text_of_enter? {depth : Nat} {inner : Source} (h : (text depth).enter? = some inner) :
    inner = text (depth + 1) := by
  rw [enter?] at h
  split at h
  · cases h
    rfl
  · cases h

theorem Record.Gives.decoder {σ α β : Type} {r : Record σ α} {name : String} {position : Nat} {d : Decoder β}
    {get : α → β} (h : r.Gives name position d get) {depth : Nat} {j v : Json} {a : α}
    (ha : r.decoder (.text depth) j = .ok a) (hField : j.Field name position v) :
    d (.text (depth + 1)) v = .ok (get a) := by
  cases hField with
  | member hMember =>
    rw [Record.decoder, Record.object] at ha
    · split at ha
      · rename_i inner hEnter
        cases Source.eq_text_of_enter? hEnter
        exact h.member (reads_of_members ha) v hMember
      · cases ha
    · rintro _ ⟨⟩
  | item hItem =>
    rw [Record.decoder] at ha
    split at ha
    · rename_i inner hEnter
      cases Source.eq_text_of_enter? hEnter
      obtain ⟨⟨b, rest⟩, hItems, hRest⟩ := exists_of_bind_eq_ok ha
      dsimp only at hRest
      split at hRest
      · cases hRest
        exact h.item hItems v hItem
      · cases hRest
    · cases ha

theorem Decoder.items_getElem? {α : Type} {d : Decoder α} {source : Source} {js : List Json} {as : List α}
    (h : items d source js = .ok as) {i : Nat} {j : Json} (hj : js[i]? = some j) :
    ∃ a, as[i]? = some a ∧ d source j = .ok a := by
  induction js generalizing as i with
  | nil => cases hj
  | cons k js ih =>
    obtain ⟨b, hDecode, hRest⟩ := exists_of_bind_eq_ok h
    obtain ⟨bs, hOthers, hCons⟩ := exists_of_bind_eq_ok hRest
    cases hCons
    cases i with
    | zero =>
      cases hj
      exact ⟨b, rfl, hDecode⟩
    | succ i => exact ih hOthers hj

theorem Decoder.list_getElem? {α : Type} {d : Decoder α} {depth : Nat} {js : List Json} {as : List α}
    (h : d.list (.text depth) (.array js) = .ok as) {i : Nat} {j : Json} (hj : js[i]? = some j) :
    ∃ a, as[i]? = some a ∧ d (.text (depth + 1)) j = .ok a := by
  rw [Decoder.list] at h
  split at h
  · rename_i inner hEnter
    cases Source.eq_text_of_enter? hEnter
    exact items_getElem? h hj
  · cases h

end TreeLowering
