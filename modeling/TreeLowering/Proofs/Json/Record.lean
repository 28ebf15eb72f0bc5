import TreeLowering.Json.Record
import TreeLowering.Proofs.Json.Decoder

/-! # Records that take back what is written

A record meets the written members one after the other. Members that belong to none of its fields are
left to another record or to what is inside. -/
namespace TreeLowering
set_option autoImplicit false

namespace Record

variable {σ τ α β : Type}

/-- What the record gives has the property: there is an invariant of what has been met so far. -/
def Yields (r : Record σ α) (P : α → Prop) : Prop :=
  ∃ Seen : σ → Prop, Seen r.start ∧
    (∀ source key j seen next, Seen seen → r.meet source key j seen = some (.ok next) → Seen next) ∧
    (∀ seen a, Seen seen → r.finish seen = .ok a → P a) ∧
    ∀ source js a rest, r.positional source js = .ok (a, rest) → P a

theorem Yields.mono {r : Record σ α} {P Q : α → Prop} (h : r.Yields P) (hPQ : ∀ a, P a → Q a) :
    r.Yields Q := by
  obtain ⟨Seen, hStart, hMeet, hFinish, hPositional⟩ := h
  exact ⟨Seen, hStart, hMeet, fun seen a hSeen ha => hPQ a (hFinish seen a hSeen ha),
    fun source js a rest ha => hPQ a (hPositional source js a rest ha)⟩

theorem yields_field {d : Decoder α} {P : α → Prop} (h : d.Yields P) (name : String) {default? : Option α}
    (hDefault : ∀ a ∈ default?, P a) : (field name d default?).Yields P := by
  refine ⟨fun seen => ∀ a ∈ seen, P a, ?start, ?meet, ?finish, ?positional⟩
  case start =>
    rintro a ⟨⟩
  case meet =>
    intro source key j seen next hSeen hMeet
    simp only [field] at hMeet
    split at hMeet
    · cases seen with
      | some b => cases hMeet
      | none =>
        obtain ⟨b, hDecode, rfl⟩ := exists_of_map_eq_ok (Option.some.inj hMeet)
        rintro _ ⟨⟩
        exact h source j b hDecode
    · cases hMeet
  case finish =>
    intro seen a hSeen hFinish
    cases seen with
    | some b =>
      cases hFinish
      exact hSeen a rfl
    | none =>
      cases default? with
      | some b =>
        cases hFinish
        exact hDefault a rfl
      | none => cases hFinish
  case positional =>
    intro source js a rest hPositional
    cases js with
    | cons j js =>
      obtain ⟨b, hDecode, hPair⟩ := exists_of_bind_eq_ok hPositional
      cases hPair
      exact h source j a hDecode
    | nil =>
      cases default? with
      | some b =>
        cases hPositional
        exact hDefault a rfl
      | none => cases hPositional

/-- A member goes to the one record or to the other. -/
theorem meet_and_cases {r : Record σ α} {s : Record τ β} {source : Source} {key : String} {j : Json}
    {seen next : σ × τ} (h : (r.and s).meet source key j seen = some (.ok next)) :
    (∃ left, r.meet source key j seen.1 = some (.ok left) ∧ next = (left, seen.2)) ∨
      ∃ right, s.meet source key j seen.2 = some (.ok right) ∧ next = (seen.1, right) := by
  simp only [Record.and] at h
  cases hLeft : r.meet source key j seen.1 with
  | some result =>
    simp only [hLeft] at h
    obtain ⟨left, rfl, rfl⟩ := exists_of_map_eq_ok (Option.some.inj h)
    exact .inl ⟨left, rfl, rfl⟩
  | none =>
    simp only [hLeft] at h
    obtain ⟨result, hRight, hResult⟩ := Option.map_eq_some_iff.mp h
    obtain ⟨right, rfl, rfl⟩ := exists_of_map_eq_ok hResult
    exact .inr ⟨right, hRight, rfl⟩

theorem Yields.and {r : Record σ α} {s : Record τ β} {P : α → Prop} {Q : β → Prop} (hr : r.Yields P)
    (hs : s.Yields Q) : (r.and s).Yields fun p => P p.1 ∧ Q p.2 := by
  obtain ⟨Left, hLeftStart, hLeftMeet, hLeftFinish, hLeftPositional⟩ := hr
  obtain ⟨Right, hRightStart, hRightMeet, hRightFinish, hRightPositional⟩ := hs
  refine ⟨fun seen => Left seen.1 ∧ Right seen.2, ⟨hLeftStart, hRightStart⟩, ?meet, ?finish, ?positional⟩
  case meet =>
    intro source key j seen next hSeen hMeet
    obtain ⟨left, hLeft, rfl⟩ | ⟨right, hRight, rfl⟩ := meet_and_cases hMeet
    · exact ⟨hLeftMeet _ _ _ _ _ hSeen.1 hLeft, hSeen.2⟩
    · exact ⟨hSeen.1, hRightMeet _ _ _ _ _ hSeen.2 hRight⟩
  case finish =>
    intro seen p hSeen hFinish
    obtain ⟨a, hLeft, hRest⟩ := exists_of_bind_eq_ok hFinish
    obtain ⟨b, hRight, hPair⟩ := exists_of_bind_eq_ok hRest
    cases hPair
    exact ⟨hLeftFinish _ _ hSeen.1 hLeft, hRightFinish _ _ hSeen.2 hRight⟩
  case positional =>
    intro source js p rest hPositional
    obtain ⟨⟨a, middle⟩, hLeft, hRest⟩ := exists_of_bind_eq_ok hPositional
    obtain ⟨⟨b, last⟩, hRight, hPair⟩ := exists_of_bind_eq_ok hRest
    cases hPair
    exact ⟨hLeftPositional _ _ _ _ hLeft, hRightPositional _ _ _ _ hRight⟩

theorem Yields.map {r : Record σ α} {P : α → Prop} {Q : β → Prop} {f : α → β} (h : r.Yields P)
    (hf : ∀ a, P a → Q (f a)) : (r.map f).Yields Q := by
  obtain ⟨Seen, hStart, hMeet, hFinish, hPositional⟩ := h
  refine ⟨Seen, hStart, hMeet, ?_, ?_⟩
  · intro seen b hSeen hb
    obtain ⟨a, ha, rfl⟩ := exists_of_map_eq_ok hb
    exact hf a (hFinish seen a hSeen ha)
  · intro source js b rest hb
    obtain ⟨⟨a, after⟩, ha, hPair⟩ := exists_of_map_eq_ok hb
    cases hPair
    exact hf a (hPositional source js a _ ha)

/-- What every member that is met preserves still holds at the end. -/
theorem exists_finish_of_members {r : Record σ α} {Seen : σ → Prop} {Key : String → Prop}
    (hMeet : ∀ source key j seen next, Key key → Seen seen →
      r.meet source key j seen = some (.ok next) → Seen next)
    {source : Source} {ms : List Member} (hKeys : ∀ m ∈ ms, ∀ key ∈ m.key, Key key) {seen : σ}
    (hSeen : Seen seen)
    {a : α} (ha : r.members source ms seen = .ok a) : ∃ last, Seen last ∧ r.finish last = .ok a := by
  induction ms generalizing seen with
  | nil => exact ⟨seen, hSeen, ha⟩
  | cons m ms ih =>
    rw [List.forall_mem_cons] at hKeys
    obtain ⟨key, j⟩ := m
    cases key with
    | none => cases ha
    | some key =>
      rw [members] at ha
      cases hFound : r.meet source key j seen with
      | some result =>
        simp only [hFound] at ha
        obtain ⟨next, rfl, hRest⟩ := exists_of_bind_eq_ok ha
        exact ih hKeys.2 (hMeet _ _ _ _ _ (hKeys.1 key rfl) hSeen hFound) hRest
      | none =>
        simp only [hFound] at ha
        obtain ⟨_, _, hRest⟩ := exists_of_bind_eq_ok ha
        exact ih hKeys.2 hSeen hRest

theorem members_yields {r : Record σ α} {P : α → Prop} (h : r.Yields P) {source : Source} {ms : List Member}
    {a : α} (ha : r.members source ms r.start = .ok a) : P a := by
  obtain ⟨Seen, hStart, hMeet, hFinish, _⟩ := h
  have hKeys : ∀ m ∈ ms, ∀ key ∈ m.key, (fun _ => True) key := fun _ _ _ _ => trivial
  obtain ⟨last, hLast, ha⟩ :=
    exists_finish_of_members (fun source key j seen next _ => hMeet source key j seen next) hKeys hStart ha
  exact hFinish last a hLast ha

theorem flattened_yields {r : Record σ α} {inner : α → List Member → Except LoadError β} {P : α → Prop}
    {Q : β → Prop} (h : r.Yields P) (hInner : ∀ a held b, P a → inner a held = .ok b → Q b) {source : Source}
    {ms held : List Member} {b : β} (hb : r.flattened inner source ms r.start held = .ok b) : Q b := by
  obtain ⟨Seen, hStart, hMeet, hFinish, _⟩ := h
  generalize r.start = seen at hStart hb
  induction ms generalizing seen held with
  | nil =>
    obtain ⟨a, ha, hRest⟩ := exists_of_bind_eq_ok hb
    exact hInner a _ b (hFinish seen a hStart ha) hRest
  | cons m ms ih =>
    obtain ⟨key, j⟩ := m
    cases key with
    | none => cases hb
    | some key =>
      rw [flattened] at hb
      cases hKey : r.meet source key j seen with
      | some result =>
        simp only [hKey] at hb
        obtain ⟨next, rfl, hRest⟩ := exists_of_bind_eq_ok hb
        exact ih next (hMeet _ _ _ _ _ hStart hKey) hRest
      | none =>
        simp only [hKey] at hb
        obtain ⟨_, _, hRest⟩ := exists_of_bind_eq_ok hb
        exact ih seen hStart hRest

theorem Yields.object {r : Record σ α} {P : α → Prop} (h : r.Yields P) : r.object.Yields P := by
  intro source j a ha
  cases j with
  | object ms =>
    rw [Record.object] at ha
    split at ha
    · exact members_yields h ha
    · cases ha
  | _ => cases ha

theorem Yields.decoder {r : Record σ α} {P : α → Prop} (h : r.Yields P) : r.decoder.Yields P := by
  intro source j a ha
  cases hShape : j with
  | array js =>
    rw [hShape, Record.decoder] at ha
    split at ha
    · obtain ⟨⟨b, rest⟩, hb, hRest⟩ := exists_of_bind_eq_ok ha
      dsimp only at hRest
      split at hRest
      · cases hRest
        obtain ⟨_, _, _, _, hPositional⟩ := h
        exact hPositional _ _ _ _ hb
      · cases hRest
    · cases ha
  | _ =>
    refine h.object source j a ?_
    rw [hShape] at ha ⊢
    exact ha

theorem Yields.around {r : Record σ α} {inner : α → List Member → Except LoadError β} {P : α → Prop}
    {Q : β → Prop}
    (h : r.Yields P) (hInner : ∀ a held b, P a → inner a held = .ok b → Q b) : (r.around inner).Yields Q := by
  intro source j b hb
  cases j with
  | object ms =>
    rw [Record.around] at hb
    split at hb
    · exact flattened_yields h hInner hb
    · cases hb
  | _ => cases hb

/-- The record has no fields but those of these names. -/
def Knows (r : Record σ α) (names : List String) : Prop :=
  ∀ source key j seen, key ∉ names → r.meet source key j seen = none

/-- The record takes all the members, one after the other. -/
inductive Meets (r : Record σ α) (source : Source) : List Member → σ → σ → Prop where
  | nil (seen : σ) : Meets r source [] seen seen
  | cons {key : String} {j : Json} {ms : List Member} {seen next last : σ}
    (hMeet : r.meet source key j seen = some (.ok next)) (hRest : Meets r source ms next last) :
    Meets r source (.mk (some key) j :: ms) seen last

/-- The record takes the members, whose keys are among `names`, and finishes with the value. -/
structure Absorbs (r : Record σ α) (names : List String) (ms : List Member) (a : α) : Prop where
  knows : r.Knows names
  keys : ∀ m ∈ ms, ∃ key ∈ names, m.key = some key
  writable : ∀ m ∈ ms, m.value.Writable
  takes : ∀ source, (∀ m ∈ ms, Source.Admits source m.value) →
    ∃ seen, r.Meets source ms r.start seen ∧ r.finish seen = .ok a

theorem Meets.append {r : Record σ α} {source : Source} {ms ns : List Member} {seen middle last : σ}
    (h : r.Meets source ms seen middle) (h' : r.Meets source ns middle last) :
    r.Meets source (ms ++ ns) seen last := by
  induction h with
  | nil => exact h'
  | cons hMeet _ ih => exact .cons hMeet (ih h')

theorem Meets.left {r : Record σ α} {source : Source} {ms : List Member} {seen last : σ}
    (h : r.Meets source ms seen last) (s : Record τ β) (other : τ) :
    (r.and s).Meets source ms (seen, other) (last, other) := by
  induction h with
  | nil => exact .nil _
  | cons hMeet _ ih =>
    refine .cons ?_ ih
    simp only [Record.and, hMeet]
    rfl

theorem Meets.right {s : Record τ β} {source : Source} {ms : List Member} {seen last : τ}
    (h : s.Meets source ms seen last) {r : Record σ α} {names : List String} (hKnows : r.Knows names)
    (hOther : ∀ m ∈ ms, ∀ key, m.key = some key → key ∉ names) (other : σ) :
    (r.and s).Meets source ms (other, seen) (other, last) := by
  induction h with
  | nil => exact .nil _
  | @cons key j ms seen next last hMeet _ ih =>
    rw [List.forall_mem_cons] at hOther
    refine .cons ?_ (ih hOther.2)
    simp only [Record.and, hKnows source key j other (hOther.1 key rfl), hMeet]
    rfl

theorem Meets.map {r : Record σ α} {source : Source} {ms : List Member} {seen last : σ}
    (h : r.Meets source ms seen last) (f : α → β) : (r.map f).Meets source ms seen last := by
  induction h with
  | nil => exact .nil _
  | cons hMeet _ ih => exact .cons hMeet ih

theorem members_of_meets {r : Record σ α} {source : Source} {ms : List Member} {seen last : σ}
    (h : r.Meets source ms seen last) : r.members source ms seen = r.finish last := by
  induction h with
  | nil => rfl
  | cons hMeet _ ih =>
    rw [members, hMeet]
    exact ih

theorem Absorbs.members {r : Record σ α} {names : List String} {ms : List Member} {a : α} (h : r.Absorbs names ms a)
    {source : Source} (hAdmits : ∀ m ∈ ms, source.Admits m.value) : r.members source ms r.start = .ok a := by
  obtain ⟨seen, hMeets, hFinish⟩ := h.takes source hAdmits
  rw [members_of_meets hMeets, hFinish]

theorem knows_field (name : String) (d : Decoder α) (default? : Option α) : (field name d default?).Knows [name] := by
  intro source key j seen hKey
  exact if_neg (by simpa using hKey)

theorem Knows.and {r : Record σ α} {s : Record τ β} {names names' : List String} (hr : r.Knows names)
    (hs : s.Knows names') : (r.and s).Knows (names ++ names') := by
  intro source key j seen hKey
  rw [List.mem_append, not_or] at hKey
  simp only [Record.and, hr source key j seen.1 hKey.1, hs source key j seen.2 hKey.2]
  rfl

theorem absorbs_field {d : Decoder α} {j : Json} {a : α} (h : d.Restores j a) (name : String) (default? : Option α) :
    (field name d default?).Absorbs [name] [.entry name j] a := by
  refine ⟨knows_field name d default?, ?_, ?_, ?_⟩
  · simp [Member.entry, Member.key]
  · simpa [Member.entry, Member.value] using h.writable
  · intro source hAdmits
    refine ⟨some a, .cons ?_ (.nil _), rfl⟩
    have hDecode := h.decodes source (hAdmits _ (List.mem_singleton.mpr rfl))
    simp only [field, if_true, hDecode]
    rfl

theorem absorbs_omitted (d : Decoder α) (name : String) (a : α) :
    (field name d (some a)).Absorbs [name] [] a := by
  refine ⟨knows_field name d _, ?_, ?_, fun _ _ => ⟨none, .nil _, rfl⟩⟩
  · rintro m ⟨⟩
  · rintro m ⟨⟩

theorem Absorbs.and {r : Record σ α} {s : Record τ β} {names names' : List String} {ms ms' : List Member} {a : α}
    {b : β} (hr : r.Absorbs names ms a) (hs : s.Absorbs names' ms' b) (hNames : ∀ key ∈ names', key ∉ names) :
    (r.and s).Absorbs (names ++ names') (ms ++ ms') (a, b) := by
  refine ⟨hr.knows.and hs.knows, ?_, List.forall_mem_append.mpr ⟨hr.writable, hs.writable⟩, ?_⟩
  · intro m hm
    rcases List.mem_append.mp hm with hm | hm
    · obtain ⟨key, hMem, hKey⟩ := hr.keys m hm
      exact ⟨key, List.mem_append_left _ hMem, hKey⟩
    · obtain ⟨key, hMem, hKey⟩ := hs.keys m hm
      exact ⟨key, List.mem_append_right _ hMem, hKey⟩
  · intro source hAdmits
    rw [List.forall_mem_append] at hAdmits
    obtain ⟨left, hLeft, hLeftFinish⟩ := hr.takes source hAdmits.1
    obtain ⟨right, hRight, hRightFinish⟩ := hs.takes source hAdmits.2
    have hOther : ∀ m ∈ ms', ∀ key, m.key = some key → key ∉ names := by
      intro m hm key hKey
      obtain ⟨key', hMem, hKey'⟩ := hs.keys m hm
      cases hKey.symm.trans hKey'
      exact hNames key hMem
    refine ⟨(left, right), (hLeft.left s s.start).append (hRight.right hr.knows hOther left), ?_⟩
    simp only [Record.and, hLeftFinish, hRightFinish]
    rfl

theorem Absorbs.map {r : Record σ α} {names : List String} {ms : List Member} {a : α} (h : r.Absorbs names ms a)
    (f : α → β) : (r.map f).Absorbs names ms (f a) := by
  refine ⟨h.knows, h.keys, h.writable, fun source hAdmits => ?_⟩
  obtain ⟨seen, hMeets, hFinish⟩ := h.takes source hAdmits
  refine ⟨seen, hMeets.map f, ?_⟩
  simp only [Record.map, hFinish]
  rfl

theorem Absorbs.object {r : Record σ α} {names : List String} {ms : List Member} {a : α} (h : r.Absorbs names ms a) :
    r.object.Restores (.object ms) a := by
  refine ⟨.object ?_ h.writable, fun source hAdmits => ?_⟩
  · intro m hm
    obtain ⟨key, _, hKey⟩ := h.keys m hm
    rw [hKey]
    rfl
  · obtain ⟨inner, hEnter, hInner⟩ := hAdmits.object
    rw [Record.object, hEnter]
    exact h.members hInner

theorem Absorbs.decoder {r : Record σ α} {names : List String} {ms : List Member} {a : α}
    (h : r.Absorbs names ms a) : r.decoder.Restores (.object ms) a := ⟨h.object.writable, h.object.decodes⟩

/-! ### Fields that must be there -/

/-- Without a member of that name the record does not finish. -/
def Needs (r : Record σ α) (name : String) : Prop :=
  ∃ Lacks : σ → Prop, Lacks r.start ∧
    (∀ source key j seen next, key ≠ name → Lacks seen → r.meet source key j seen = some (.ok next) →
      Lacks next) ∧
    ∀ seen a, Lacks seen → r.finish seen ≠ .ok a

theorem needs_required (name : String) (d : Decoder α) : (required name d).Needs name := by
  refine ⟨fun seen => seen = none, rfl, ?_, ?_⟩
  · intro source key j seen next hKey _ hMeet
    rw [required, knows_field name d none source key j seen (by simpa using hKey)] at hMeet
    cases hMeet
  · rintro _ a rfl hFinish
    cases hFinish

theorem Needs.and {s : Record τ β} {name : String} (h : s.Needs name) (r : Record σ α) : (r.and s).Needs name := by
  obtain ⟨Lacks, hStart, hMeet, hFinish⟩ := h
  refine ⟨fun seen => Lacks seen.2, hStart, ?_, ?_⟩
  · intro source key j seen next hKey hLacks hBoth
    obtain ⟨left, _, rfl⟩ | ⟨right, hRight, rfl⟩ := meet_and_cases hBoth
    · exact hLacks
    · exact hMeet source key j seen.2 right hKey hLacks hRight
  · intro seen p hLacks hBoth
    obtain ⟨a, _, hRest⟩ := exists_of_bind_eq_ok hBoth
    obtain ⟨b, hRight, _⟩ := exists_of_bind_eq_ok hRest
    exact hFinish seen.2 b hLacks hRight

theorem Needs.map {r : Record σ α} {name : String} (h : r.Needs name) (f : α → β) : (r.map f).Needs name := by
  obtain ⟨Lacks, hStart, hMeet, hFinish⟩ := h
  refine ⟨Lacks, hStart, hMeet, fun seen b hLacks hb => ?_⟩
  obtain ⟨a, ha, _⟩ := exists_of_map_eq_ok hb
  exact hFinish seen a hLacks ha

theorem Needs.members_ne_ok {r : Record σ α} {name : String} (h : r.Needs name) {ms : List Member}
    (hMissing : ∀ m ∈ ms, m.key ≠ some name) (source : Source) (a : α) :
    r.members source ms r.start ≠ .ok a := by
  obtain ⟨Lacks, hStart, hMeet, hFinish⟩ := h
  intro ha
  have hKeys : ∀ m ∈ ms, ∀ key ∈ m.key, key ≠ name := fun m hm key hKey hEq => hMissing m hm (hEq ▸ hKey)
  obtain ⟨last, hLast, ha⟩ := exists_finish_of_members hMeet hKeys hStart ha
  exact hFinish last a hLast ha

theorem Needs.object_toOption {r : Record σ α} {name : String} (h : r.Needs name) {ms : List Member}
    (hMissing : ∀ m ∈ ms, m.key ≠ some name) : (r.object .memory (.object ms)).toOption = none := by
  cases hObject : r.object .memory (.object ms) with
  | error e => rfl
  | ok a => exact absurd hObject (h.members_ne_ok hMissing .memory a)

/-! ### Members for something inside -/

theorem flattened_of_meets {r : Record σ α} {inner : α → List Member → Except LoadError β} {source : Source}
    {ms rest held : List Member} {seen last : σ} (h : r.Meets source ms seen last) :
    r.flattened inner source (ms ++ rest) seen held = r.flattened inner source rest last held := by
  induction h with
  | nil => rfl
  | cons hMeet _ ih =>
    rw [List.cons_append, flattened, hMeet]
    exact ih

theorem flattened_held {r : Record σ α} {inner : α → List Member → Except LoadError β} {source : Source}
    {names : List String} {ms rest held : List Member} {seen : σ} (hKnows : r.Knows names)
    (hOther : ∀ m ∈ ms, ∃ key, m.key = some key ∧ key ∉ names) (hWritable : ∀ m ∈ ms, m.value.Writable)
    (hAdmits : ∀ m ∈ ms, source.Admits m.value) :
    r.flattened inner source (ms ++ rest) seen held = r.flattened inner source rest seen (ms.reverse ++ held) := by
  induction ms generalizing held with
  | nil => rfl
  | cons m ms ih =>
    rw [List.forall_mem_cons] at hOther hWritable hAdmits
    obtain ⟨_, j⟩ := m
    obtain ⟨key, rfl, hKey⟩ := hOther.1
    have hHold : source.hold j = .ok () := hAdmits.1.hold hWritable.1
    rw [List.cons_append, flattened, hKnows source key j seen hKey]
    simp only [hHold, bind, Except.bind]
    rw [ih hOther.2 hWritable.2 hAdmits.2, List.reverse_cons, List.append_assoc]
    rfl

/-- An object restores what is inside it if its own members stand before or behind the others. -/
theorem Absorbs.around {r : Record σ α} {names : List String} {ms : List Member} {a : α} (h : r.Absorbs names ms a)
    (inner : α → List Member → Except LoadError β) (held : List Member) {b : β}
    (hOther : ∀ m ∈ held, ∃ key, m.key = some key ∧ key ∉ names)
    (hWritable : ∀ m ∈ held, m.value.Writable) (hInner : inner a held = .ok b) :
    (r.around inner).Restores (.object (ms ++ held)) b ∧ (r.around inner).Restores (.object (held ++ ms)) b := by
  have hKeys : ∀ m ∈ ms ++ held, m.key.isSome = true := by
    intro m hm
    rcases List.mem_append.mp hm with hm | hm
    · obtain ⟨key, _, hKey⟩ := h.keys m hm
      rw [hKey]
      rfl
    · obtain ⟨key, hKey, _⟩ := hOther m hm
      rw [hKey]
      rfl
  have hValues := List.forall_mem_append.mpr ⟨h.writable, hWritable⟩
  constructor
  · refine ⟨.object hKeys hValues, fun source hAdmits => ?_⟩
    obtain ⟨below, hEnter, hBelow⟩ := hAdmits.object
    rw [List.forall_mem_append] at hBelow
    obtain ⟨seen, hMeets, hFinish⟩ := h.takes below hBelow.1
    have hHeld : r.flattened inner below (held ++ []) seen [] = r.flattened inner below [] seen (held.reverse ++ []) :=
      flattened_held h.knows hOther hWritable hBelow.2
    rw [List.append_nil, List.append_nil, flattened, hFinish, List.reverse_reverse] at hHeld
    rw [Record.around, hEnter]
    exact (flattened_of_meets hMeets).trans (hHeld.trans hInner)
  · refine ⟨.object (fun m hm => hKeys m ?_) (fun m hm => hValues m ?_), fun source hAdmits => ?_⟩
    · exact List.mem_append.mpr (List.mem_append.mp hm).symm
    · exact List.mem_append.mpr (List.mem_append.mp hm).symm
    · obtain ⟨below, hEnter, hBelow⟩ := hAdmits.object
      rw [List.forall_mem_append] at hBelow
      obtain ⟨seen, hMeets, hFinish⟩ := h.takes below hBelow.2
      have hOwn : r.flattened inner below (ms ++ []) r.start (held.reverse ++ []) =
          r.flattened inner below [] seen (held.reverse ++ []) := flattened_of_meets hMeets
      rw [List.append_nil, List.append_nil, flattened, hFinish, List.reverse_reverse] at hOwn
      rw [Record.around, hEnter]
      refine (flattened_held h.knows hOther hWritable hBelow.1).trans ?_
      rw [List.append_nil]
      exact hOwn.trans hInner

end Record

end TreeLowering
