import TreeLowering.Json.Tagged
import TreeLowering.Proofs.Json.Record

/-! # Tagged values that are taken back

The tag stands first and picks the variant, which takes the other members. -/
namespace TreeLowering
set_option autoImplicit false

namespace Variant

variable {σ α : Type}

/-- What the variant gives has the property. -/
def Yields (v : Variant α) (P : α → Prop) : Prop := ∀ j a, v.body j = .ok a → P a

/-- The variant takes the members beside its tag, none of them with a reserved key, and gives the value. -/
structure Accepts (v : Variant α) (reserved : List String) (fields : List Member) (a : α) : Prop where
  keys : ∀ m ∈ fields, ∃ key, m.key = some key ∧ key ∉ reserved
  writable : ∀ m ∈ fields, m.value.Writable
  body : v.body (.object fields) = .ok a

theorem yields_ofRecord {r : Record σ α} {P : α → Prop} (h : r.Yields P) (tag : String) :
    (ofRecord tag r).Yields P :=
  fun j a ha => h.decoder .memory j a ha

theorem yields_ofValue {P : α → Prop} {a : α} (h : P a) (tag : String) : (ofValue tag a).Yields P := by
  rintro j _ ⟨⟩
  exact h

theorem accepts_ofRecord {r : Record σ α} {names reserved : List String} {ms : List Member} {a : α}
    (h : r.Absorbs names ms a) (hNames : ∀ key ∈ names, key ∉ reserved) (tag : String) :
    (ofRecord tag r).Accepts reserved ms a := by
  refine ⟨fun m hm => ?_, h.writable, h.decoder.decodes .memory trivial⟩
  obtain ⟨key, hMem, hKey⟩ := h.keys m hm
  exact ⟨key, hKey, hNames key hMem⟩

theorem accepts_ofValue (tag : String) (a : α) (reserved : List String) : (ofValue tag a).Accepts reserved [] a := by
  refine ⟨?_, ?_, rfl⟩
  · rintro m ⟨⟩
  · rintro m ⟨⟩

theorem find?_tag {variants : List (Variant α)} (hTags : (variants.map tag).Nodup) {v : Variant α}
    (h : v ∈ variants) : variants.find? (fun u => u.tag == v.tag) = some v := by
  induction variants with
  | nil => cases h
  | cons u variants ih =>
    rw [List.map_cons, List.nodup_cons] at hTags
    rcases List.mem_cons.mp h with rfl | h
    · exact List.find?_cons_of_pos (beq_self_eq_true _)
    · have hOther : u.tag ≠ v.tag := fun hEq => hTags.1 (hEq ▸ List.mem_map_of_mem h)
      rw [List.find?_cons_of_neg (by simpa using hOther)]
      exact ih hTags.2 h

theorem mem_of_choose {variants : List (Variant α)} {source : Source} {j : Json} {v : Variant α}
    (h : choose variants source j = .ok v) : v ∈ variants := by
  unfold choose at h
  split at h
  · split at h
    · rename_i hFound
      cases h
      exact List.mem_of_find?_eq_some hFound
    · cases h
  · split at h
    · rename_i hFound
      cases h
      obtain ⟨i, _, hAt⟩ := Option.bind_eq_some_iff.mp hFound
      exact List.mem_of_getElem? hAt
    · cases h
  · cases h

theorem members_yields {variants : List (Variant α)} {P : α → Prop} (h : ∀ v ∈ variants, v.Yields P)
    {source : Source} {ms held : List Member} {chosen : Option (Variant α)}
    (hChosen : ∀ v ∈ chosen, v ∈ variants)
    {a : α} (ha : members variants source ms chosen held = .ok a) : P a := by
  induction ms generalizing chosen held with
  | nil =>
    cases chosen with
    | none => cases ha
    | some v => exact h v (hChosen v rfl) _ a ha
  | cons m ms ih =>
    obtain ⟨key, j⟩ := m
    cases key with
    | none => cases ha
    | some key =>
      cases chosen with
      | some v =>
        rw [members] at ha
        split at ha
        · cases ha
        · obtain ⟨_, _, hRest⟩ := exists_of_bind_eq_ok ha
          exact ih hChosen hRest
      | none =>
        rw [members] at ha
        split at ha
        · obtain ⟨v, hv, hRest⟩ := exists_of_bind_eq_ok ha
          refine ih (fun u hu => ?_) hRest
          cases hu
          exact mem_of_choose hv
        · obtain ⟨_, _, hRest⟩ := exists_of_bind_eq_ok ha
          exact ih hChosen hRest

theorem decoder_yields {variants : List (Variant α)} {P : α → Prop} (h : ∀ v ∈ variants, v.Yields P) :
    (decoder variants).Yields P := by
  intro source j a ha
  cases j with
  | object ms =>
    rw [decoder] at ha
    split at ha
    · exact members_yields h (fun v hv => by cases hv) ha
    · cases ha
  | array js =>
    cases hEnter : source.enter? with
    | none =>
      simp only [decoder, hEnter] at ha
      cases ha
    | some inner =>
      cases js with
      | nil =>
        simp only [decoder, hEnter] at ha
        cases ha
      | cons j js =>
        simp only [decoder, hEnter] at ha
        obtain ⟨v, hv, hRest⟩ := exists_of_bind_eq_ok ha
        obtain ⟨_, _, hBody⟩ := exists_of_bind_eq_ok hRest
        exact h v (mem_of_choose hv) _ a hBody
  | _ => cases ha

theorem members_held {variants : List (Variant α)} {v : Variant α} {reserved : List String}
    {fields held : List Member}
    (hKeys : ∀ m ∈ fields, ∃ key, m.key = some key ∧ key ∉ reserved)
    (hWritable : ∀ m ∈ fields, m.value.Writable)
    (hReserved : tagField ∈ reserved) {source : Source} (hAdmits : ∀ m ∈ fields, source.Admits m.value) :
    members variants source fields (some v) held = v.body (.object (held.reverse ++ fields)) := by
  induction fields generalizing held with
  | nil => rw [List.append_nil, members]
  | cons m fields ih =>
    rw [List.forall_mem_cons] at hKeys hWritable hAdmits
    obtain ⟨_, j⟩ := m
    obtain ⟨key, rfl, hKey⟩ := hKeys.1
    have hTag : key ≠ tagField := fun hEq => hKey (hEq ▸ hReserved)
    have hHold : source.hold j = .ok () := hAdmits.1.hold hWritable.1
    rw [members, if_neg hTag, hHold]
    refine (ih hKeys.2 hWritable.2 hAdmits.2).trans ?_
    rw [List.reverse_cons, List.append_assoc]
    rfl

theorem members_of_accepts {variants : List (Variant α)} (hTags : (variants.map tag).Nodup) {v : Variant α}
    (hMem : v ∈ variants) {reserved : List String} {fields : List Member} {a : α} (h : v.Accepts reserved fields a)
    (hReserved : tagField ∈ reserved) {source : Source} (hAdmits : ∀ m ∈ fields, source.Admits m.value) :
    members variants source (.entry tagField (.string v.tag) :: fields) none [] = .ok a := by
  have hChoose : choose variants source (.string v.tag) = .ok v := by
    cases source <;> simp only [choose, find?_tag hTags hMem] <;> rfl
  rw [Member.entry, members, if_pos rfl, hChoose]
  exact (members_held h.keys h.writable hReserved hAdmits).trans h.body

theorem Accepts.decoder {variants : List (Variant α)} (hTags : (variants.map tag).Nodup) {v : Variant α}
    (hMem : v ∈ variants) {reserved : List String} {fields : List Member} {a : α} (h : v.Accepts reserved fields a)
    (hReserved : tagField ∈ reserved) :
    (decoder variants).Restores (.object (.entry tagField (.string v.tag) :: fields)) a := by
  refine ⟨.object ?_ ?_, fun source hAdmits => ?_⟩
  · rw [List.forall_mem_cons]
    refine ⟨rfl, fun m hm => ?_⟩
    obtain ⟨key, hKey, _⟩ := h.keys m hm
    rw [hKey]
    rfl
  · exact List.forall_mem_cons.mpr ⟨.string v.tag, h.writable⟩
  · obtain ⟨inner, hEnter, hInner⟩ := hAdmits.object
    rw [List.forall_mem_cons] at hInner
    rw [Variant.decoder, hEnter]
    exact members_of_accepts hTags hMem h hReserved hInner.2

end Variant
end TreeLowering
