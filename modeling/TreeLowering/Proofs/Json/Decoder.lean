import TreeLowering.Json.Decoder
import TreeLowering.Proofs.Json.ReadBack
import TreeLowering.Proofs.Sequence

/-! # Decoders that take back what is written

`Yields` says what is true of every value that a decoder gives, `Restores` that a written value is
decoded to itself. Both follow the combinators of decoders. -/
namespace TreeLowering
set_option autoImplicit false

/-! ## Nesting -/

namespace Json

mutual
/-- How many arrays and objects are open at once. -/
def depth : Json → Nat
  | array items => itemsDepth items + 1
  | object members => membersDepth members + 1
  | _ => 0

def itemsDepth : List Json → Nat
  | [] => 0
  | j :: rest => max j.depth (itemsDepth rest)

def membersDepth : List Member → Nat
  | [] => 0
  | .mk _ v :: rest => max v.depth (membersDepth rest)
end

theorem depth_le_itemsDepth {items : List Json} {j : Json} (h : j ∈ items) : j.depth ≤ itemsDepth items := by
  induction items with
  | nil => cases h
  | cons k items ih =>
    rw [itemsDepth]
    rcases List.mem_cons.mp h with rfl | h
    · exact Nat.le_max_left _ _
    · exact Nat.le_trans (ih h) (Nat.le_max_right _ _)

theorem depth_le_membersDepth {members : List Member} {m : Member} (h : m ∈ members) :
    m.value.depth ≤ membersDepth members := by
  induction members with
  | nil => cases h
  | cons n members ih =>
    obtain ⟨key, value⟩ := n
    rw [membersDepth]
    rcases List.mem_cons.mp h with rfl | h
    · exact Nat.le_max_left _ _
    · exact Nat.le_trans (ih h) (Nat.le_max_right _ _)

theorem itemsHoldable_of_forall {items : List Json} {depth : Nat} (h : ∀ j ∈ items, j.holdable depth = true) :
    itemsHoldable depth items = true := by
  induction items with
  | nil => rfl
  | cons j items ih =>
    rw [List.forall_mem_cons] at h
    rw [itemsHoldable, h.1, ih h.2]
    rfl

theorem membersHoldable_of_forall {members : List Member} {depth : Nat} (hKeys : ∀ m ∈ members, m.key.isSome = true)
    (h : ∀ m ∈ members, m.value.holdable depth = true) : membersHoldable depth members = true := by
  induction members with
  | nil => rfl
  | cons m members ih =>
    obtain ⟨key, value⟩ := m
    rw [List.forall_mem_cons] at h hKeys
    have hKey : key.isSome = true := hKeys.1
    have hValue : value.holdable depth = true := h.1
    rw [membersHoldable, hKey, hValue, ih hKeys.2 h.2]
    rfl

theorem Writable.holdable {j : Json} (h : j.Writable) {depth : Nat} (hDepth : depth + j.depth ≤ nestingLimit) :
    j.holdable depth = true := by
  induction h generalizing depth with
  | null | bool | string => rfl
  | number hValid hValue => exact hValue
  | @array items hItems ih =>
    rw [Json.depth] at hDepth
    rw [Json.holdable, decide_eq_true (by omega), Bool.true_and]
    refine itemsHoldable_of_forall fun j hj => ih j hj ?_
    have := depth_le_itemsDepth hj
    omega
  | @object members hKeys hValues ih =>
    rw [Json.depth] at hDepth
    rw [Json.holdable, decide_eq_true (by omega), Bool.true_and]
    refine membersHoldable_of_forall hKeys fun m hm => ih m hm ?_
    have := depth_le_membersDepth hm
    omega

end Json

namespace Source

/-- The nesting of the value keeps to the limit there. -/
def Admits : Source → Json → Prop
  | text depth, j => depth + j.depth ≤ Json.nestingLimit
  | memory, _ => True

theorem Admits.hold {source : Source} {j : Json} (h : source.Admits j) (hWritable : j.Writable) :
    source.hold j = .ok () := by
  cases source with
  | memory => rfl
  | text depth => exact if_pos (hWritable.holdable h)

theorem Admits.array {source : Source} {items : List Json} (h : source.Admits (.array items)) :
    ∃ inner, source.enter? = some inner ∧ ∀ j ∈ items, inner.Admits j := by
  cases source with
  | memory => exact ⟨memory, rfl, fun _ _ => trivial⟩
  | text depth =>
    rw [Admits, Json.depth] at h
    refine ⟨text (depth + 1), if_pos (by omega), fun j hj => ?_⟩
    have := Json.depth_le_itemsDepth hj
    rw [Admits]
    omega

theorem Admits.object {source : Source} {members : List Member} (h : source.Admits (.object members)) :
    ∃ inner, source.enter? = some inner ∧ ∀ m ∈ members, inner.Admits m.value := by
  cases source with
  | memory => exact ⟨memory, rfl, fun _ _ => trivial⟩
  | text depth =>
    rw [Admits, Json.depth] at h
    refine ⟨text (depth + 1), if_pos (by omega), fun m hm => ?_⟩
    have := Json.depth_le_membersDepth hm
    rw [Admits]
    omega

end Source

/-! ## Decoders -/

namespace Decoder

variable {α β : Type}

/-- The value is written as `j`, and decoding `j` gives the value. -/
structure Restores (d : Decoder α) (j : Json) (a : α) : Prop where
  writable : j.Writable
  decodes : ∀ source, Source.Admits source j → d source j = .ok a

/-- What the decoder gives has the property. -/
def Yields (d : Decoder α) (P : α → Prop) : Prop := ∀ source j a, d source j = .ok a → P a

theorem restores_text (s : String) : text.Restores (.string s) s := ⟨.string s, fun _ _ => rfl⟩

theorem restores_flag (b : Bool) : flag.Restores (.bool b) b := ⟨.bool b, fun _ _ => rfl⟩

theorem restores_natural {n : Nat} (h : n < Numeral.significandLimit) : natural.Restores (.ofNat n) n := by
  refine ⟨.number (Numeral.valid_ofNat n) (Numeral.isSome_value?_ofNat h), fun _ _ => ?_⟩
  rw [Json.ofNat, natural, Numeral.natural?_ofNat h]
  rfl

theorem yields_natural : natural.Yields fun n => natural.Restores (.ofNat n) n := by
  intro source j n h
  cases j with
  | number m =>
    rw [natural] at h
    cases hNatural : m.natural? with
    | none =>
      rw [hNatural] at h
      cases h
    | some v =>
      rw [hNatural] at h
      cases h
      exact restores_natural (Numeral.natural?_lt hNatural)
  | _ => cases h

theorem restores_double {x : Binary64} (h : (Numeral.ofBinary64 x).value? = some x) :
    double.Restores (.number (.ofBinary64 x)) x := by
  refine ⟨.number (Numeral.valid_ofBinary64 x) (by rw [h]; rfl), fun _ _ => ?_⟩
  rw [double, h]
  rfl

theorem restores_choice {options : List (String × α)} {name : String} {a : α} (h : options.lookup name = some a) :
    (choice options).Restores (.string name) a := by
  refine ⟨.string name, fun source _ => ?_⟩
  cases source <;> simp only [choice, h] <;> rfl

theorem Restores.optional {d : Decoder α} {j : Json} {a : α} (h : d.Restores j a) (hNull : j ≠ .null) :
    d.optional.Restores j (some a) := by
  refine ⟨h.writable, fun source hAdmits => ?_⟩
  have hDecode := h.decodes source hAdmits
  cases j with
  | null => exact absurd rfl hNull
  | _ =>
    simp only [Decoder.optional, hDecode]
    rfl

theorem Yields.optional {d : Decoder α} {P : α → Prop} (h : d.Yields P) :
    d.optional.Yields fun o => ∀ a ∈ o, P a := by
  rintro source j _ ho a rfl
  cases j with
  | null => cases ho
  | _ =>
    obtain ⟨b, hDecode, hb⟩ := exists_of_map_eq_ok ho
    cases hb
    exact h source _ a hDecode

theorem items_yields {d : Decoder α} {P : α → Prop} (h : d.Yields P) {source : Source} {js : List Json}
    {as : List α} (hItems : items d source js = .ok as) : ∀ a ∈ as, P a := by
  induction js generalizing as with
  | nil =>
    cases hItems
    exact fun a ha => by cases ha
  | cons j js ih =>
    obtain ⟨b, hDecode, hRest⟩ := exists_of_bind_eq_ok hItems
    obtain ⟨bs, hOthers, hCons⟩ := exists_of_bind_eq_ok hRest
    cases hCons
    rw [List.forall_mem_cons]
    exact ⟨h source j b hDecode, ih hOthers⟩

theorem Yields.list {d : Decoder α} {P : α → Prop} (h : d.Yields P) :
    d.list.Yields fun as => ∀ a ∈ as, P a := by
  intro source j as has
  cases j with
  | array js =>
    rw [Decoder.list] at has
    split at has
    · exact items_yields h has
    · cases has
  | _ => cases has

theorem items_restores {d : Decoder α} {write : α → Json} {as : List α} (h : ∀ a ∈ as, d.Restores (write a) a)
    {source : Source} (hAdmits : ∀ a ∈ as, source.Admits (write a)) : items d source (as.map write) = .ok as := by
  induction as with
  | nil => rfl
  | cons a as ih =>
    rw [List.forall_mem_cons] at h hAdmits
    rw [List.map_cons, items, h.1.decodes source hAdmits.1, ih h.2 hAdmits.2]
    rfl

theorem Restores.list {d : Decoder α} {write : α → Json} {as : List α} (h : ∀ a ∈ as, d.Restores (write a) a) :
    d.list.Restores (.array (as.map write)) as := by
  refine ⟨.array ?_, fun source hAdmits => ?_⟩
  · intro j hj
    obtain ⟨a, ha, rfl⟩ := List.mem_map.mp hj
    exact (h a ha).writable
  · obtain ⟨inner, hEnter, hInner⟩ := hAdmits.array
    rw [Decoder.list, hEnter]
    exact items_restores h fun a ha => hInner _ (List.mem_map_of_mem ha)

theorem restores_nil (d : Decoder α) : d.list.Restores (.array []) [] := by
  have hEmpty : ∀ a ∈ [], d.Restores ((fun _ => .null) a) a := by rintro a ⟨⟩
  exact Restores.list hEmpty

/-- The first form that takes the value back decides. -/
theorem restores_firstOf {type : String} (before after : List (Decoder α)) {d : Decoder α} {j : Json} {a : α}
    (h : d.Restores j a) (hBefore : ∀ e ∈ before, (e .memory j).toOption = none) :
    (firstOf type (before ++ d :: after)).Restores j a := by
  refine ⟨h.writable, fun source hAdmits => ?_⟩
  have hFound : (before ++ d :: after).findSome? (fun e => (e .memory j).toOption) = some a := by
    rw [List.findSome?_append, List.findSome?_eq_none_iff.mpr hBefore, Option.none_or, List.findSome?_cons,
      h.decodes .memory trivial]
    rfl
  rw [firstOf, hAdmits.hold h.writable]
  simp only [bind, Except.bind, hFound]
  rfl

theorem yields_firstOf {type : String} {forms : List (Decoder α)} {P : α → Prop} (h : ∀ d ∈ forms, d.Yields P) :
    (firstOf type forms).Yields P := by
  intro source j a ha
  obtain ⟨_, _, hRest⟩ := exists_of_bind_eq_ok ha
  cases hFound : forms.findSome? (fun d => (d .memory j).toOption) with
  | none =>
    simp only [hFound] at hRest
    cases hRest
  | some b =>
    simp only [hFound] at hRest
    cases hRest
    obtain ⟨d, hd, hOption⟩ := List.exists_of_findSome?_eq_some hFound
    cases hDecode : d .memory j with
    | error e =>
      rw [hDecode] at hOption
      cases hOption
    | ok b =>
      rw [hDecode] at hOption
      cases hOption
      exact h d hd .memory j _ hDecode

end Decoder

/-! ## Writable values -/

theorem Json.writable_ofNat {n : Nat} (h : n < Numeral.significandLimit) : (ofNat n).Writable :=
  (Decoder.restores_natural h).writable

theorem Json.writable_array_iff {js : List Json} : (array js).Writable ↔ ∀ j ∈ js, j.Writable := by
  constructor
  · rintro ⟨⟩
    assumption
  · exact .array

theorem Json.writable_object_iff {ms : List Member} :
    (object ms).Writable ↔ ∀ m ∈ ms, m.key.isSome = true ∧ m.value.Writable := by
  constructor
  · intro h m hm
    cases h with
    | object hKeys hValues => exact ⟨hKeys m hm, hValues m hm⟩
  · intro h
    exact .object (fun m hm => (h m hm).1) fun m hm => (h m hm).2

end TreeLowering
