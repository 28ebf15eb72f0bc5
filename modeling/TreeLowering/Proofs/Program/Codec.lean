import TreeLowering.Program.Load
import TreeLowering.Program.Write
import TreeLowering.Proofs.Json.Tagged

/-! # Codecs: decoders together with what is written

A decoder keeps a way of writing if it takes back everything it gives. Decoders of records and tagged
values keep what their fields keep. -/
namespace TreeLowering
set_option autoImplicit false

/-- The literal that is written for the double denotes the double. -/
def Binary64.Rereads (x : Binary64) : Prop := (Numeral.ofBinary64 x).value? = some x

instance : DecidablePred Binary64.Rereads :=
  fun x => inferInstanceAs (Decidable ((Numeral.ofBinary64 x).value? = some x))

namespace Decoder

variable {α : Type}

/-- What the decoder gives is taken back from what is written for it, as long as it fits. -/
def Keeps (d : Decoder α) (Fits : α → Prop) (write : α → Json) : Prop :=
  d.Yields fun a => Fits a → d.Restores (write a) a

theorem Keeps.mono {d : Decoder α} {Fits Fits' : α → Prop} {write write' : α → Json} (h : d.Keeps Fits write)
    (hWrite : ∀ a, write' a = write a) (hFits : ∀ a, Fits' a → Fits a) : d.Keeps Fits' write' := by
  intro source j a ha hFit
  rw [hWrite]
  exact h source j a ha (hFits a hFit)

theorem keeps_text : text.Keeps (fun _ => True) .string := fun _ _ s _ _ => restores_text s

theorem keeps_flag : flag.Keeps (fun _ => True) .bool := fun _ _ b _ _ => restores_flag b

theorem keeps_natural : natural.Keeps (fun _ => True) .ofNat := fun source j n h _ => yields_natural source j n h

theorem keeps_double : double.Keeps Binary64.Rereads fun x => .number (.ofBinary64 x) :=
  fun _ _ _ _ hFits => restores_double hFits

theorem Keeps.list {d : Decoder α} {Fits : α → Prop} {write : α → Json} (h : d.Keeps Fits write) :
    d.list.Keeps (fun as => ∀ a ∈ as, Fits a) fun as => .array (as.map write) :=
  fun source j as has hFits => Restores.list fun a ha => Yields.list h source j as has a ha (hFits a ha)

theorem Keeps.optional {d : Decoder α} {Fits : α → Prop} {write : α → Json} (h : d.Keeps Fits write)
    (hNull : ∀ a, write a ≠ .null) :
    d.optional.Keeps (fun o => ∀ a ∈ o, Fits a) fun o => o.elim .null write := by
  intro source j o ho hFits
  cases o with
  | none => exact ⟨.null, fun _ _ => rfl⟩
  | some a => exact (Yields.optional h source j _ ho a rfl (hFits a rfl)).optional (hNull a)

theorem decodes_of_load {d : Decoder α} {cs : List Char} {a : α} (h : d.load cs = .ok a) :
    d (.text 0) (Json.read cs).1 = .ok a := by
  simp only [Decoder.load] at h
  split at h
  · cases h
  · next b hb =>
    split at h
    · cases h
      exact hb
    · cases h

theorem load_pretty {d : Decoder α} {j : Json} (hWritable : j.Writable) {a : α} (h : d (.text 0) j = .ok a) :
    d.load j.pretty.toList = .ok a := by
  rw [Json.pretty, String.toList_ofList, Decoder.load, Json.read_pretty hWritable]
  simp only [h]
  rfl

/-- What was loaded from some text is loaded again from the text that is written for it. -/
theorem Keeps.load {d : Decoder α} {Fits : α → Prop} {write : α → Json} (h : d.Keeps Fits write) {cs : List Char}
    {a : α} (ha : d.load cs = .ok a) (hFits : Fits a) (hNesting : (write a).depth ≤ Json.nestingLimit) :
    d.load (write a).pretty.toList = .ok a := by
  obtain ⟨hWritable, hRestored⟩ := h _ _ a (decodes_of_load ha) hFits
  have hAdmits : Source.Admits (.text 0) (write a) := by
    rw [Source.Admits, Nat.zero_add]
    exact hNesting
  exact load_pretty hWritable (hRestored _ hAdmits)

end Decoder

namespace Record

variable {σ τ α β : Type}

/-- What the record gives is taken back from the members that are written for it, as long as it fits. -/
def Keeps (r : Record σ α) (names : List String) (Fits : α → Prop) (write : α → List Member) : Prop :=
  r.Yields fun a => Fits a → r.Absorbs names (write a) a

theorem keeps_required {d : Decoder α} {Fits : α → Prop} {write : α → Json} (h : d.Keeps Fits write)
    (name : String) : (required name d).Keeps [name] Fits fun a => [.entry name (write a)] := by
  refine (yields_field h name ?_).mono fun a ha hFits => absorbs_field (ha hFits) name none
  rintro a ⟨⟩

theorem keeps_withDefault {d : Decoder α} {Fits : α → Prop} {write : α → Json} (h : d.Keeps Fits write)
    (name : String) (default : α) (hDefault : d.Restores (write default) default) :
    (withDefault name d default).Keeps [name] Fits fun a => [.entry name (write a)] := by
  refine (yields_field h name ?_).mono fun a ha hFits => absorbs_field (ha hFits) name (some default)
  rintro a ⟨⟩ _
  exact hDefault

/-- A field that is written only if it has a value. -/
theorem keeps_optional {d : Decoder α} {Fits : α → Prop} {write : α → Json} (h : d.Keeps Fits write)
    (hNull : ∀ a, write a ≠ .null) (name : String) :
    (optional name d).Keeps [name] (fun o => ∀ a ∈ o, Fits a) fun o => Member.optionalEntry name (o.map write) := by
  refine (yields_field (Decoder.Yields.optional h) name ?_).mono fun o ho hFits => ?_
  · rintro _ ⟨⟩ a ⟨⟩
  · cases o with
    | none => exact absorbs_omitted d.optional name none
    | some a => exact absorbs_field ((ho a rfl (hFits a rfl)).optional (hNull a)) name (some none)

/-- A field that is written as `null` if it has no value. -/
theorem keeps_nullable {d : Decoder α} {Fits : α → Prop} {write : α → Json} (h : d.Keeps Fits write)
    (hNull : ∀ a, write a ≠ .null) (name : String) :
    (optional name d).Keeps [name] (fun o => ∀ a ∈ o, Fits a) fun o => [.entry name (o.elim .null write)] :=
  keeps_withDefault (h.optional hNull) name none ⟨.null, fun _ _ => rfl⟩

theorem Keeps.and {r : Record σ α} {s : Record τ β} {names names' : List String} {Fits : α → Prop}
    {Fits' : β → Prop} {write : α → List Member} {write' : β → List Member} (hr : r.Keeps names Fits write)
    (hs : s.Keeps names' Fits' write') (hNames : ∀ key ∈ names', key ∉ names) :
    (r.and s).Keeps (names ++ names') (fun p => Fits p.1 ∧ Fits' p.2) fun p => write p.1 ++ write' p.2 :=
  (Yields.and hr hs).mono fun _ h hFits => (h.1 hFits.1).and (h.2 hFits.2) hNames

theorem Keeps.map {r : Record σ α} {names : List String} {Fits : α → Prop} {write : α → List Member}
    (h : r.Keeps names Fits write) {f : α → β} {Fits' : β → Prop} {write' : β → List Member}
    (hf : ∀ a, write' (f a) = write a ∧ (Fits' (f a) → Fits a)) : (r.map f).Keeps names Fits' write' := by
  refine Yields.map h fun a ha hFits => ?_
  rw [(hf a).1]
  exact (ha ((hf a).2 hFits)).map f

theorem Keeps.decoder {r : Record σ α} {names : List String} {Fits : α → Prop} {write : α → List Member}
    (h : r.Keeps names Fits write) : r.decoder.Keeps Fits fun a => .object (write a) :=
  fun source j a ha hFits => (Yields.decoder h source j a ha hFits).decoder

theorem Keeps.decoder_map {r : Record σ α} {names : List String} {Fits : α → Prop} {write : α → List Member}
    (h : r.Keeps names Fits write) {f : α → β} {Fits' : β → Prop} {write' : β → Json}
    (hf : ∀ a, write' (f a) = .object (write a) ∧ (Fits' (f a) → Fits a)) :
    (r.map f).decoder.Keeps Fits' write' := by
  refine Yields.decoder (Yields.map h fun a ha hFits => ?_)
  rw [(hf a).1]
  exact ((ha ((hf a).2 hFits)).map f).decoder

end Record

/-! ## Locations -/

theorem Location.keeps : Location.decoder.Keeps (fun _ => True) Location.toJson := by
  have hColumn : Decoder.natural.Restores (.ofNat 0) 0 := Decoder.restores_natural (by decide)
  refine Record.Keeps.decoder_map ((Record.keeps_withDefault Decoder.keeps_text "file" ""
    (Decoder.restores_text "")).and ((Record.keeps_required Decoder.keeps_natural "line").and
      (Record.keeps_withDefault Decoder.keeps_natural "column" 0 hColumn) (by decide)) (by decide)) ?_
  rintro ⟨file, line, column⟩
  exact ⟨rfl, fun _ => ⟨trivial, trivial, trivial⟩⟩

/-! ## Tagged values and nodes -/

namespace Variant

variable {σ α β : Type}

/-- What the variant gives is taken back from the tag and the members that are written for it. -/
def Keeps (v : Variant α) (Fits : α → Prop) (write : α → Json) : Prop :=
  v.Yields fun a => Fits a → ∃ fields, v.Accepts [tagField] fields a ∧
    write a = .object (.entry tagField (.string v.tag) :: fields)

theorem keeps_ofRecord {r : Record σ β} {names : List String} {FitsRecord : β → Prop}
    {members : β → List Member} (h : r.Keeps names FitsRecord members)
    (hNames : ∀ key ∈ names, key ∉ [tagField]) {tag : String} {f : β → α}
    {Fits : α → Prop} {write : α → Json}
    (hf : ∀ b, write (f b) = .object (.entry tagField (.string tag) :: members b) ∧ (Fits (f b) → FitsRecord b)) :
    (ofRecord tag (r.map f)).Keeps Fits write := by
  refine yields_ofRecord (Record.Yields.map h fun b hb hFits => ?_) tag
  exact ⟨members b, accepts_ofRecord ((hb ((hf b).2 hFits)).map f) hNames tag, (hf b).1⟩

theorem keeps_decoder {variants : List (Variant α)} (hTags : (variants.map tag).Nodup) {Fits : α → Prop}
    {write : α → Json} (h : ∀ v ∈ variants, v.Keeps Fits write) : (decoder variants).Keeps Fits write := by
  refine decoder_yields fun v hv j a ha hFits => ?_
  obtain ⟨fields, hAccepts, hWrite⟩ := h v hv j a ha hFits
  rw [hWrite]
  exact hAccepts.decoder hTags hv List.mem_cons_self

/-- The keys of a node that belong to no variant. -/
def nodeKeys : List String := [tagField, "location"]

/-- What the variant gives is taken back from the members that are written for it in a node. -/
def KeepsNode (v : Variant (Option Location → α)) (Fits : α → Prop) (write : α → Json) : Prop :=
  v.Yields fun make => ∀ loc, Fits (make loc) → ∃ fields, v.Accepts nodeKeys fields make ∧
    write (make loc) = .node v.tag fields loc

theorem keepsNode_ofRecord {r : Record σ β} {names : List String} {FitsRecord : β → Prop}
    {members : β → List Member} (h : r.Keeps names FitsRecord members) (hNames : ∀ key ∈ names, key ∉ nodeKeys)
    {tag : String} {f : β → Option Location → α} {Fits : α → Prop} {write : α → Json}
    (hf : ∀ b loc, write (f b loc) = .node tag (members b) loc ∧ (Fits (f b loc) → FitsRecord b)) :
    (ofRecord tag (r.map f)).KeepsNode Fits write := by
  refine yields_ofRecord (Record.Yields.map h fun b hb loc hFits => ?_) tag
  exact ⟨members b, accepts_ofRecord ((hb ((hf b loc).2 hFits)).map f) hNames tag, (hf b loc).1⟩

theorem keepsNode_ofValue {tag : String} {make : Option Location → α} {Fits : α → Prop} {write : α → Json}
    (hWrite : ∀ loc, write (make loc) = .node tag [] loc) : (ofValue tag make).KeepsNode Fits write :=
  yields_ofValue (fun loc _ => ⟨[], accepts_ofValue tag make nodeKeys, hWrite loc⟩) tag

theorem restores_node {variants : List (Variant (Option Location → α))} (hTags : (variants.map tag).Nodup)
    {v : Variant (Option Location → α)} (hv : v ∈ variants) {fields : List Member} {make : Option Location → α}
    (h : v.Accepts nodeKeys fields make) {loc : Option Location}
    (hLoc : (Record.optional "location" Location.decoder).Absorbs ["location"]
      (Member.optionalEntry "location" (loc.map Location.toJson)) loc) :
    (nodeDecoder variants).Restores (.node v.tag fields loc) (make loc) := by
  have hMake : members variants .memory (.entry tagField (.string v.tag) :: fields) none [] = .ok make :=
    members_of_accepts hTags hv h List.mem_cons_self fun _ _ => trivial
  refine (hLoc.around (fun loc held => (members variants .memory held none []).map fun make => make loc)
    (.entry tagField (.string v.tag) :: fields) ?_ ?_ ?_).2
  · rw [List.forall_mem_cons]
    refine ⟨⟨tagField, rfl, by decide⟩, fun m hm => ?_⟩
    obtain ⟨key, hKey, hReserved⟩ := h.keys m hm
    exact ⟨key, hKey, fun hMem => hReserved (List.mem_cons_of_mem _ hMem)⟩
  · exact List.forall_mem_cons.mpr ⟨.string v.tag, h.writable⟩
  · rw [hMake]
    rfl

theorem keeps_nodeDecoder {variants : List (Variant (Option Location → α))} (hTags : (variants.map tag).Nodup)
    {Fits : α → Prop} {write : α → Json} (h : ∀ v ∈ variants, v.KeepsNode Fits write) :
    (nodeDecoder variants).Keeps Fits write := by
  have hLocation := Record.keeps_optional Location.keeps (fun _ => Json.noConfusion) "location"
  refine Record.Yields.around hLocation fun loc held a hLoc ha hFits => ?_
  obtain ⟨make, hMake, rfl⟩ := exists_of_map_eq_ok ha
  have hReturned : ∃ v ∈ variants, ∃ fields, v.Accepts nodeKeys fields make ∧
    write (make loc) = .node v.tag fields loc :=
    members_yields (P := fun make => Fits (make loc) → ∃ v ∈ variants, ∃ fields,
      v.Accepts nodeKeys fields make ∧ write (make loc) = .node v.tag fields loc)
      (fun v hv j make hBody hFits => ⟨v, hv, h v hv j make hBody loc hFits⟩) (by rintro v ⟨⟩) hMake hFits
  obtain ⟨v, hv, fields, hAccepts, hWrite⟩ := hReturned
  rw [hWrite]
  exact restores_node hTags hv hAccepts (hLoc fun _ _ => trivial)

end Variant
end TreeLowering
