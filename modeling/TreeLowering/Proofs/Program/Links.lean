import TreeLowering.Proofs.Json.Members
import TreeLowering.Proofs.Program.Reload

/-! # Links of declared bindings

A declared binding is an alias if it has one identifier, a text, and one link that is written for a
reference. Whatever else stands under `link` is ignored, and the binding is a variable. -/
namespace TreeLowering
set_option autoImplicit false

open Member

namespace Decoder

variable {α : Type}

theorem text_eq_ok_iff {source : Source} {j : Json} {s : String} : text source j = .ok s ↔ j = .string s := by
  cases j <;> simp [text, throw, throwThe, MonadExceptOf.throw, pure, Except.pure]

theorem natural_eq_ok_iff {source : Source} {j : Json} {n : Nat} :
    natural source j = .ok n ↔ ∃ m, j = .number m ∧ m.natural? = some n := by
  cases j with
  | number m =>
    cases hNatural : m.natural? <;>
      simp [natural, hNatural, throw, throwThe, MonadExceptOf.throw, pure, Except.pure]
  | _ => simp [natural, throw, throwThe, MonadExceptOf.throw]

theorem firstOf_memory_iff {type : String} {forms : List (Decoder α)} {j : Json} {a : α} :
    firstOf type forms .memory j = .ok a ↔ forms.findSome? (fun d => (d .memory j).toOption) = some a := by
  have hHold : Source.memory.hold j = .ok () := rfl
  rw [firstOf, hHold]
  cases hFound : forms.findSome? (fun d => (d .memory j).toOption) with
  | some b => simp [bind, Except.bind, pure, Except.pure]
  | none => simp [bind, Except.bind, throw, throwThe, MonadExceptOf.throw]

/-- The second form is tried only where the first one fails. -/
theorem firstOf_pair_iff {type : String} {d e : Decoder α} {j : Json} {a : α} :
    firstOf type [d, e] .memory j = .ok a ↔
      d .memory j = .ok a ∨ (∀ b, d .memory j ≠ .ok b) ∧ e .memory j = .ok a := by
  rw [firstOf_memory_iff, List.findSome?_cons]
  cases d .memory j with
  | ok b => simp [Except.toOption]
  | error _ =>
    rw [List.findSome?_cons]
    cases e .memory j <;> simp [Except.toOption]

/-- Alternatives are tried on a value that can be held. -/
theorem holdable_of_firstOf {type : String} {forms : List (Decoder α)} {depth : Nat} {j : Json} {a : α}
    (h : firstOf type forms (.text depth) j = .ok a) :
    j.holdable depth = true ∧ firstOf type forms .memory j = .ok a := by
  obtain ⟨_, hHold, hRest⟩ := exists_of_bind_eq_ok h
  rw [Source.hold] at hHold
  split at hHold
  · rename_i hHoldable
    exact ⟨hHoldable, hRest⟩
  · cases hHold

end Decoder

theorem Json.holdable_of_mem_valuesOf {ms : List Member} {depth : Nat} (h : membersHoldable depth ms = true)
    {key : String} {j : Json} (hj : j ∈ valuesOf key ms) : j.holdable depth = true := by
  obtain ⟨m, hm, rfl⟩ := List.mem_map.mp hj
  exact (holdable_of_mem_members h m (List.mem_of_mem_filter hm)).2

namespace Reference

/-- The value is written for the reference: with a scope and a name, or else with a scope and a position.
Other members do not matter. -/
inductive WrittenAs : Reference → Json → Prop where
  | named {ms : List Member} {scope : Numeral} {s : Nat} {name : String}
    (hScope : valuesOf "scope" ms = [.number scope]) (hNumber : scope.natural? = some s)
    (hName : valuesOf "name" ms = [.string name]) : WrittenAs (.named s name) (.object ms)
  | slot {ms : List Member} {scope index : Numeral} {s i : Nat}
    (hScope : valuesOf "scope" ms = [.number scope]) (hNumber : scope.natural? = some s)
    (hIndex : valuesOf "index" ms = [.number index]) (hPosition : index.natural? = some i)
    (hUnnamed : ∀ name, valuesOf "name" ms ≠ [.string name]) : WrittenAs (.slot s i) (.object ms)

theorem named_object_iff {ms : List Member} {depth : Nat} (h : Json.membersHoldable depth ms = true)
    {ref : Reference} : namedRecord.object .memory (.object ms) = .ok ref ↔
      ∃ scope s name, valuesOf "scope" ms = [.number scope] ∧ scope.natural? = some s ∧
        valuesOf "name" ms = [.string name] ∧ .named s name = ref := by
  rw [namedRecord, Record.object_pair_iff (by decide) h]
  constructor
  · rintro ⟨i, j, s, name, hi, hs, hj, hn, hRef⟩
    obtain ⟨scope, rfl, hNumber⟩ := Decoder.natural_eq_ok_iff.mp hs
    cases Decoder.text_eq_ok_iff.mp hn
    exact ⟨scope, s, name, hi, hNumber, hj, hRef⟩
  · rintro ⟨scope, s, name, hScope, hNumber, hName, hRef⟩
    exact ⟨_, _, s, name, hScope, Decoder.natural_eq_ok_iff.mpr ⟨scope, rfl, hNumber⟩, hName, rfl, hRef⟩

theorem slot_object_iff {ms : List Member} {depth : Nat} (h : Json.membersHoldable depth ms = true)
    {ref : Reference} : slotRecord.object .memory (.object ms) = .ok ref ↔
      ∃ scope index s i, valuesOf "scope" ms = [.number scope] ∧ scope.natural? = some s ∧
        valuesOf "index" ms = [.number index] ∧ index.natural? = some i ∧ .slot s i = ref := by
  rw [slotRecord, Record.object_pair_iff (by decide) h]
  constructor
  · rintro ⟨v, w, s, i, hv, hs, hw, hi, hRef⟩
    obtain ⟨scope, rfl, hNumber⟩ := Decoder.natural_eq_ok_iff.mp hs
    obtain ⟨index, rfl, hPosition⟩ := Decoder.natural_eq_ok_iff.mp hi
    exact ⟨scope, index, s, i, hv, hNumber, hw, hPosition, hRef⟩
  · rintro ⟨scope, index, s, i, hScope, hNumber, hIndex, hPosition, hRef⟩
    exact ⟨_, _, s, i, hScope, Decoder.natural_eq_ok_iff.mpr ⟨scope, rfl, hNumber⟩, hIndex,
      Decoder.natural_eq_ok_iff.mpr ⟨index, rfl, hPosition⟩, hRef⟩

theorem decoder_eq_ok_iff {j : Json} {depth : Nat} (h : j.holdable depth = true) {ref : Reference} :
    decoder .memory j = .ok ref ↔ ref.WrittenAs j := by
  cases j with
  | object ms =>
    rw [Json.holdable, Bool.and_eq_true] at h
    rw [decoder, Decoder.firstOf_pair_iff, named_object_iff h.2, slot_object_iff h.2]
    constructor
    · rintro (⟨scope, s, name, hScope, hNumber, hName, rfl⟩ |
        ⟨hFails, scope, index, s, i, hScope, hNumber, hIndex, hPosition, rfl⟩)
      · exact .named hScope hNumber hName
      · refine .slot hScope hNumber hIndex hPosition fun name hName => hFails (.named s name) ?_
        exact (named_object_iff h.2).mpr ⟨scope, s, name, hScope, hNumber, hName, rfl⟩
    · rintro (⟨hScope, hNumber, hName⟩ | ⟨hScope, hNumber, hIndex, hPosition, hUnnamed⟩)
      · exact .inl ⟨_, _, _, hScope, hNumber, hName, rfl⟩
      · refine .inr ⟨fun ref hNamed => ?_, _, _, _, _, hScope, hNumber, hIndex, hPosition, rfl⟩
        obtain ⟨_, _, name, _, _, hName, _⟩ := (named_object_iff h.2).mp hNamed
        exact hUnnamed name hName
  | _ =>
    rw [decoder, Decoder.firstOf_pair_iff]
    constructor
    · rintro (⟨⟨⟩⟩ | ⟨_, ⟨⟩⟩)
    · rintro ⟨⟩

end Reference

namespace BindingDecl

/-- The members are those of an alias. -/
structure IsAlias (ms : List Member) (identifier : String) (ref : Reference) : Prop where
  identifier : valuesOf "identifier" ms = [.string identifier]
  link : ∃ j, valuesOf "link" ms = [j] ∧ ref.WrittenAs j

theorem alias_object_iff {ms : List Member} {depth : Nat} (h : Json.membersHoldable depth ms = true)
    {declared : BindingDecl} : aliasRecord.object .memory (.object ms) = .ok declared ↔
      ∃ identifier ref, IsAlias ms identifier ref ∧ .linked identifier ref = declared := by
  have hLink {j : Json} (hj : valuesOf "link" ms = [j]) : j.holdable depth = true :=
    Json.holdable_of_mem_valuesOf h (hj ▸ List.mem_singleton.mpr rfl)
  rw [aliasRecord, Record.object_pair_iff (by decide) h]
  constructor
  · rintro ⟨i, j, identifier, ref, hi, hText, hj, hRef, hDeclared⟩
    cases Decoder.text_eq_ok_iff.mp hText
    exact ⟨identifier, ref, ⟨hi, j, hj, (Reference.decoder_eq_ok_iff (hLink hj)).mp hRef⟩, hDeclared⟩
  · rintro ⟨identifier, ref, ⟨hIdentifier, j, hj, hWritten⟩, hDeclared⟩
    have hRef := (Reference.decoder_eq_ok_iff (hLink hj)).mpr hWritten
    exact ⟨_, j, identifier, ref, hIdentifier, rfl, hj, hRef, hDeclared⟩

theorem knows_var : varRecord.Knows ["identifier", "storage", "access", "target", "desired", "container"] :=
  (Record.knows_field "identifier" _ _).and ((Record.knows_field "storage" _ _).and
    ((Record.knows_field "access" _ _).and ((Record.knows_field "target" _ _).and
      ((Record.knows_field "desired" _ _).and (Record.knows_field "container" _ _)))))

theorem var_object_ne_linked {ms : List Member} {identifier : String} {ref : Reference} :
    varRecord.object .memory (.object ms) ≠ .ok (.linked identifier ref) := by
  intro h
  obtain ⟨_, _, hVar⟩ := Record.reads_map_iff.mp (Record.reads_of_members h)
  cases hVar

/-- A variable is the same without its links. -/
theorem decoder_without_link {ms : List Member} {depth : Nat} (h : Json.membersHoldable depth ms = true)
    {declared : BindingDecl} (hVar : varRecord.object .memory (.object ms) = .ok declared) :
    decoder .memory (.object (ms.filter fun m => m.key ≠ some "link")) = .ok declared := by
  have hNeeds : aliasRecord.Needs "link" := Record.Needs.map ((Record.needs_required "link" Reference.decoder).and _) _
  have hValues : ∀ m ∈ ms, m.value.wellFormed = true := fun m hm =>
    m.value.wellFormed_of_holdable (Json.holdable_of_mem_members h m hm).2
  rw [decoder, Decoder.firstOf_pair_iff]
  refine .inr ⟨fun b hAlias => ?_, ?_⟩
  · exact hNeeds.members_ne_ok (fun m hm => of_decide_eq_true (List.mem_filter.mp hm).2) .memory b hAlias
  · rw [Record.object_memory_iff hValues] at hVar
    rw [Record.object_memory_iff fun m hm => hValues m (List.mem_of_mem_filter hm)]
    exact hVar.without knows_var (by decide)

theorem decoder_object {ms : List Member} {depth : Nat} {declared : BindingDecl}
    (h : decoder (.text depth) (.object ms) = .ok declared) :
    (∀ identifier ref, declared = .linked identifier ref ↔ IsAlias ms identifier ref) ∧
      ((∀ identifier ref, ¬IsAlias ms identifier ref) →
        decoder .memory (.object (ms.filter fun m => m.key ≠ some "link")) = .ok declared) := by
  obtain ⟨hHoldable, hForms⟩ := Decoder.holdable_of_firstOf h
  rw [Json.holdable, Bool.and_eq_true] at hHoldable
  rcases Decoder.firstOf_pair_iff.mp hForms with hAlias | ⟨hFails, hVar⟩
  · obtain ⟨identifier, ref, hIsAlias, rfl⟩ := (alias_object_iff hHoldable.2).mp hAlias
    refine ⟨fun identifier' ref' => ⟨?_, fun h' => ?_⟩, fun hNone => absurd hIsAlias (hNone identifier ref)⟩
    · rintro ⟨⟩
      exact hIsAlias
    · exact Except.ok.inj (hAlias.symm.trans ((alias_object_iff hHoldable.2).mpr ⟨identifier', ref', h', rfl⟩))
  · refine ⟨fun identifier ref => ⟨?_, fun h' => ?_⟩, fun _ => decoder_without_link hHoldable.2 hVar⟩
    · rintro rfl
      exact absurd hVar var_object_ne_linked
    · exact absurd ((alias_object_iff hHoldable.2).mpr ⟨identifier, ref, h', rfl⟩) (hFails _)

end BindingDecl

theorem ScopeDecl.gives_bindings : record.Gives "bindings" 2 BindingDecl.decoder.list bindings :=
  (((Record.gives_field "bindings" BindingDecl.decoder.list (some [])).behind _ _ (Record.knows_field _ _ _)
    (by decide)).behind _ _ ((Record.knows_field "kind" _ _).and (Record.knows_field "bindings" _ _))
    (by decide)).map fun _ => rfl

namespace Document

theorem gives_scopes : record.Gives "scopes" 0 ScopeDecl.decoder.list scopes :=
  ((Record.gives_field "scopes" ScopeDecl.decoder.list (some [])).left (Record.knows_field _ _ _)
    (Record.knows_field "root" _ _) (by decide)).map fun _ => rfl

/-- In the value of a document, the binding at position `k` of the scope at position `i`. -/
def BindingAt (document : Json) (i k : Nat) (binding : Json) : Prop :=
  ∃ scopes scope bindings, document.Field "scopes" 0 (.array scopes) ∧ scopes[i]? = some scope ∧
    scope.Field "bindings" 2 (.array bindings) ∧ bindings[k]? = some binding

theorem exists_declared {j : Json} {d : Document} (h : decoder (.text 0) j = .ok d) {i k : Nat} {binding : Json}
    (hBinding : BindingAt j i k binding) : ∃ scope declared depth, d.scopes[i]? = some scope ∧
      scope.bindings[k]? = some declared ∧ BindingDecl.decoder (.text depth) binding = .ok declared := by
  obtain ⟨scopes, value, bindings, hScopes, hValue, hBindings, hk⟩ := hBinding
  obtain ⟨scope, hScope, hDecode⟩ := Decoder.list_getElem? (gives_scopes.decoder h hScopes) hValue
  obtain ⟨declared, hDeclared, hDecode⟩ :=
    Decoder.list_getElem? (ScopeDecl.gives_bindings.decoder hDecode hBindings) hk
  exact ⟨scope, declared, _, hScope, hDeclared, hDecode⟩

/-- A document that declares one binding, `y`, with this link. -/
def linkDocument (link : Json) : Json :=
  .object [.entry "scopes" (.array [.object [.entry "parent" (.ofNat 0),
      .entry "bindings" (.array [.object [.entry "identifier" (.string "y"), .entry "link" link]])]]),
    .entry "root" (.object [.entry "type" (.string "file"), .entry "scope" (.ofNat 1), .entry "stmts" (.array [])])]

theorem writable_linkDocument {link : Json} (h : link.Writable) : (linkDocument link).Writable := by
  simp [linkDocument, Json.writable_object_iff, Json.writable_array_iff, Json.Writable.string, Member.entry,
    Member.key, Member.value, h, Json.writable_ofNat (n := 0) (by decide), Json.writable_ofNat (n := 1) (by decide)]

theorem exists_load_linkDocument {link : Json} (h : link.Writable) {p : Document → Bool} (file : String)
    (hDecode : (decoder (.text 0) (linkDocument link)).toOption.any p = true) :
    ∃ d, load (linkDocument link).pretty file = .ok d ∧ p d = true := by
  cases hResult : decoder (.text 0) (linkDocument link) with
  | error e =>
    rw [hResult] at hDecode
    cases hDecode
  | ok d =>
    rw [hResult] at hDecode
    exact ⟨d, load_eq_ok_iff.mpr (Decoder.load_pretty (writable_linkDocument h) hResult), hDecode⟩

theorem bindingAt_linkDocument {link : Json} (h : link.Writable) :
    BindingAt (Json.read (linkDocument link).pretty.toList).1 0 0
      (.object [.entry "identifier" (.string "y"), .entry "link" link]) := by
  rw [Json.pretty, String.toList_ofList, Json.read_pretty (writable_linkDocument h)]
  exact ⟨_, _, _, .member (.head _), rfl, .member (.head _), rfl⟩

/-- Where a document loads, a binding that is written as an object is linked exactly if the object is that
of an alias; otherwise it is what the object declares without its link. -/
theorem linked_iff_alias {text file : String} {d : Document} (h : load text file = .ok d) {i k : Nat}
    {ms : List Member} (hBinding : BindingAt (Json.read text.toList).1 i k (.object ms)) :
    ∃ scope declared, d.scopes[i]? = some scope ∧ scope.bindings[k]? = some declared ∧
      (∀ identifier ref, declared = .linked identifier ref ↔ BindingDecl.IsAlias ms identifier ref) ∧
      ((∀ identifier ref, ¬BindingDecl.IsAlias ms identifier ref) →
        BindingDecl.decoder .memory (.object (ms.filter fun m => m.key ≠ some "link")) = .ok declared) := by
  have hDecode := Decoder.decodes_of_load (load_eq_ok_iff.mp h)
  obtain ⟨scope, declared, depth, hScope, hDeclared, hDecoded⟩ := exists_declared hDecode hBinding
  exact ⟨scope, declared, hScope, hDeclared, BindingDecl.decoder_object hDecoded⟩

/-- A link by name, among members that do not matter. -/
def wideLink : Json :=
  .object [.entry "name" (.string "x"), .entry "index" .null, .entry "scope" (.ofNat 1), .entry "note" .null]

theorem wideLink_makes_alias : ∃ d scope, load (linkDocument wideLink).pretty "wide.json" = .ok d ∧
    d.scopes[0]? = some scope ∧ scope.bindings[0]? = some (.linked "y" (.named 1 "x")) := by
  have hWritable : wideLink.Writable := by
    simp [wideLink, Json.writable_object_iff, Json.Writable.string, Json.Writable.null, Member.entry, Member.key,
      Member.value, Json.writable_ofNat (n := 1) (by decide)]
  obtain ⟨d, hLoad, _⟩ := exists_load_linkDocument (p := fun _ => true) hWritable "wide.json" (by decide +kernel)
  obtain ⟨scope, declared, hScope, hDeclared, hLinked, _⟩ :=
    linked_iff_alias hLoad (bindingAt_linkDocument hWritable)
  have hAlias : BindingDecl.IsAlias [.entry "identifier" (.string "y"), .entry "link" wideLink] "y" (.named 1 "x") :=
    ⟨rfl, wideLink, rfl, .named rfl (Numeral.natural?_ofNat (by decide)) rfl⟩
  rw [(hLinked _ _).mpr hAlias] at hDeclared
  exact ⟨d, scope, hLoad, hScope, hDeclared⟩

/-- A link to a scope, with neither a name nor a position. -/
def vagueLink : Json := .object [.entry "scope" (.ofNat 1)]

/-- Such a link is dropped without a word, and the binding is a variable of its own. -/
theorem vagueLink_makes_variable : ∃ d, load (linkDocument vagueLink).pretty "vague.json" = .ok d ∧
    d.scopes = [⟨0, .function, [.var (some "y") "LOCAL" "BARE" none none none]⟩] := by
  have hWritable : vagueLink.Writable := by
    simp [vagueLink, Json.writable_object_iff, Member.entry, Member.key, Member.value,
      Json.writable_ofNat (n := 1) (by decide)]
  obtain ⟨d, hLoad, hScopes⟩ := exists_load_linkDocument
    (p := fun d => d.scopes = [⟨0, .function, [.var (some "y") "LOCAL" "BARE" none none none]⟩]) hWritable
    "vague.json" (by decide +kernel)
  exact ⟨d, hLoad, of_decide_eq_true hScopes⟩

end Document
end TreeLowering
