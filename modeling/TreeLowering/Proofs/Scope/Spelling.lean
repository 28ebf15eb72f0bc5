import TreeLowering.Emit.Setting
import TreeLowering.Proofs.Scope.Provenance

/-! # Characters of emitted names

If all names of a document, of its registry and of its options keep to a class of characters, so does
every text that lowering gets from the finished tree. -/
namespace TreeLowering
set_option autoImplicit false

/-- All characters of the text are in a class. -/
def Spelled (q : Char → Prop) (s : String) : Prop := ∀ c ∈ s.toList, q c

instance (q : Char → Prop) [DecidablePred q] (s : String) : Decidable (Spelled q s) :=
  inferInstanceAs (Decidable (∀ c ∈ s.toList, q c))

/-- A class that has every character that names are put together with. -/
structure NameClass (q : Char → Prop) : Prop where
  word : ∀ c : Char, c.isAlphanum = true → q c
  dollar : q '$'
  dot : q '.'

variable {q : Char → Prop}

namespace Spelled

theorem mono {r : Char → Prop} {s : String} (h : Spelled q s) (hqr : ∀ c, q c → r c) : Spelled r s :=
  fun c hc => hqr c (h c hc)

theorem append {s t : String} (hs : Spelled q s) (ht : Spelled q t) : Spelled q (s ++ t) := by
  intro c hc
  rw [String.toList_append, List.mem_append] at hc
  exact hc.elim (hs c) (ht c)

theorem join {separator : String} {names : List String} (hSeparator : Spelled q separator)
    (hNames : ∀ s ∈ names, Spelled q s) : Spelled q (Text.join separator names) := by
  induction names with
  | nil => simp [Spelled, Text.join]
  | cons s names ih =>
    rw [List.forall_mem_cons] at hNames
    cases names with
    | nil => simpa [Text.join] using hNames.1
    | cons t names =>
      rw [Text.join, String.intercalate_cons_of_ne_nil (List.cons_ne_nil t names)]
      exact (hNames.1.append hSeparator).append (ih hNames.2)

theorem suffixed (hq : NameClass q) {candidate : String} (h : Spelled q candidate) (n : Nat) :
    Spelled q (suffixed candidate n) := by
  intro c hc
  rw [toList_suffixed, List.mem_append, List.mem_cons] at hc
  rcases hc with hc | rfl | hc
  · exact h c hc
  · exact hq.dollar
  · apply hq.word
    have hDigit := Nat.isDigit_of_mem_toDigits (by decide) (by decide) hc
    simp [Char.isAlphanum, hDigit]

theorem namedAfter (hq : NameClass q) {candidate name : String} (h : Spelled q candidate)
    (hName : NamedAfter candidate name) : Spelled q name := by
  rcases hName with rfl | ⟨n, rfl⟩
  · exact h
  · exact h.suffixed hq n

end Spelled

theorem NameClass.spelled (hq : NameClass q) {s : String}
    (h : ∀ c ∈ s.toList, c.isAlphanum = true ∨ c = '$' ∨ c = '.') : Spelled q s := by
  intro c hc
  rcases h c hc with hWord | rfl | rfl
  · exact hq.word c hWord
  · exact hq.dollar
  · exact hq.dot

/-! ## What a finished tree answers -/

/-- The target and the container of a variable keep to a class. -/
structure Variable.SpelledIn (q : Char → Prop) (v : Variable) : Prop where
  target : ∀ name ∈ v.target.name?, Spelled q name
  container : ∀ name ∈ v.container, Spelled q name

def Tree.SpelledIn (q : Char → Prop) (t : Tree) : Prop :=
  ∀ b v, t.entryAt? b = some (.var v) → v.SpelledIn q

namespace Tree.SpelledIn

variable {t : Tree} (h : t.SpelledIn q)

include h

theorem variableOf {b : Nat} {v : Variable} (hv : t.variableOf b = .ok v) : v.SpelledIn q := by
  rw [Tree.variableOf] at hv
  split at hv
  · rename_i w hw
    cases hv
    rw [variableBehind?] at hw
    split at hw
    · rename_i x hx
      cases hw
      exact h _ v hx
    · cases hw
  · cases hv

theorem targetIdentifier {b : Nat} {name : String} (hName : t.targetIdentifier b = .ok name) :
    Spelled q name := by
  obtain ⟨v, hv, hTarget⟩ := exists_of_bind_eq_ok hName
  split at hTarget
  · rename_i found hFound
    cases hTarget
    exact (h.variableOf hv).target name hFound
  · cases hTarget

theorem bindingText (hq : NameClass q) {b : Nat} {text : String} (hText : t.bindingText b = .ok text) :
    Spelled q text := by
  obtain ⟨name, hName, hRest⟩ := exists_of_bind_eq_ok hText
  obtain ⟨v, hv, hResult⟩ := exists_of_bind_eq_ok hRest
  have hTarget := h.targetIdentifier hName
  split at hResult
  · rename_i container _ hContainer
    cases hResult
    exact (((h.variableOf hv).container _ hContainer).append (hq.spelled (by simp))).append hTarget
  · cases hResult
    exact hTarget

end Tree.SpelledIn

namespace Setting

variable {g : Setting} (hg : g.tree.SpelledIn q)

include hg

theorem spelled_referenceText (hq : NameClass q) {ref : Reference} {text : String}
    (h : g.referenceText ref = .ok text) : Spelled q text := by
  obtain ⟨b, _, hText⟩ := exists_of_bind_eq_ok h
  exact hg.bindingText hq hText

theorem spelled_identifierText (hq : NameClass q) {name text : String} {ref : Option Reference}
    (hName : Spelled q name) (h : g.identifierText name ref = .ok text) : Spelled q text := by
  cases ref with
  | none =>
    cases h
    exact hName
  | some ref => exact spelled_referenceText hg hq h

theorem spelled_declaredName {name text : String} {ref : Option Reference} (hName : Spelled q name)
    (h : g.declaredName name ref = .ok text) : Spelled q text := by
  cases ref with
  | none =>
    cases h
    exact hName
  | some ref =>
    obtain ⟨b, _, hText⟩ := exists_of_bind_eq_ok h
    exact hg.targetIdentifier hText

theorem spelled_localTargetOrName {s : Nat} {name text : String} (hName : Spelled q name)
    (h : g.localTargetOrName s name = .ok text) : Spelled q text := by
  obtain ⟨found, _, hText⟩ := exists_of_bind_eq_ok h
  cases found with
  | none =>
    cases hText
    exact hName
  | some b => exact hg.targetIdentifier hText

omit hg in
theorem spelled_of_mapM {α : Type} {f : α → Result String} {xs : List α} {texts : List String}
    (hf : ∀ x ∈ xs, ∀ text, f x = .ok text → Spelled q text) (h : xs.mapM f = .ok texts) :
    ∀ text ∈ texts, Spelled q text := by
  induction xs generalizing texts with
  | nil =>
    cases h
    simp
  | cons x xs ih =>
    rw [List.mapM_cons] at h
    obtain ⟨text, hText, hRest⟩ := exists_of_bind_eq_ok h
    obtain ⟨others, hOthers, hCons⟩ := exists_of_bind_eq_ok hRest
    cases hCons
    rw [List.forall_mem_cons] at hf ⊢
    exact ⟨hf.1 text hText, ih hf.2 hOthers⟩

theorem spelled_parameterNames (hq : NameClass q) {params texts : List String} {s : Nat}
    (hParams : ∀ name ∈ params, Spelled q name) (h : g.parameterNames params s = .ok texts) :
    ∀ text ∈ texts, Spelled q text := by
  refine spelled_of_mapM ?_ h
  rw [List.forall_mem_cons]
  exact ⟨fun _ hText => spelled_localTargetOrName hg (hq.spelled (by simp [otherName])) hText,
    fun name hName _ hText => spelled_localTargetOrName hg (hParams name hName) hText⟩

theorem spelled_innerSelf (hq : NameClass q) {s : Nat} {loc : Option Location} {text : String}
    (h : g.innerSelf s loc = .ok text) : Spelled q text := by
  obtain ⟨found, _, hText⟩ := exists_of_bind_eq_ok h
  cases found with
  | none => cases hText
  | some b => exact hg.bindingText hq hText

theorem spelled_localNames {s : Nat} {texts : List String} (h : g.localNames s = .ok texts) :
    ∀ text ∈ texts, Spelled q text := by
  obtain ⟨f, _, hRest⟩ := exists_of_bind_eq_ok h
  obtain ⟨bs, _, hTexts⟩ := exists_of_bind_eq_ok hRest
  exact spelled_of_mapM (fun _ _ _ hText => hg.targetIdentifier hText) hTexts

end Setting

/-! ## Names of a document -/

/-- The texts that the target and the container of a declared variable are made from. -/
def BindingDecl.spellings : BindingDecl → List String
  | .linked .. => []
  | .var identifier _ _ fixed desired container =>
    identifier.toList ++ fixed.toList ++ desired.toList ++ container.toList

def ScopeDecl.spellings (d : ScopeDecl) : List String := d.bindings.flatMap BindingDecl.spellings

theorem spelled_candidateOf (hq : NameClass q) {v : Variable} {candidate : String}
    (hDesired : ∀ name ∈ v.target.desired?, Spelled q name) (hName : ∀ name ∈ v.identifier, Spelled q name)
    (h : Tree.candidateOf v = .ok candidate) : Spelled q candidate := by
  rw [Tree.candidateOf] at h
  split at h
  · cases h
    cases hWish : v.target.desired? with
    | some wish => exact hDesired wish hWish
    | none =>
      cases hWritten : v.identifier with
      | some name => exact hName name hWritten
      | none => exact hq.spelled (by simp [Tree.anonymousCandidate])
  · split at h
    · rename_i name hWritten
      cases h
      exact hName candidate hWritten
    · cases h

theorem BindingDecl.Declares.spelled (hq : NameClass q) {declared : BindingDecl} {v w : Variable}
    (hDeclares : declared.Declares (.var v)) (hFinishes : v.Finishes w)
    (hSpellings : ∀ s ∈ declared.spellings, Spelled q s) : w.SpelledIn q := by
  cases declared with
  | linked identifier link => exact hDeclares.elim
  | var identifier storage access fixed desired container =>
    obtain ⟨rfl, _, _, rfl, hTarget⟩ := hDeclares
    simp only [BindingDecl.spellings, List.forall_mem_append, Option.mem_toList] at hSpellings
    obtain ⟨⟨⟨hName, hFixed⟩, hDesired⟩, hContainer⟩ := hSpellings
    refine ⟨fun name hAssigned => ?_, fun name hHeld => hContainer name (hFinishes.container ▸ hHeld)⟩
    cases hFinishes with
    | kept =>
      cases fixed with
      | none =>
        rw [hTarget] at hAssigned
        cases hAssigned
      | some fixed =>
        rw [hTarget] at hAssigned
        cases hAssigned
        exact hFixed name rfl
    | named hPending hCandidate hChosen =>
      cases hAssigned
      refine Spelled.namedAfter hq (spelled_candidateOf hq ?_ hName hCandidate) hChosen
      cases fixed with
      | none =>
        rw [hTarget]
        exact hDesired
      | some fixed =>
        rw [hTarget] at hPending
        cases hPending

theorem Document.scopeTree_spelled (hq : NameClass q) {d : Document} {registry : Registry}
    {options : Options} {t : Tree} (h : d.scopeTree registry options = .ok t)
    (hGlobals : ∀ s ∈ registry.names ++ options.extraGlobals, Spelled q s)
    (hContainer : Spelled q options.runtime.globalsIdentifier)
    (hScopes : ∀ s ∈ d.scopes.flatMap ScopeDecl.spellings, Spelled q s) : t.SpelledIn q := by
  intro b w hw
  obtain ⟨name, hName, rfl⟩ | ⟨declared, v, ⟨s, i, scope, hScope, _, hDeclared⟩, hDeclares, hFinishes⟩ :=
    d.variable_origin h hw
  · constructor
    · rintro _ ⟨⟩
      exact hGlobals name hName
    · rintro _ ⟨⟩
      exact hContainer
  · refine hDeclares.spelled hq hFinishes fun text hText => hScopes text ?_
    exact List.mem_flatMap.mpr ⟨scope, List.mem_of_getElem? hScope,
      List.mem_flatMap.mpr ⟨declared, List.mem_of_getElem? hDeclared, hText⟩⟩

end TreeLowering
