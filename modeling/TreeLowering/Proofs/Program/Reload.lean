import TreeLowering.Proofs.Program.NodeCodec

/-! # Documents are loaded from what is written for them

A document that was loaded is loaded again, unchanged, from its written text. -/
namespace TreeLowering
set_option autoImplicit false

open Decoder Record Variant

/-! ## Declared scopes -/

namespace BindingDecl

theorem alias_yields : aliasRecord.Yields fun d => decoder.Restores d.toJson d := by
  refine Record.Yields.map ((keeps_required keeps_text "identifier").and (keeps_required Reference.keeps "link")
    (by decide)) ?_
  rintro ⟨identifier, link⟩ h
  have hObject := ((h ⟨trivial, trivial⟩).map fun p => linked p.1 p.2).object
  refine restores_firstOf [] [varRecord.object] hObject ?_
  rintro d ⟨⟩

theorem keeps_name (name : String) : (Record.optional name .text).Keeps [name] (fun _ => True)
    fun o => [.entry name (.ofString? o)] := by
  refine (keeps_nullable keeps_text (fun _ => Json.noConfusion) name).mono fun o h _ => ?_
  cases o with
  | none => exact h (by rintro a ⟨⟩)
  | some s => exact h fun _ _ => trivial

theorem var_yields : varRecord.Yields fun d => decoder.Restores d.toJson d := by
  refine Record.Yields.map ((keeps_name "identifier").and
    ((keeps_withDefault keeps_text "storage" "LOCAL" (restores_text "LOCAL")).and
      ((keeps_withDefault keeps_text "access" "BARE" (restores_text "BARE")).and
        ((keeps_name "target").and ((keeps_name "desired").and (keeps_name "container") (by decide)) (by decide))
        (by decide)) (by decide)) (by decide)) ?_
  rintro ⟨identifier, storage, access, target, desired, container⟩ h
  have hObject := ((h ⟨trivial, trivial, trivial, trivial, trivial, trivial⟩).map fun p =>
    var p.1 p.2.1 p.2.2.1 p.2.2.2.1 p.2.2.2.2.1 p.2.2.2.2.2).object
  -- The alias is tried first and fails for want of a link, whatever the identifier is.
  refine restores_firstOf [aliasRecord.object] [] hObject ?_
  rw [List.forall_mem_singleton]
  have hLink : aliasRecord.Needs "link" := Needs.map ((needs_required "link" Reference.decoder).and _) _
  exact hLink.object_toOption (by simp [Member.entry, Member.key])

theorem keeps : decoder.Keeps (fun _ => True) toJson := by
  have hForms : ∀ d ∈ [aliasRecord.object, varRecord.object], d.Yields fun b => decoder.Restores b.toJson b := by
    rw [List.forall_mem_cons, List.forall_mem_singleton]
    exact ⟨alias_yields.object, var_yields.object⟩
  exact fun source j b h _ => yields_firstOf hForms source j b h

end BindingDecl

theorem DeclaredKind.restores (kind : DeclaredKind) : DeclaredKind.decoder.Restores (.string kind.label) kind :=
  restores_choice (by cases kind <;> rfl)

theorem ScopeDecl.keeps : ScopeDecl.decoder.Keeps (fun _ => True) ScopeDecl.toJson := by
  have hKind : DeclaredKind.decoder.Keeps (fun _ => True) fun kind => .string kind.label :=
    fun _ _ kind _ _ => kind.restores
  refine Record.Keeps.decoder_map ((keeps_required keeps_natural "parent").and
    ((keeps_withDefault hKind "kind" .function (DeclaredKind.restores .function)).and
      (keeps_withDefault BindingDecl.keeps.list "bindings" [] (restores_nil _)) (by decide)) (by decide)) ?_
  rintro ⟨parent, kind, bindings⟩
  exact ⟨rfl, fun _ => ⟨trivial, trivial, fun _ _ => trivial⟩⟩

/-! ## Documents -/

theorem Program.rootDecoder_keeps :
    Program.rootDecoder.Keeps (fun p => Rereading stmtsLiterals p.body) Program.toJson := by
  apply Variant.keeps_decoder
  · exact List.nodup_singleton "file"
  · rw [List.forall_mem_singleton]
    refine Variant.keeps_ofRecord ((keeps_required (stmts_keeps (nodeDecoders_keep _).2) "stmts").and
      (keeps_required keeps_natural "scope") (by decide)) (by decide) ?_
    rintro ⟨body, scope⟩
    exact ⟨rfl, fun h => ⟨h, trivial⟩⟩

namespace Document

/-- The number literals of the program. -/
def literals (d : Document) : List Binary64 := stmtsLiterals d.program.body

theorem decoder_keeps : decoder.Keeps (Rereading literals) toJson := by
  refine Record.Keeps.decoder_map ((keeps_withDefault ScopeDecl.keeps.list "scopes" [] (restores_nil _)).and
    (keeps_required Program.rootDecoder_keeps "root") (by decide)) ?_
  rintro ⟨scopes, program⟩
  exact ⟨rfl, fun h => ⟨fun _ _ => trivial, h⟩⟩

theorem load_eq_ok_iff {text file : String} {d : Document} :
    load text file = .ok d ↔ decoder.load text.toList = .ok d := by
  rw [load]
  cases decoder.load text.toList with
  | ok d' => constructor <;> (rintro ⟨⟩; rfl)
  | error e => constructor <;> rintro ⟨⟩

/-- Writing loses nothing: what was loaded is loaded again from its written text, and is written the same. -/
theorem load_write {raw file : String} {d : Document} (h : load raw file = .ok d)
    (hLiterals : ∀ x ∈ d.literals, x.Rereads) (hNesting : d.toJson.depth ≤ Json.nestingLimit) (file' : String) :
    load d.write file' = .ok d ∧ (load d.write file').map write = .ok d.write := by
  have hLoad : load d.write file' = .ok d :=
    load_eq_ok_iff.mpr (decoder_keeps.load (load_eq_ok_iff.mp h) hLiterals hNesting)
  exact ⟨hLoad, by rw [hLoad]; rfl⟩

/-- A document in few words: most fields are left out, and the others stand in no particular order. -/
def sparseText : String :=
  "\x7b\"scopes\":[\x7b\"parent\":0,\"bindings\":[
  \x7b\"identifier\":\"a\",\"link\":\x7b\"index\":0,\"scope\":1\x7d\x7d,\x7b\x7d]\x7d],
  \"root\":\x7b\"scope\":1,\"stmts\":[\x7b\"type\":\"return\",\"location\":\x7b\"line\":3\x7d,
  \"expr\":\x7b\"val\":5e-1,\"type\":\"number\"\x7d\x7d],\"type\":\"file\"\x7d\x7d"

/-- The scope that it declares, with a linked binding and one that is all defaults. -/
def sparseScope : ScopeDecl := ⟨0, .function, [.linked "a" (.slot 1 0), .var none "LOCAL" "BARE" none none none]⟩

theorem sparseText_reloads : ∃ d, load sparseText "sparse.json" = .ok d ∧ d.scopes = [sparseScope] ∧
    d.literals = [.ofRatio false 1 2] ∧ load d.write "written.json" = .ok d ∧
    (load d.write "written.json").map write = .ok d.write := by
  have hSparse : (load sparseText "sparse.json").toOption.any (fun d => d.scopes = [sparseScope] ∧
      d.literals = [.ofRatio false 1 2] ∧ d.toJson.depth ≤ Json.nestingLimit) = true := by decide +kernel
  cases hLoad : load sparseText "sparse.json" with
  | error e =>
    rw [hLoad] at hSparse
    cases hSparse
  | ok d =>
    rw [hLoad] at hSparse
    obtain ⟨hScopes, hLiterals, hNesting⟩ := of_decide_eq_true hSparse
    have hRereads : ∀ x ∈ d.literals, x.Rereads := by
      rw [hLiterals]
      decide +kernel
    exact ⟨d, rfl, hScopes, hLiterals, load_write hLoad hRereads hNesting "written.json"⟩

end Document
end TreeLowering
