import TreeLowering.Proofs.Json.ExplainedRecord
import TreeLowering.Proofs.Program.Codec

/-! # Why a document does not load

Tags, operators and kinds of scopes are words of closed lists. A failure to load is a word that is in none of
these lists, a text where something else is expected, or a cause that quotes nothing of the document. -/
namespace TreeLowering
set_option autoImplicit false

namespace Slot

def rootTag : Slot := ⟨"type", some 0, ["file"]⟩

def clauseTag : Slot := ⟨"type", some 0, ["case", "defaultcase"]⟩

def statementTag : Slot :=
  ⟨"type", none, ["var", "assign", "scriptdef", "const", "switch", "for", "if", "ifelse", "while", "dountil", "break",
    "continue", "statements", "with", "return", "exit", "object", "nop", "funccall", "jsfunccall"]⟩

def expressionTag : Slot :=
  ⟨"type", none, ["identifier", "binop", "unop", "number", "string", "index", "funccall", "script", "jsfunccall",
    "jsexpr"]⟩

def binaryOperator : Slot :=
  ⟨"op", none, [".", "div", "mod", "||", "&&", "^^", "+", "-", "*", "/", "==", "!=", "<", "<=", ">", ">=", "&", "|",
    "^", "<<", ">>"]⟩

def unaryOperator : Slot := ⟨"op", none, ["!", "-", "+", "~"]⟩

def scopeKind : Slot := ⟨"kind", some 1, ["function", "block"]⟩

end Slot

/-- The places of a document that take words of a closed list. -/
def Document.slots : List Slot :=
  [.rootTag, .clauseTag, .statementTag, .expressionTag, .binaryOperator, .unaryOperator, .scopeKind]

open Document (slots)
open Record (explainsMembers_field explainsItems_field)

/-! ## Fields -/

namespace Decoder

variable {α : Type} {d : Decoder α}

theorem Explained.member (h : d.Explained slots) {name : String} (hName : ¬LoadError.Mentions name)
    (default? : Option α) : (Record.field name d default?).ExplainsMembers slots :=
  explainsMembers_field hName (h.at _) default?

theorem Explained.item (h : d.Explained slots) (name : String) (offset : Nat) (default? : Option α) :
    (Record.field name d default?).ExplainsItems slots offset 1 :=
  explainsItems_field (h.at _) default?

end Decoder

open Decoder

theorem Location.explained : Location.decoder.Explained slots :=
  Record.ExplainsMembers.decoder
    (((explained_text.member (by decide) _).and ((explained_natural.member (by decide) _).and
      (explained_natural.member (by decide) _))).map _)
    (((explained_text.item "file" 0 _).and ((explained_natural.item "line" 1 _).and
      (explained_natural.item "column" 2 _))).map _)

theorem Reference.explained : Reference.decoder.Explained slots :=
  explained_firstOf (show ¬LoadError.Mentions _ by decide) _

theorem BindingDecl.explained : BindingDecl.decoder.Explained slots :=
  explained_firstOf (show ¬LoadError.Mentions _ by decide) _

theorem DeclaredKind.explainedAt {here : Slot → Prop} (h : here .scopeKind) :
    DeclaredKind.decoder.ExplainedAt slots here :=
  have hSlot : Slot.scopeKind ∈ slots := by simp [slots]
  explainedAt_choice hSlot rfl h

theorem BinaryOp.explainedAt {here : Slot → Prop} (h : here .binaryOperator) :
    BinaryOp.decoder.ExplainedAt slots here :=
  have hSlot : Slot.binaryOperator ∈ slots := by simp [slots]
  explainedAt_choice hSlot rfl h

theorem UnaryOp.explainedAt {here : Slot → Prop} (h : here .unaryOperator) :
    UnaryOp.decoder.ExplainedAt slots here :=
  have hSlot : Slot.unaryOperator ∈ slots := by simp [slots]
  explainedAt_choice hSlot rfl h

theorem ScopeDecl.explained : ScopeDecl.decoder.Explained slots :=
  Record.ExplainsMembers.decoder
    (((explained_natural.member (by decide) _).and
      ((explainsMembers_field (by decide) (DeclaredKind.explainedAt rfl) _).and
        (BindingDecl.explained.list.member (by decide) _))).map _)
    (((explained_natural.item "parent" 0 _).and
      ((explainsItems_field (DeclaredKind.explainedAt rfl) _).and
        (BindingDecl.explained.list.item "bindings" 2 _))).map _)

/-! ## Nodes -/

section Nodes

variable {expr : Decoder Expr} {stmt : Decoder Stmt} (hExpr : expr.Explained slots) (hStmt : stmt.Explained slots)

include hStmt in
theorem Function.explainsMembers : (Function.record stmt).ExplainsMembers slots :=
  ((explained_text.list.member (by decide) _).and ((hStmt.member (by decide) _).and
    (explained_natural.member (by decide) _))).map _

include hStmt in
theorem Function.explained : (Function.decoder stmt).Explained slots :=
  (explainsMembers hStmt).decoder (((explained_text.list.item "args" 0 _).and ((hStmt.item "stmts" 1 _).and
    (explained_natural.item "scope" 2 _))).map _)

include hExpr in
theorem Declarator.explained : (Declarator.decoder expr).Explained slots :=
  Record.ExplainsMembers.decoder
    (((explained_text.member (by decide) _).and ((hExpr.optional.member (by decide) _).and
      (Reference.explained.optional.member (by decide) _))).map _)
    (((explained_text.item "name" 0 _).and ((hExpr.optional.item "expr" 1 _).and
      (Reference.explained.optional.item "variable" 2 _))).map _)

include hStmt in
theorem Method.explained : (Method.decoder stmt).Explained slots :=
  (explained_text.member (by decide) _).around fun _ held _ he =>
    (Function.explainsMembers hStmt).members (List.Subset.refl held) (eq_error_of_map he)

include hExpr hStmt in
theorem Clause.explained : (Clause.decoder expr stmt).Explained slots := by
  have hSlot : Slot.clauseTag ∈ slots := by simp [slots]
  refine Variant.explained_decoder hSlot rfl rfl rfl ?_ ?_
  · simp only [List.forall_mem_cons]
    exact ⟨Variant.explainsObject_ofRecord (((hExpr.member (by decide) _).and (hStmt.member (by decide) _)).map _) _,
      Variant.explainsObject_ofRecord ((hStmt.member (by decide) _).map _) _, List.forall_mem_nil _⟩
  · simp only [List.forall_mem_cons]
    exact ⟨Variant.explainsArray_ofRecord (((hExpr.item "expr" 1 _).and (hStmt.item "stmts" 2 _)).map _) _,
      Variant.explainsArray_ofRecord ((hStmt.item "stmts" 1 _).map _) _, List.forall_mem_nil _⟩

include hExpr in
theorem Expr.call_explainsMembers : (Expr.callRecord expr).ExplainsMembers slots :=
  (hExpr.member (by decide) _).and ((hExpr.list.member (by decide) _).and
    ((explained_flag.member (by decide) _).and (explained_natural.member (by decide) _)))

include hExpr in
theorem Expr.rawCall_explainsMembers : (Expr.rawCallRecord expr).ExplainsMembers slots :=
  (explained_text.member (by decide) _).and (hExpr.list.member (by decide) _)

include hStmt in
theorem Stmt.object_explainsMembers : (Stmt.objectRecord stmt).ExplainsMembers slots :=
  have hFunction := Function.explained hStmt
  (explained_text.member (by decide) _).and ((explained_text.member (by decide) _).and
    ((hFunction.member (by decide) _).and ((hFunction.optional.member (by decide) _).and
      ((hFunction.optional.member (by decide) _).and ((Method.explained hStmt).list.member (by decide) _)))))

include hExpr hStmt in
theorem Stmt.with_explainsMembers : (Stmt.withRecord expr stmt).ExplainsMembers slots :=
  (hExpr.member (by decide) _).and ((hStmt.member (by decide) _).and ((explained_natural.member (by decide) _).and
    ((Reference.explained.member (by decide) _).and (Reference.explained.member (by decide) _))))

open Variant in
include hExpr hStmt in
theorem Expr.variants_explain : ∀ v ∈ Expr.variants expr stmt, v.ExplainsObject slots := by
  have hOp {α : Type} {d : Decoder α} (h : d.ExplainedAt slots (·.key = "op")) :=
    explainsMembers_field (by decide) h none
  simp only [Expr.variants, List.forall_mem_cons]
  exact ⟨explainsObject_ofRecord (((explained_text.member (by decide) _).and
      (Reference.explained.optional.member (by decide) _)).map _) _,
    explainsObject_ofRecord (((hOp (BinaryOp.explainedAt rfl)).and ((hExpr.member (by decide) _).and
      (hExpr.member (by decide) _))).map _) _,
    explainsObject_ofRecord (((hOp (UnaryOp.explainedAt rfl)).and (hExpr.member (by decide) _)).map _) _,
    explainsObject_ofRecord ((explained_double.member (by decide) _).map _) _,
    explainsObject_ofRecord ((explained_text.member (by decide) _).map _) _,
    explainsObject_ofRecord (((hExpr.member (by decide) _).and (hExpr.list.member (by decide) _)).map _) _,
    explainsObject_ofRecord ((call_explainsMembers hExpr).map _) _,
    explainsObject_ofRecord ((Function.explainsMembers hStmt).map _) _,
    explainsObject_ofRecord ((rawCall_explainsMembers hExpr).map _) _,
    explainsObject_ofRecord ((explained_text.member (by decide) _).map _) _, List.forall_mem_nil _⟩

open Variant in
include hExpr hStmt in
theorem Stmt.variants_explain : ∀ v ∈ Stmt.variants expr stmt, v.ExplainsObject slots := by
  simp only [Stmt.variants, List.forall_mem_cons]
  exact ⟨explainsObject_ofRecord (((Declarator.explained hExpr).list.member (by decide) _).map _) _,
    explainsObject_ofRecord (((hExpr.member (by decide) _).and (hExpr.member (by decide) _)).map _) _,
    explainsObject_ofRecord (((explained_text.member (by decide) _).and (Function.explainsMembers hStmt)).map _) _,
    explainsObject_ofRecord (((explained_text.member (by decide) _).and (hExpr.member (by decide) _)).map _) _,
    explainsObject_ofRecord (((hExpr.member (by decide) _).and
      ((Clause.explained hExpr hStmt).list.member (by decide) _)).map _) _,
    explainsObject_ofRecord (((hStmt.member (by decide) _).and ((hExpr.member (by decide) _).and
      ((hStmt.member (by decide) _).and (hStmt.member (by decide) _)))).map _) _,
    explainsObject_ofRecord (((hExpr.member (by decide) _).and (hStmt.member (by decide) _)).map _) _,
    explainsObject_ofRecord (((hExpr.member (by decide) _).and ((hStmt.member (by decide) _).and
      (hStmt.member (by decide) _))).map _) _,
    explainsObject_ofRecord (((hExpr.member (by decide) _).and (hStmt.member (by decide) _)).map _) _,
    explainsObject_ofRecord (((hStmt.member (by decide) _).and (hExpr.member (by decide) _)).map _) _,
    explainsObject_ofValue _ _, explainsObject_ofValue _ _,
    explainsObject_ofRecord ((hStmt.list.member (by decide) _).map _) _,
    explainsObject_ofRecord ((with_explainsMembers hExpr hStmt).map _) _,
    explainsObject_ofRecord ((hExpr.member (by decide) _).map _) _, explainsObject_ofValue _ _,
    explainsObject_ofRecord ((object_explainsMembers hStmt).map _) _, explainsObject_ofValue _ _,
    explainsObject_ofRecord ((Expr.call_explainsMembers hExpr).map _) _,
    explainsObject_ofRecord ((Expr.rawCall_explainsMembers hExpr).map _) _, List.forall_mem_nil _⟩

end Nodes

theorem explained_nodeDecoder {α : Type} {variants : List (Variant (Option Location → α))} {slot : Slot}
    (hSlot : slot ∈ slots) (hKey : slot.key = Variant.tagField) (hWords : slot.words = variants.map Variant.tag)
    (hVariants : ∀ v ∈ variants, v.ExplainsObject slots) : (nodeDecoder variants).Explained slots := by
  refine (Location.explained.optional.member (by decide) _).around fun loc held e he => ?_
  refine Variant.explains_members hSlot hKey hWords hVariants (List.Subset.refl held) (List.nil_subset held)
    (fun v hv => ?_) (eq_error_of_map he)
  cases hv

theorem explained_nodeDecoders (n : Nat) :
    (nodeDecoders n).1.Explained slots ∧ (nodeDecoders n).2.Explained slots := by
  induction n with
  | zero =>
    constructor
    · rintro source j e ⟨⟩
      exact Json.explains_malformed
    · rintro source j e ⟨⟩
      exact Json.explains_malformed
  | succ n ih =>
    have hExpression : Slot.expressionTag ∈ slots := by simp [slots]
    have hStatement : Slot.statementTag ∈ slots := by simp [slots]
    exact ⟨explained_nodeDecoder hExpression rfl rfl (Expr.variants_explain ih.1 ih.2),
      explained_nodeDecoder hStatement rfl rfl (Stmt.variants_explain ih.1 ih.2)⟩

/-! ## Documents -/

theorem Program.explained_rootDecoder : Program.rootDecoder.Explained slots := by
  have hSlot : Slot.rootTag ∈ slots := by simp [slots]
  have hStmts : Stmt.decoder.list.Explained slots := (explained_nodeDecoders _).2.list
  refine Variant.explained_decoder hSlot rfl rfl rfl ?_ ?_
  · simp only [List.forall_mem_cons]
    exact ⟨Variant.explainsObject_ofRecord (((hStmts.member (by decide) _).and
      (explained_natural.member (by decide) _)).map _) _, List.forall_mem_nil _⟩
  · simp only [List.forall_mem_cons]
    exact ⟨Variant.explainsArray_ofRecord (((hStmts.item "stmts" 1 _).and
      (explained_natural.item "scope" 2 _)).map _) _, List.forall_mem_nil _⟩

namespace Document

theorem explained : decoder.Explained slots :=
  Record.ExplainsMembers.decoder
    (((ScopeDecl.explained.list.member (by decide) _).and
      (Program.explained_rootDecoder.member (by decide) _)).map _)
    (((ScopeDecl.explained.list.item "scopes" 0 _).and (Program.explained_rootDecoder.item "root" 1 _)).map _)

theorem exists_explained_of_load {text file : String} {failure : Failure} (h : load text file = .error failure) :
    ∃ e, failure = .fault (.document file e) none ∧ (Json.read text.toList).1.Explains slots e := by
  rw [load] at h
  split at h
  · cases h
  · rename_i e hLoad
    cases h
    refine ⟨e, rfl, ?_⟩
    simp only [Decoder.load] at hLoad
    split at hLoad
    · rename_i hDecode
      cases hLoad
      exact explained _ _ _ hDecode
    · split at hLoad
      · cases hLoad
      · cases hLoad
        exact Json.explains_malformed

theorem kind_eq_unknownNodeKind_iff (file : String) {e : LoadError} :
    (Fault.document file e).kind = .unknownNodeKind ↔ LoadError.Mentions e.detail := by
  rw [Fault.kind]
  split
  · exact iff_of_true rfl ‹_›
  · exact iff_of_false (by decide) ‹_›

theorem kind_eq_malformedInput_iff (file : String) {e : LoadError} :
    (Fault.document file e).kind = .malformedInput ↔ ¬LoadError.Mentions e.detail := by
  rw [Fault.kind]
  split
  · exact iff_of_false (by decide) (not_not_intro ‹_›)
  · exact iff_of_true rfl ‹_›

/-- The cause with which a computation fails. -/
def cause? {α : Type} : Except LoadError α → Option LoadError
  | .error e => some e
  | .ok _ => none

theorem load_pretty_eq_error {j : Json} (hWritable : j.Writable) {e : LoadError}
    (h : cause? (decoder (.text 0) j) = some e) (file : String) :
    load j.pretty file = .error (.fault (.document file e) none) := by
  cases hDecode : decoder (.text 0) j with
  | ok d =>
    rw [hDecode] at h
    cases h
  | error e' =>
    rw [hDecode] at h
    cases h
    have hLoad : decoder.load j.pretty.toList = .error e := by
      rw [Json.pretty, String.toList_ofList, Decoder.load, Json.read_pretty hWritable]
      simp only [hDecode]
    rw [load, hLoad]
    rfl

/-- A document that returns the value of a node. -/
def returning (node : Json) : Json :=
  .object [.entry "root" (.object [.entry "type" (.string "file"), .entry "scope" (.ofNat 0),
    .entry "stmts" (.array [.object [.entry "type" (.string "return"), .entry "expr" node]])])]

theorem writable_returning {node : Json} (h : node.Writable) : (returning node).Writable := by
  simp [returning, Json.writable_object_iff, Json.writable_array_iff, Json.Writable.string, Member.entry, Member.key,
    Member.value, h, Json.writable_ofNat (n := 0) (by decide)]

/-- A document is refused for an unknown kind of node exactly if a word of it is none of its place, or if a text
of it stands where something else is expected and speaks of unknown variants. It is malformed otherwise. -/
theorem unknown_kind_iff_word_or_phrase {text file : String} {failure : Failure}
    (h : load text file = .error failure) :
    ∃ e, failure = .fault (.document file e) none ∧
      ((Fault.document file e).kind = .unknownNodeKind ↔
        (Json.read text.toList).1.UnknownWord slots e ∨
          ∃ s, e = .misplacedText s ∧ (Json.string s).Within (Json.read text.toList).1 ∧ LoadError.Mentions s) ∧
      ((Fault.document file e).kind = .malformedInput ↔ (Fault.document file e).kind ≠ .unknownNodeKind) := by
  obtain ⟨e, hFailure, hExplains⟩ := exists_explained_of_load h
  refine ⟨e, hFailure, ?_, ?_⟩
  · rw [kind_eq_unknownNodeKind_iff, hExplains.mentions_iff]
  · rw [kind_eq_malformedInput_iff, Ne, kind_eq_unknownNodeKind_iff]

/-- A node with a tag that no expression has. -/
def strayNode : Json := .object [.entry "type" (.string "num"), .entry "val" (.ofNat 1)]

theorem stray_tag_is_unknown_kind_of_node : ∃ e,
    load (returning strayNode).pretty "stray.json" = .error (.fault (.document "stray.json" e) none) ∧
      (Fault.document "stray.json" e).kind = .unknownNodeKind ∧
      (Json.read (returning strayNode).pretty.toList).1.UnknownWord slots e := by
  have hWritable : strayNode.Writable := by
    simp [strayNode, Json.writable_object_iff, Json.Writable.string, Member.entry, Member.key, Member.value,
      Json.writable_ofNat (n := 1) (by decide)]
  have hLoad : load (returning strayNode).pretty "stray.json" =
      .error (.fault (.document "stray.json" (.unknownVariant "num" Slot.expressionTag.words)) none) :=
    load_pretty_eq_error (writable_returning hWritable) (by decide +kernel) _
  obtain ⟨e, hFailure, hKind, -⟩ := unknown_kind_iff_word_or_phrase hLoad
  cases hFailure
  have hUnknown := (kind_eq_unknownNodeKind_iff "stray.json").mpr
    (LoadError.mentions_unknownVariant "num" Slot.expressionTag.words)
  rcases hKind.mp hUnknown with hWord | ⟨s, hText, _⟩
  · exact ⟨_, hLoad, hUnknown, hWord⟩
  · cases hText

/-- A number that is written as a text. It is no unknown kind of node, but its message reads like one. -/
def phraseNumber : Json := .object [.entry "type" (.string "number"), .entry "val" (.string "unknown variant")]

theorem phrase_is_unknown_kind_of_node : ∃ e,
    load (returning phraseNumber).pretty "phrase.json" = .error (.fault (.document "phrase.json" e) none) ∧
      (Fault.document "phrase.json" e).kind = .unknownNodeKind ∧
      ¬(Json.read (returning phraseNumber).pretty.toList).1.UnknownWord slots e := by
  have hWritable : phraseNumber.Writable := by
    simp [phraseNumber, Json.writable_object_iff, Json.Writable.string, Member.entry, Member.key, Member.value]
  have hLoad : load (returning phraseNumber).pretty "phrase.json" =
      .error (.fault (.document "phrase.json" (.misplacedText "unknown variant")) none) :=
    load_pretty_eq_error (writable_returning hWritable) (by decide +kernel) _
  refine ⟨_, hLoad, by decide, ?_⟩
  rintro ⟨slot, _, _, _, _, _, hWord⟩
  cases hWord

end Document
end TreeLowering
