import TreeLowering.Proofs.Emit.Property
import TreeLowering.Proofs.Emit.Separators

/-! # First and last characters of emitted text

No expression starts with a blank or ends with the end of a line, and no statement does so between its
indentation and its terminator. Only an assignment to nothing starts with the blank of its sign. -/
namespace TreeLowering
set_option autoImplicit false

open Target

/-! ## The ends of a text -/

/-- A character of names and raw code: neither a separator nor a blank. -/
def Solid (c : Char) : Prop := c ≠ ';' ∧ ¬Blank c

instance (c : Char) : Decidable (Blank c) := inferInstanceAs (Decidable (_ = _))

instance (c : Char) : Decidable (Solid c) := inferInstanceAs (Decidable (_ ∧ _))

theorem solid_nameClass : NameClass Solid where
  word c hc := by
    constructor
    · rintro rfl
      cases hc
    · intro hBlank
      simp only [Blank, Char.isWhitespace, Bool.or_eq_true, decide_eq_true_eq] at hBlank
      rcases hBlank with ((rfl | rfl) | rfl) | rfl <;> cases hc
  dollar := by decide
  dot := by decide

namespace Text

/-- The text has a first character, and it is no blank. -/
def Opens (s : String) : Prop := ∃ c ∈ s.toList.head?, ¬Blank c

/-- The text has a last character, and it ends no line. -/
def Closes (s : String) : Prop := ∃ c ∈ s.toList.getLast?, c ≠ '\n'

def Starts (s : String) : Prop := s = "" ∨ Opens s

def Ends (s : String) : Prop := s = "" ∨ Closes s

/-- The text is empty, or has no blank in front and no end of a line behind. -/
structure Tight (s : String) : Prop where
  first : Starts s
  last : Ends s

structure Framed (s : String) : Prop where
  first : Opens s
  last : Closes s

variable {s t : String}

theorem Framed.tight (h : Framed s) : Tight s := ⟨.inr h.first, .inr h.last⟩

theorem Opens.append (h : Opens s) (t : String) : Opens (s ++ t) := by
  obtain ⟨c, hc, hBlank⟩ := h
  refine ⟨c, ?_, hBlank⟩
  rw [String.toList_append, List.head?_append, Option.mem_def.mp hc]
  rfl

theorem Closes.prepend (h : Closes t) (s : String) : Closes (s ++ t) := by
  obtain ⟨c, hc, hEnd⟩ := h
  refine ⟨c, ?_, hEnd⟩
  rw [String.toList_append, List.getLast?_append, Option.mem_def.mp hc]
  rfl

theorem Closes.append (h : Closes s) (ht : Ends t) : Closes (s ++ t) := by
  rcases ht with rfl | ht
  · rwa [String.append_empty]
  · exact ht.prepend s

theorem Tight.append (hs : Tight s) (ht : Tight t) : Tight (s ++ t) := by
  constructor
  · rcases hs.first with rfl | hs
    · rw [String.empty_append]
      exact ht.first
    · exact .inr (hs.append t)
  · rcases hs.last with rfl | hs
    · rw [String.empty_append]
      exact ht.last
    · exact .inr (hs.append ht.last)

theorem tight_of_spelled (h : Spelled Solid s) : Tight s := by
  constructor
  · cases hFirst : s.toList.head? with
    | none => exact .inl (String.toList_eq_nil_iff.mp (List.head?_eq_none_iff.mp hFirst))
    | some c => exact .inr ⟨c, hFirst, (h c (List.mem_of_mem_head? hFirst)).2⟩
  · cases hLast : s.toList.getLast? with
    | none => exact .inl (String.toList_eq_nil_iff.mp (List.getLast?_eq_none_iff.mp hLast))
    | some c =>
      refine .inr ⟨c, hLast, ?_⟩
      rintro rfl
      exact (h '\n' (List.mem_of_getLast? hLast)).2 rfl

theorem opens_dotted (h : Spelled Solid s) (rest : String) : Opens (s ++ "." ++ rest) := by
  have hDot : Opens "." := ⟨_, rfl, by decide⟩
  rcases (tight_of_spelled h).first with rfl | hOpens
  · exact hDot.append rest
  · exact (hOpens.append ".").append rest

theorem Starts.not_indented (h : Starts s) (hBlank : Spelled Blank t) (hNe : t ≠ "") : ¬∃ rest, s = t ++ rest := by
  rintro ⟨rest, rfl⟩
  obtain ⟨c, cs, ht⟩ := List.exists_cons_of_ne_nil fun hNil => hNe (String.toList_eq_nil_iff.mp hNil)
  rcases h with hEmpty | ⟨d, hd, hFirst⟩
  · simpa [ht] using congrArg String.toList hEmpty
  · rw [String.toList_append, ht, List.cons_append, List.head?_cons] at hd
    cases hd
    exact hFirst (hBlank c (by rw [ht]; exact List.mem_cons_self))

theorem Ends.not_terminated (h : Ends s) : ¬∃ rest, s = rest ++ ";\n" := by
  rintro ⟨rest, rfl⟩
  rcases h with hEmpty | ⟨c, hc, hLast⟩
  · simpa using congrArg String.toList hEmpty
  · rw [String.toList_append, List.getLast?_append] at hc
    cases hc
    exact hLast rfl

theorem framed_quote (s : String) : Framed (Quoted.quote s) := by
  rw [Quoted.quote, Quoted.quoteChars]
  refine ⟨⟨'"', ?_, by decide⟩, ⟨'"', ?_, by decide⟩⟩
  · rw [String.toList_ofList]
    rfl
  · rw [String.toList_ofList, ← List.cons_append, List.getLast?_append]
    rfl

end Text

open Text

namespace Emit

abbrev Anything (_ : String) : Prop := True

variable {m n : Emit Unit}

theorem Writes.anything (hm : Writes Blank Anything m) (hn : Writes Blank Anything n) :
    Writes Blank Anything (m >>= fun _ => n) :=
  hm.seq hn fun _ _ _ _ => trivial

theorem anything_indent : Writes Blank Anything indent := .indent trivial

theorem anything_outdent : Writes Blank Anything outdent := .outdent trivial

theorem anything_kept : Kept (Writes Blank Anything) where
  pure := .pure trivial
  print _ := .print trivial
  printIndent := .printIndent fun _ _ => trivial
  seq := .anything
  block hm := anything_indent.anything (hm.anything anything_outdent)
  query _ h := .query fun x _ => h x

theorem anything_print (s : String) : Writes Blank Anything (print s) := .print trivial

theorem anything_indentUnless (omitted : Bool) : Writes Blank Anything (indentUnless omitted) :=
  .indentUnless (fun _ _ => trivial) omitted

/-! ## Shapes -/

theorem Writes.tight (hm : Writes Blank Tight m) (hn : Writes Blank Tight n) : Writes Blank Tight (m >>= fun _ => n) :=
  hm.seq hn fun _ _ => Tight.append

theorem Writes.closing (hm : Writes Blank Anything m) (hn : Writes Blank Closes n) :
    Writes Blank Closes (m >>= fun _ => n) :=
  hm.seq hn fun s _ _ ht => ht.prepend s

theorem Writes.framed (hm : Writes Blank Opens m) (hn : Writes Blank Closes n) :
    Writes Blank Framed (m >>= fun _ => n) :=
  hm.seq hn fun s t hs ht => ⟨hs.append t, ht.prepend s⟩

theorem Writes.trailing (hm : Writes Blank Closes m) (hn : Writes Blank Ends n) :
    Writes Blank Closes (m >>= fun _ => n) :=
  hm.seq hn fun _ _ => Closes.append

theorem Writes.extended (hm : Writes Blank Framed m) (hn : Writes Blank Ends n) :
    Writes Blank Framed (m >>= fun _ => n) :=
  hm.seq hn fun _ t hs ht => ⟨hs.first.append t, hs.last.append ht⟩

theorem closes_braced (hm : Writes Blank Anything m) (omitIndentation : Bool) :
    Writes Blank Closes (braced m omitIndentation) := by
  have hEnd : Writes Blank Closes (print "\x7d") := .print ⟨_, rfl, by decide⟩
  exact anything_indent.closing (hm.closing (anything_outdent.closing ((anything_indentUnless _).closing hEnd)))

theorem anything_braced (hm : Writes Blank Anything m) (omitIndentation : Bool) :
    Writes Blank Anything (braced m omitIndentation) := (closes_braced hm omitIndentation).imp fun _ _ => trivial

theorem opens_round : Writes Blank Opens (print "(") := .print ⟨_, rfl, by decide⟩

theorem closes_round : Writes Blank Closes (print ")") := .print ⟨_, rfl, by decide⟩

theorem framed_parens (hm : Writes Blank Anything m) : Writes Blank Framed (parens m) :=
  opens_round.framed (hm.closing closes_round)

theorem frame_edges {op : BinaryOp} (h : op ≠ .member) :
    Writes Blank Opens (print op.frame.1) ∧ Writes Blank Closes (print op.frame.2.2) := by
  cases op with
  | member => exact absurd rfl h
  | _ => exact ⟨.print ⟨_, rfl, by decide⟩, .print ⟨_, rfl, by decide⟩⟩

theorem framed_binary {op : BinaryOp} (hOp : op ≠ .member) (hm : Writes Blank Anything m)
    (hn : Writes Blank Anything n) : Writes Blank Framed (binary op m n) := by
  obtain ⟨hFirst, hLast⟩ := frame_edges hOp
  exact hFirst.framed (hm.closing ((anything_print _).closing (hn.closing hLast)))

theorem tight_member_access (hm : Writes Blank Tight m) (hn : Writes Blank Tight n) :
    Writes Blank Tight (binary .member m n) := by
  have hNone : Writes Blank Tight (print "") := .print ⟨.inl rfl, .inl rfl⟩
  have hDot : Writes Blank Tight (print ".") := .print ⟨.inr ⟨_, rfl, by decide⟩, .inr ⟨_, rfl, by decide⟩⟩
  exact hNone.tight (hm.tight (hDot.tight (hn.tight hNone)))

theorem framed_unary (op : UnaryOp) (hm : Writes Blank Anything m) : Writes Blank Framed (unary op m) :=
  opens_round.framed ((anything_print _).closing (hm.closing closes_round))

theorem framed_rawCall (code : String) (hm : Writes Blank Anything m) : Writes Blank Framed (rawCall code m) :=
  opens_round.framed ((anything_print _).closing ((anything_print _).closing (hm.closing closes_round)))

theorem framed_guarded (form : Form) {keyword : String} (hKeyword : Opens keyword) {condition lines : Emit Unit}
    (hCondition : Writes Blank Anything condition) (hLines : Writes Blank Anything lines) :
    Writes Blank Framed (guarded form keyword condition lines) :=
  Writes.framed (.print (hKeyword.append "("))
    (hCondition.closing ((anything_print _).closing (closes_braced hLines _)))

theorem framed_branch (form : Form) {condition yes no : Emit Unit} (hCondition : Writes Blank Anything condition)
    (hYes : Writes Blank Anything yes) (hNo : Writes Blank Anything no) :
    Writes Blank Framed (branch form condition yes no) := by
  have hKeyword : Opens "if" := ⟨_, rfl, by decide⟩
  have hIf := framed_guarded form hKeyword hCondition hYes
  exact (hIf.imp fun _ => Framed.first).framed ((anything_print _).closing (closes_braced hNo _))

theorem framed_loop (form : Form) {init condition step lines : Emit Unit} (hInit : Writes Blank Anything init)
    (hCondition : Writes Blank Anything condition) (hStep : Writes Blank Anything step)
    (hLines : Writes Blank Anything lines) : Writes Blank Framed (loop form init condition step lines) := by
  have hFor : Writes Blank Opens (print "for(") := .print ⟨_, rfl, by decide⟩
  exact hFor.framed (hInit.closing ((anything_print _).closing (hCondition.closing ((anything_print _).closing
    (hStep.closing ((anything_print _).closing (closes_braced hLines _)))))))

theorem framed_repeatUntil (form : Form) {lines condition : Emit Unit} (hLines : Writes Blank Anything lines)
    (hCondition : Writes Blank Anything condition) : Writes Blank Framed (repeatUntil form lines condition) := by
  have hDo : Writes Blank Opens (print "do \x7b\n") := .print ⟨_, rfl, by decide⟩
  have hEnd : Writes Blank Closes (print "))") := .print ⟨_, rfl, by decide⟩
  exact hDo.framed ((anything_braced hLines _).closing ((anything_print _).closing (hCondition.closing hEnd)))

theorem framed_functionBody (g : Setting) (params : List String) (scope : Nat) {lines : Emit Unit}
    (hLines : Writes Blank Anything lines) : Writes Blank Framed (functionBody g params scope lines) := by
  refine opens_round.framed (.query fun names _ => ?_)
  exact (anything_print _).closing ((anything_print _).closing
    (closes_braced ((anything_kept.localAllocation g scope).anything hLines) _))

theorem framed_call (g : Setting) (isMethod : Bool) (scope : Nat) (loc : Option Location) {callee args : Emit Unit}
    (hCallee : Writes Blank Anything callee) (hArgs : Writes Blank Anything args) :
    Writes Blank Framed (call g callee args isMethod scope loc) := by
  have hEnd : Writes Blank Closes (do args; print ")") := hArgs.closing closes_round
  have hReceiver (b : Nat) {rest : Emit Unit} (hRest : Writes Blank Closes rest) :
      Writes Blank Closes (do print (← query (g.tree.bindingText b)); rest) :=
    .query fun text _ => (anything_print text).closing hRest
  refine ((framed_parens hCallee).imp fun _ => Framed.first).framed (.query fun other _ => ?_)
  cases isMethod with
  | true => exact (anything_print _).closing (hReceiver other hEnd)
  | false =>
    refine .query fun this _ => (anything_print _).closing (hReceiver this ?_)
    exact (anything_print _).closing (hReceiver other hEnd)

theorem states_withEach (g : Setting) (form : Form) (scope : Nat) (index all : Reference) (loc : Option Location)
    {lines : Emit Unit} (hLines : Writes Blank Anything lines) :
    States form Framed (withEach g form scope index all loc lines) := by
  refine .query fun i _ => .query fun objects _ => .query fun this _ => Writes.states ?_ form
  have hFor : Opens "for(" := ⟨_, rfl, by decide⟩
  have hPass := (anything_indentUnless form.omitIndentation).anything
    ((anything_print (this ++ " = " ++ objects ++ "[" ++ i ++ "];\n")).anything hLines)
  refine Writes.framed (.print ?_) (closes_braced hPass _)
  simp only [String.append_assoc]
  exact hFor.append _

theorem framed_object {g : Setting} (hg : g.SpelledIn Solid) (form : Form) (name parent : String)
    {members : String → Emit Unit} (hMembers : ∀ self, Writes Blank Anything (members self)) :
    Writes Blank Framed (object g form name parent members) := by
  have hHandle := hg.runtime g.runtime.runtimeIdentifier (by simp [Contract.identifiers])
  have hIndent := anything_indentUnless form.omitIndentation
  refine Writes.framed (.print ?_) ((anything_braced ?_ _).closing closes_round)
  · have hOpens := opens_dotted hHandle g.runtime.createObject
    exact ((((hOpens.append _).append _).append _).append _).append _
  · exact hIndent.anything ((anything_print _).anything (hIndent.anything
      ((anything_print _).anything (hMembers _))))

end Emit

/-! ## Every node -/

section

open Emit

variable {g : Setting}

theorem Function.lowerBody_framed (fn : Function) : Writes Blank Framed (fn.lowerBody g) := by
  cases fn with
  | mk params body scope => exact framed_functionBody g params scope (anything_kept.stmt g .full body)

theorem Function.lower_framed (fn : Function) : Writes Blank Framed (fn.lower g) := by
  have hKeyword : Writes Blank Opens (print "function") := .print ⟨_, rfl, by decide⟩
  have hBody := (fn.lowerBody_framed (g := g)).imp fun _ => Framed.last
  cases fn with
  | mk params body scope => exact hKeyword.framed hBody

theorem lowerIndexes_tight (es : List Expr) : Writes Blank Tight (lowerIndexes g es) := by
  induction es with
  | nil => exact .pure ⟨.inl rfl, .inl rfl⟩
  | cons e rest ih =>
    have hOpen : Writes Blank Opens (print "[") := .print ⟨_, rfl, by decide⟩
    have hBracket : Writes Blank Closes (print "]") := .print ⟨_, rfl, by decide⟩
    have hClose := hBracket.trailing (ih.imp fun _ => Tight.last)
    exact (hOpen.framed ((anything_kept.expr g e).closing hClose)).imp fun _ => Framed.tight

variable (hg : g.SpelledIn Solid)

include hg

theorem Expr.lower_tight (e : Expr) (h : ∀ s ∈ e.spellings, Spelled Solid s) : Writes Blank Tight (e.lower g) := by
  have hAny (e : Expr) : Writes Blank Anything (e.lower g) := anything_kept.expr g e
  have hTight {m : Emit Unit} (hm : Writes Blank Framed m) : Writes Blank Tight m := hm.imp fun _ => Framed.tight
  -- Only names, raw code and accesses to members come without brackets or quotes around them.
  match e with
  | .identifier name ref _ =>
    refine .query fun text hText => .print (tight_of_spelled ?_)
    exact Setting.spelled_identifierText hg.tree solid_nameClass (h name List.mem_cons_self) hText
  | .binary op left right _ =>
    rw [Expr.spellings, List.forall_mem_append] at h
    rcases eq_or_ne op .member with rfl | hOp
    · exact tight_member_access (left.lower_tight h.1) (right.lower_tight h.2)
    · exact hTight (framed_binary hOp (hAny left) (hAny right))
  | .unary op operand _ => exact hTight (framed_unary op (hAny operand))
  | .number value _ => exact hTight (framed_parens (anything_print _))
  | .string value _ => exact hTight (.print (framed_quote value))
  | .index base indexes _ => exact (hTight (framed_parens (hAny base))).tight (lowerIndexes_tight indexes)
  | .call callee args isMethod scope loc =>
    exact hTight (framed_call g isMethod scope loc (hAny callee) (anything_kept.further g args))
  | .closure fn _ => exact hTight fn.lower_framed
  | .rawCall code args _ => exact hTight (framed_rawCall code (anything_kept.args g args))
  | .raw code _ => exact .print (tight_of_spelled (h code List.mem_cons_self))

theorem Declarator.lower_ends (d : Declarator) (h : ∀ s ∈ d.spellings, Spelled Solid s) :
    Writes Blank Ends (d.lower g) := by
  match d with
  | .mk name none ref =>
    refine .query fun text hText => .print (tight_of_spelled ?_).last
    exact Setting.spelled_declaredName hg.tree (h name List.mem_cons_self) hText
  | .mk name (some value) ref =>
    rw [Declarator.spellings, List.forall_mem_cons] at h
    have hEquals : Writes Blank Closes (print " = ") := .print ⟨_, rfl, by decide⟩
    have hValue := (value.lower_tight hg h.2).imp fun _ => Tight.last
    exact .query fun text _ => ((anything_print text).closing (hEquals.trailing hValue)).imp fun _ => .inr

theorem lowerDeclarators_ends (ds : List Declarator) (h : ∀ s ∈ declaratorsSpellings ds, Spelled Solid s) :
    Writes Blank Ends (lowerDeclarators g ds) := by
  match ds with
  | [] => exact .pure (.inl rfl)
  | [d] =>
    rw [declaratorsSpellings, List.forall_mem_append] at h
    exact d.lower_ends hg h.1
  | d :: e :: rest =>
    rw [declaratorsSpellings, List.forall_mem_append] at h
    have hComma : Writes Blank Closes (print ", ") := .print ⟨_, rfl, by decide⟩
    have hFirst := (d.lower_ends hg h.1).imp fun _ _ => trivial
    have hRest := hComma.trailing (lowerDeclarators_ends (e :: rest) h.2)
    exact (hFirst.closing hRest).imp fun _ => .inr

end

namespace Stmt

def isAssign : Stmt → Bool
  | .assign .. => true
  | _ => false

/-- The text of a statement without its indentation and its terminator. The left side of an assignment
may be empty, and then a blank comes first. -/
structure Shows (s : Stmt) (text : String) : Prop where
  first : s.isAssign = false → Starts text
  last : Ends text

theorem Shows.of_framed {s : Stmt} {text : String} (h : Framed text) : s.Shows text :=
  ⟨fun _ => h.tight.first, h.tight.last⟩

open Emit

theorem lower_shows {g : Setting} (hg : g.SpelledIn Solid) (form : Form) (s : Stmt) (hKind : s.isSplice = false)
    (h : ∀ text ∈ s.spellings, Spelled Solid text) : States form s.Shows (s.lower g form) := by
  have hExpr (e : Expr) : Writes Blank Anything (e.lower g) := anything_kept.expr g e
  have hBody (b : Stmt) : Writes Blank Anything (b.lower g .full) := anything_kept.stmt g .full b
  have hInner (b : Stmt) : Writes Blank Anything (b.lower g .inline) := anything_kept.stmt g .inline b
  have hShown {s : Stmt} {m : Emit Unit} (hm : Writes Blank Framed m) : States form s.Shows (statement form m) :=
    (hm.imp fun _ => Shows.of_framed).states form
  have hHandle := hg.runtime g.runtime.globalsIdentifier (by simp [Contract.identifiers])
  cases s with
  | block | nop => cases hKind
  | declare declarators _ =>
    have hOpens : Opens "var " := ⟨_, rfl, by decide⟩
    have hCloses : Closes "var " := ⟨_, rfl, by decide⟩
    have hVar : Writes Blank Framed (print "var ") := .print ⟨hOpens, hCloses⟩
    exact hShown (hVar.extended (lowerDeclarators_ends hg declarators h))
  | assign left right _ =>
    rw [Stmt.spellings, List.forall_mem_append] at h
    have hEquals : Writes Blank Closes (print " = ") := .print ⟨_, rfl, by decide⟩
    have hRight := hEquals.trailing ((right.lower_tight hg h.2).imp fun _ => Tight.last)
    refine (((hExpr left).closing hRight).imp fun _ hLast => ⟨?_, .inr hLast⟩).states form
    intro hOther
    cases hOther
  | define name fn _ =>
    exact hShown (Writes.framed (.print ((opens_dotted hHandle name).append _))
      (fn.lowerBody_framed.imp fun _ => Framed.last))
  | constant name value _ =>
    rw [Stmt.spellings, List.forall_mem_cons] at h
    have hCloses : Closes " = " := ⟨_, rfl, by decide⟩
    have hHead : Writes Blank Framed (print (g.runtime.globalsIdentifier ++ "." ++ name ++ " = ")) :=
      .print ⟨(opens_dotted hHandle name).append _, hCloses.prepend _⟩
    exact hShown (hHead.extended ((value.lower_tight hg h.2).imp fun _ => Tight.last))
  | switch subject clauses _ =>
    exact hShown (framed_guarded form ⟨_, rfl, by decide⟩ (hExpr subject) (anything_kept.clauses g clauses))
  | loop init condition step body _ =>
    exact hShown (framed_loop form (hInner init) (hExpr condition) (hInner step) (hBody body))
  | when condition body _ => exact hShown (framed_branch form (hExpr condition) (hBody body) anything_kept.pure)
  | branch condition yes no _ => exact hShown (framed_branch form (hExpr condition) (hBody yes) (hBody no))
  | repeatWhile condition body _ =>
    exact hShown (framed_guarded form ⟨_, rfl, by decide⟩ (hExpr condition) (hBody body))
  | repeatUntil body condition _ => exact hShown (framed_repeatUntil form (hBody body) (hExpr condition))
  | breakLoop | continueLoop | exit =>
    exact hShown (.print ⟨⟨_, rfl, by decide⟩, ⟨_, rfl, by decide⟩⟩)
  | withEach subject body scope index all loc =>
    exact (states_withEach g form scope index all loc (hBody body)).imp fun _ => Shows.of_framed
  | returnValue value _ =>
    have hReturn : Writes Blank Opens (print "return ") := .print ⟨_, rfl, by decide⟩
    exact hShown (hReturn.framed ((framed_parens (hExpr value)).imp fun _ => Framed.last))
  | object name parent init create destroy methods _ =>
    exact hShown (framed_object hg form name parent fun self =>
      anything_kept.members g form self init create destroy methods)
  | call callee args isMethod scope loc =>
    exact hShown (framed_call g isMethod scope loc (hExpr callee) (anything_kept.further g args))
  | rawCall code args _ => exact hShown (framed_rawCall code (anything_kept.args g args))

end Stmt

end TreeLowering
