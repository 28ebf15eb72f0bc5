import TreeLowering.Proofs.Emit.Edges
import TreeLowering.Proofs.Emit.Layout

/-! # Statements in the header of a loop

Inside a header a statement is to be printed without its indentation and its terminator. Every kind of
statement keeps to that but the block, whose statements are always printed on lines of their own. -/
namespace TreeLowering
set_option autoImplicit false

open Target Text

/-! ## Both forms of a statement -/

namespace Emit

theorem LaidOut.frame {m : Emit Unit} (h : LaidOut m) {k k' : Sink} (hRun : m k = .ok () k') :
    k' = { k with text := k'.text } := by
  obtain ⟨ps, hm⟩ | ⟨e, hm⟩ := h
  · rw [hm k] at hRun
    cases hRun
    rfl
  · obtain ⟨k₁, hError⟩ := hm k
    rw [hError] at hRun
    cases hRun

theorem statement_inline (e : Emit Unit) : statement .inline e = e := by
  have hPure : (e >>= fun _ => pure ()) = e := bind_pure e
  rw [statement, indentUnless, Form.inline]
  exact (pure_bind () _).trans hPure

/-- On a line of its own a statement starts with the indentation and ends with the terminator. -/
theorem Writes.full {P : String → Prop} {e : Emit Unit} (he : Writes Blank P e) {k k' : Sink}
    (hUnit : Spelled Blank k.unit) (hRun : statement .full e k = .ok () k') :
    k'.unit = k.unit ∧ ∃ text, k'.text = k.text ++ (k.indentation ++ text ++ ";\n") ∧ P text := by
  obtain ⟨_, k₁, hIndent, hRest⟩ := exists_of_run_eq_ok hRun
  obtain ⟨_, k₂, hInner, hEnd⟩ := exists_of_run_eq_ok hRest
  cases hIndent
  cases hEnd
  obtain ⟨hSame, text, hText, hP⟩ := he { k with text := k.text ++ k.indentation } k₂ hUnit hInner
  refine ⟨hSame, text, ?_, hP⟩
  simp only [hText, String.append_assoc]

end Emit

open Emit

/-- Either nothing is printed, or lines that start with the indentation and end with a terminator. -/
def Lined (terminators : Nat) (k k' : Sink) : Prop :=
  terminators = 0 ∧ k' = k ∨
    0 < terminators ∧ k'.unit = k.unit ∧ ∃ text, k'.text = k.text ++ (k.indentation ++ text ++ ";\n")

theorem Lined.append {i j : Nat} {k k₁ k₂ : Sink} (h : Lined i k k₁) (h' : Lined j k₁ k₂) :
    Lined (i + j) k k₂ := by
  obtain ⟨rfl, rfl⟩ | ⟨hi, hUnit, text, hText⟩ := h
  · rwa [Nat.zero_add]
  · obtain ⟨rfl, rfl⟩ | ⟨hj, hUnit', text', hText'⟩ := h'
    · exact .inr ⟨hi, hUnit, text, hText⟩
    · refine .inr ⟨by omega, hUnit'.trans hUnit, text ++ ";\n" ++ k₁.indentation ++ text', ?_⟩
      simp only [hText', hText, String.append_assoc]

theorem Lined.unit_eq {i : Nat} {k k' : Sink} (h : Lined i k k') : k'.unit = k.unit := by
  obtain ⟨_, rfl⟩ | ⟨_, hUnit, _⟩ := h
  · rfl
  · exact hUnit

section

variable {g : Setting}

mutual
theorem Stmt.lower_lined (hg : g.SpelledIn Solid) (s : Stmt) (h : ∀ text ∈ s.spellings, Spelled Solid text)
    {k k' : Sink}
    (hUnit : Spelled Blank k.unit) (hRun : s.lower g .full k = .ok () k') : Lined (s.terminators .full) k k' := by
  cases hKind : s.isSplice with
  | false =>
    obtain ⟨e, he, hStatement⟩ := s.lower_shows hg .full hKind h k k' hRun
    obtain ⟨hSame, text, hText, _⟩ := he.full hUnit hStatement
    rw [Stmt.terminators_of_not_splice hKind]
    exact .inr ⟨Nat.one_pos, hSame, text, hText⟩
  | true =>
    match s with
    | .block body _ => exact lowerStmts_lined hg body h hUnit hRun
    | .nop _ =>
      cases hRun
      exact .inl ⟨rfl, rfl⟩

theorem lowerStmts_lined (hg : g.SpelledIn Solid) (ss : List Stmt)
    (h : ∀ text ∈ stmtsSpellings ss, Spelled Solid text) {k k' : Sink}
    (hUnit : Spelled Blank k.unit) (hRun : lowerStmts g ss k = .ok () k') : Lined (stmtsTerminators ss) k k' := by
  match ss with
  | [] =>
    cases hRun
    exact .inl ⟨rfl, rfl⟩
  | s :: rest =>
    rw [stmtsSpellings, List.forall_mem_append] at h
    obtain ⟨_, k₁, hFirst, hRest⟩ := exists_of_run_eq_ok hRun
    have hLine := s.lower_lined hg h.1 hUnit hFirst
    exact hLine.append (lowerStmts_lined hg rest h.2 (hLine.unit_eq ▸ hUnit) hRest)
end

end

theorem Sink.indentation_ne_empty {k : Sink} (hLevel : 0 < k.level) (hUnit : k.unit ≠ "") : k.indentation ≠ "" := by
  intro hEmpty
  have hJoined : (List.replicate k.level k.unit).flatMap String.toList = [] := by
    rw [← String.toList_join, ← Sink.indentation, hEmpty]
    rfl
  have hMem : k.unit ∈ List.replicate k.level k.unit := List.mem_replicate.mpr ⟨by omega, rfl⟩
  exact hUnit (String.toList_eq_nil_iff.mp (List.flatMap_eq_nil_iff.mp hJoined _ hMem))

namespace Stmt

/-- An assignment whose left side prints nothing. -/
def Untargeted (g : Setting) (k : Sink) (s : Stmt) : Prop :=
  ∃ left right loc, s = .assign left right loc ∧ left.lower g k = .ok () k

/-- A block that is not empty: some statement in it, or in a block of it, is no no-op. -/
def Spills (s : Stmt) : Prop := ∃ body loc, s = .block body loc ∧ 0 < stmtsTerminators body

theorem spills_iff {s : Stmt} : s.Spills ↔ 0 < s.terminators .inline := by
  cases s with
  | block body loc =>
    constructor
    · rintro ⟨_, _, hSelf, hSome⟩
      cases hSelf
      exact hSome
    · exact fun hSome => ⟨body, loc, rfl, hSome⟩
  | _ => exact iff_of_false nofun (Nat.lt_irrefl 0)

/-- The text of a statement inside a header starts with the indentation, or ends with a terminator, only if
the statement spills. There is one exception: without a left side, an assignment starts with the blank of
its sign, which may be the whole indentation. -/
structure Inline (g : Setting) (s : Stmt) (k : Sink) (text : String) : Prop where
  indented : (∃ rest, text = k.indentation ++ rest) ↔ s.Spills ∨ s.Untargeted g k ∧ k.indentation = " "
  terminated : (∃ rest, text = rest ++ ";\n") ↔ s.Spills

variable {g : Setting} (hg : g.SpelledIn Solid) {k k' : Sink} (hIndent : k.indentation ≠ "")
  (hUnit : Spelled Blank k.unit)

include hIndent hUnit

theorem Inline.of_tight {s : Stmt} {text : String} (hTargeted : ¬s.Untargeted g k)
    (hNone : s.terminators .inline = 0) (hText : Tight text) : Inline g s k text := by
  have hStays : ¬s.Spills := by simp [spills_iff, hNone]
  constructor
  · exact iff_of_false (hText.first.not_indented (Sink.spelled_indentation hUnit) hIndent)
      (by simp [hStays, hTargeted])
  · exact iff_of_false hText.last.not_terminated hStays

theorem sign_indented_iff (right : String) :
    (∃ rest, " = " ++ right = k.indentation ++ rest) ↔ k.indentation = " " := by
  constructor
  · rintro ⟨rest, hSign⟩
    have hBlank := Sink.spelled_indentation hUnit
    have hChars := congrArg String.toList hSign
    have hFixed : " = ".toList = [' ', '=', ' '] := rfl
    rw [String.toList_append, String.toList_append, hFixed] at hChars
    cases hIndentation : k.indentation.toList with
    | nil => exact absurd (String.toList_eq_nil_iff.mp hIndentation) hIndent
    | cons c cs =>
      rw [hIndentation] at hChars
      obtain ⟨rfl, hRest⟩ := List.cons.inj hChars
      -- Behind the first blank of the sign comes no other.
      cases cs with
      | nil => exact String.toList_inj.mp hIndentation
      | cons d ds =>
        obtain ⟨rfl, _⟩ := List.cons.inj hRest
        cases hBlank '=' (by simp [hIndentation])
  · intro hOne
    have hSplit : " = " = " " ++ "= " := rfl
    rw [hOne, hSplit]
    exact ⟨"= " ++ right, String.append_assoc⟩

include hg

theorem lower_inline_assign {left right : Expr} {loc : Option Location}
    (h : ∀ text ∈ (Stmt.assign left right loc).spellings, Spelled Solid text)
    (hRun : (Stmt.assign left right loc).lower g .inline k = .ok () k') :
    ∃ text, k'.text = k.text ++ text ∧ Inline g (.assign left right loc) k text := by
  rw [Stmt.spellings, List.forall_mem_append] at h
  rw [Stmt.lower, statement_inline] at hRun
  obtain ⟨_, k₁, hLeft, hRest⟩ := exists_of_run_eq_ok hRun
  obtain ⟨hSame, l, hl, hTight⟩ := left.lower_tight hg h.1 k k₁ hUnit hLeft
  have hValue := (right.lower_tight hg h.2).imp fun _ => Tight.last
  have hSign : Writes Blank (fun text => text = " = ") (print " = ") := .print rfl
  obtain ⟨_, _, hText, _, r, rfl, rfl, hr⟩ := hSign.pair hValue k₁ k' (hSame ▸ hUnit) hRest
  have hCloses : Closes (l ++ (" = " ++ r)) := (Closes.append ⟨_, rfl, by decide⟩ hr).prepend l
  refine ⟨l ++ (" = " ++ r), by rw [hText, hl, String.append_assoc], ?_⟩
  rcases hTight.first with rfl | hOpens
  -- Without a left side the sign comes first.
  · have hSilent : k₁ = k := by
      rw [(laidOut_kept.expr g left).frame hLeft, hl, String.append_empty]
    have hUntargeted : (Stmt.assign left right loc).Untargeted g k := ⟨left, right, loc, rfl, hSilent ▸ hLeft⟩
    have hStays : ¬(Stmt.assign left right loc).Spills := nofun
    rw [String.empty_append] at hCloses ⊢
    constructor
    · rw [sign_indented_iff hIndent hUnit r]
      simp [hUntargeted, hStays]
    · exact iff_of_false (Ends.not_terminated (.inr hCloses)) hStays
  · have hTargeted : ¬(Stmt.assign left right loc).Untargeted g k := by
      rintro ⟨_, _, _, hSelf, hSilent⟩
      cases hSelf
      cases hLeft.symm.trans hSilent
      obtain rfl : l = "" := by simpa using congrArg String.toList hl
      obtain ⟨_, hNone, _⟩ := hOpens
      cases hNone
    exact .of_tight hIndent hUnit hTargeted rfl ⟨.inr (hOpens.append _), .inr hCloses⟩

theorem lower_inline (s : Stmt) (h : ∀ text ∈ s.spellings, Spelled Solid text)
    (hRun : s.lower g .inline k = .ok () k') : ∃ text, k'.text = k.text ++ text ∧ Inline g s k text := by
  cases hAssign : s.isAssign with
  | true =>
    match s with
    | .assign left right loc => exact lower_inline_assign hg hIndent hUnit h hRun
  | false =>
    have hTargeted : ¬s.Untargeted g k := by
      rintro ⟨_, _, _, rfl, _⟩
      cases hAssign
    have hEmpty : Tight "" := ⟨.inl rfl, .inl rfl⟩
    cases hKind : s.isSplice with
    | false =>
      obtain ⟨e, he, hStatement⟩ := s.lower_shows hg .inline hKind h k k' hRun
      rw [statement_inline] at hStatement
      obtain ⟨_, text, hText, hShows⟩ := he k k' hUnit hStatement
      exact ⟨text, hText, .of_tight hIndent hUnit hTargeted (terminators_of_not_splice hKind .inline)
        ⟨hShows.first hAssign, hShows.last⟩⟩
    | true =>
      match s with
      -- The statements of a block do not get its form.
      | .block body loc =>
        obtain ⟨hNone, rfl⟩ | ⟨hSome, _, text, hText⟩ := lowerStmts_lined hg body h hUnit hRun
        · exact ⟨"", by simp, .of_tight hIndent hUnit hTargeted hNone hEmpty⟩
        · have hSpills : (Stmt.block body loc).Spills := ⟨body, loc, rfl, hSome⟩
          refine ⟨_, hText, ?_, ?_⟩
          · exact iff_of_true ⟨text ++ ";\n", String.append_assoc⟩ (.inl hSpills)
          · exact iff_of_true ⟨k.indentation ++ text, rfl⟩ hSpills
      | .nop _ =>
        cases hRun
        exact ⟨"", by simp, .of_tight hIndent hUnit hTargeted rfl hEmpty⟩

end Stmt

/-! ## Headers -/

theorem HasHeader.append {n : Nat} {text : String} (h : HasHeader n text) (rest : String) :
    HasHeader n (text ++ rest) := by
  obtain ⟨init, condition, step, after, rfl, hSeparated⟩ := h
  exact ⟨init, condition, step, after ++ rest, String.append_assoc, hSeparated⟩

theorem Stmt.lower_loop_header {g : Setting} (hg : g.SpelledIn Passed) (form : Form)
    {init step body : Stmt} {condition : Expr} {loc : Option Location}
    (h : ∀ text ∈ (Stmt.loop init condition step body loc).spellings, Spelled Passed text) :
    Writes Blank (fun text => ∃ before rest, text = before ++ rest ∧ Spelled Blank before ∧
        HasHeader (init.terminators .inline + step.terminators .inline + 2) rest)
      ((Stmt.loop init condition step body loc).lower g form) := by
  simp only [Stmt.spellings, List.forall_mem_append] at h
  obtain ⟨hInit, hCondition, hStep, hBody⟩ := h
  have hLoop := writes_loop form (init.lower_tallies hg .inline hInit) (condition.lower_flat hg hCondition)
    (step.lower_tallies hg .inline hStep)
    (body.lower_balanced hg.neutral .full fun text hText => (hBody text hText).neutral)
  have hIndent : Writes Blank (Spelled Blank) (indentUnless form.omitIndentation) := .indentUnless (fun _ => id) _
  have hEnd : Writes Blank Anything (if form.omitTerminator then pure () else print ";\n") := by
    split
    · exact .pure trivial
    · exact anything_print _
  refine hIndent.seq (hLoop.seq hEnd fun _ t hs _ => hs.append t) ?_
  intro before rest hBefore hRest
  exact ⟨before, rest, rfl, hBefore, hRest⟩

/-- In a sink at a positive level with a blank unit, names without separators and blanks given, the text of
a statement inside a header starts with an indentation or ends with a terminator exactly if the statement
spills. Names without brackets, quotes and separators given, the header of a loop has two separators exactly
if neither its first nor its last statement spills. -/
theorem inline_iff_not_spilling (g : Setting) {k : Sink} (hLevel : 0 < k.level) (hUnit : k.unit ≠ "")
    (hBlank : Spelled Blank k.unit) :
    (g.SpelledIn Solid → ∀ (s : Stmt) (k' : Sink), (∀ name ∈ s.spellings, Spelled Solid name) →
      s.lower g .inline k = .ok () k' → ∃ text, k'.text = k.text ++ text ∧ s.Inline g k text) ∧
    (g.SpelledIn Passed → ∀ (form : Form) (init step body : Stmt) (condition : Expr) (loc : Option Location)
      (k' : Sink), (∀ name ∈ (Stmt.loop init condition step body loc).spellings, Spelled Passed name) →
      (Stmt.loop init condition step body loc).lower g form k = .ok () k' →
      ∃ before rest n, k'.text = k.text ++ (before ++ rest) ∧ Spelled Blank before ∧ HasHeader n rest ∧
        n = init.terminators .inline + step.terminators .inline + 2 ∧
        (n = 2 ↔ ¬init.Spills ∧ ¬step.Spills)) := by
  have hIndent := Sink.indentation_ne_empty hLevel hUnit
  constructor
  · intro hg s k' hNames hRun
    exact s.lower_inline hg hIndent hBlank hNames hRun
  · intro hg form init step body condition loc k' hNames hRun
    obtain ⟨_, _, hText, before, rest, rfl, hBefore, hHeader⟩ :=
      Stmt.lower_loop_header hg form hNames k k' hBlank hRun
    refine ⟨before, rest, _, hText, hBefore, hHeader, rfl, ?_⟩
    rw [Stmt.spills_iff, Stmt.spills_iff]
    omega

def resetting : Stmt := .assign (.raw "i" none) (.number (.zero false) none) none

def countingLoop (init : Stmt) : Stmt := .loop init (.raw "c" none) (.nop none) (.nop none) none

def bareSetting : Setting := ⟨⟨#[⟨.global, none, []⟩], #[]⟩, {}⟩

theorem bareSetting_spelledIn {q : Char → Prop} (hq : NameClass q) : bareSetting.SpelledIn q := by
  constructor
  · intro b v hv
    simp [bareSetting, Tree.entryAt?] at hv
  · simp only [bareSetting, Contract.identifiers, List.forall_mem_cons]
    refine ⟨hq.spelled ?_, hq.spelled ?_, hq.spelled ?_, hq.spelled ?_, hq.spelled ?_, hq.spelled ?_,
      hq.spelled ?_, List.forall_mem_nil _⟩
    all_goals simp

theorem assignment_stays_in_header :
    resetting.lower bareSetting .inline ⟨"  ", 1, ""⟩ = .ok () ⟨"  ", 1, "i = (0)"⟩ ∧
      resetting.Inline bareSetting ⟨"  ", 1, ""⟩ "i = (0)" ∧
      ∃ before rest, "  for(i = (0); c; ) \x7b\n  \x7d;\n" = before ++ rest ∧ HasHeader 2 rest := by
  have hRun : resetting.lower bareSetting .inline ⟨"  ", 1, ""⟩ = .ok () ⟨"  ", 1, "i = (0)"⟩ := by rfl
  have hLoop : (countingLoop resetting).lower bareSetting .full ⟨"  ", 1, ""⟩ =
      .ok () ⟨"  ", 1, "  for(i = (0); c; ) \x7b\n  \x7d;\n"⟩ := by rfl
  have hNames {q : Char → Prop} (hq : NameClass q) :
      ∀ name ∈ (countingLoop resetting).spellings, Spelled q name := by
    simp only [countingLoop, resetting, Stmt.spellings, Expr.spellings, List.forall_mem_append, List.forall_mem_cons]
    exact ⟨⟨⟨hq.spelled (by simp), by simp⟩, by simp⟩, ⟨hq.spelled (by simp), by simp⟩,
      by simp, by simp⟩
  have hBlank : Spelled Blank "  " := by simp [Spelled, Blank, Char.isWhitespace]
  obtain ⟨hInline, hHeader⟩ :=
    inline_iff_not_spilling bareSetting (k := ⟨"  ", 1, ""⟩) Nat.one_pos (by decide) hBlank
  obtain ⟨text, hText, hTight⟩ := hInline (bareSetting_spelledIn solid_nameClass) resetting _
    (fun name hName => hNames solid_nameClass name (List.mem_append_left _ hName)) hRun
  obtain ⟨before, rest, _, hWhole, _, hTwo, rfl, _⟩ :=
    hHeader (bareSetting_spelledIn passed_nameClass) .full _ _ _ _ _ _ (hNames passed_nameClass) hLoop
  obtain rfl : "i = (0)" = text := by simpa using hText
  exact ⟨hRun, hTight, before, rest, by simpa using hWhole, hTwo⟩

theorem block_spills_into_header :
    (Stmt.block [resetting] none).lower bareSetting .inline ⟨"  ", 1, ""⟩ = .ok () ⟨"  ", 1, "  i = (0);\n"⟩ ∧
      (countingLoop (.block [resetting] none)).lower bareSetting .full ⟨"  ", 1, ""⟩ =
        .ok () ⟨"  ", 1, "  for(  i = (0);\n; c; ) \x7b\n  \x7d;\n"⟩ ∧
      Separated 3 "  i = (0);\n; c; " := by
  refine ⟨by rfl, by rfl, ?_⟩
  decide +kernel

end TreeLowering
