import Mathlib.Data.Nat.Cast.Field
import TreeLowering.Emit.Lowering
import TreeLowering.Proofs.Target.Evaluation

/-! # Emitted arithmetic has the value of its source

The source expressions are those of integers: literals, calls without arguments, signs, arithmetic,
comparisons and logical operators. Logical operators evaluate both operands and give zero or one. -/
namespace TreeLowering
set_option autoImplicit false

open Target

/-! ## Integer expressions of the source -/

namespace Binary64

/-- A finite double without a fraction. -/
def IsInteger (x : Binary64) : Prop := x.magnitude < infinityBits ∧ unitsPerOne ∣ x.units

instance (x : Binary64) : Decidable x.IsInteger := inferInstanceAs (Decidable (_ ∧ _))

def integer (x : Binary64) : Int :=
  if x.negative then -(x.units / unitsPerOne : Nat) else (x.units / unitsPerOne : Nat)

end Binary64

def UnaryOp.onIntegers : UnaryOp → Int → Int
  | not, n => if n = 0 then 1 else 0
  | minus, n => -n
  | plus, n => n
  | bitNot, n => -n - 1

namespace BinaryOp

/-- Operators that the target has too. -/
def direct : List BinaryOp := [add, sub, mul, mod, eq, ne, lt, le, gt, ge]

def logical : List BinaryOp := [or, and, xor]

/-- Operators of integer expressions. -/
def arithmetic : List BinaryOp := direct ++ intDiv :: logical

theorem mem_logical {op : BinaryOp} : op ∈ logical ↔ op = or ∨ op = and ∨ op = xor := by simp [logical]

theorem mem_arithmetic {op : BinaryOp} :
    op ∈ arithmetic ↔ op ∈ direct ∨ op = intDiv ∨ op = or ∨ op = and ∨ op = xor := by
  simp [arithmetic, logical]

/-- Quotients are truncated toward zero, and a remainder has the sign of the dividend. -/
def onIntegers : BinaryOp → Int → Int → Int
  | add, n, k => n + k
  | sub, n, k => n - k
  | mul, n, k => n * k
  | intDiv, n, k => n.tdiv k
  | mod, n, k => n.tmod k
  | or, n, k => if n ≠ 0 ∨ k ≠ 0 then 1 else 0
  | and, n, k => if n ≠ 0 ∧ k ≠ 0 then 1 else 0
  | xor, n, k => if n ≠ 0 ∧ k = 0 ∨ n = 0 ∧ k ≠ 0 then 1 else 0
  | eq, n, k => if n = k then 1 else 0
  | ne, n, k => if n ≠ k then 1 else 0
  | lt, n, k => if n < k then 1 else 0
  | le, n, k => if n ≤ k then 1 else 0
  | gt, n, k => if n > k then 1 else 0
  | ge, n, k => if n ≥ k then 1 else 0
  | _, _, _ => 0

/-- No divisor is zero, and an integer quotient has 32 bits. -/
def IsSafe (op : BinaryOp) (n k : Int) : Prop :=
  (op = intDiv ∨ op = mod → k ≠ 0) ∧ (op = intDiv → -2 ^ 31 ≤ n.tdiv k ∧ n.tdiv k < 2 ^ 31)

instance (op : BinaryOp) (n k : Int) : Decidable (op.IsSafe n k) := inferInstanceAs (Decidable (_ ∧ _))

end BinaryOp

namespace Expr

/-- An integer expression; the functions that it calls have names of the target. -/
def IsArithmetic (a : Alphabet) : Expr → Prop
  | .number x _ => x.IsInteger
  | .rawCall f args _ => args = [] ∧ a.IsName f ∧ f ≠ "true" ∧ f ≠ "false"
  | .unary op e _ => op ≠ .bitNot ∧ e.IsArithmetic a
  | .binary op l r _ => op ∈ BinaryOp.arithmetic ∧ l.IsArithmetic a ∧ r.IsArithmetic a
  | _ => False

/-- The value of an integer expression, if its functions have these results. -/
def value (results : String → Int) : Expr → Int
  | .number x _ => x.integer
  | .rawCall f _ _ => results f
  | .unary op e _ => op.onIntegers (e.value results)
  | .binary op l r _ => op.onIntegers (l.value results) (r.value results)
  | _ => 0

def IsSafe (results : String → Int) : Expr → Prop
  | .unary _ e _ => e.IsSafe results
  | .binary op l r _ => l.IsSafe results ∧ r.IsSafe results ∧ op.IsSafe (l.value results) (r.value results)
  | _ => True

/-- The functions called by an integer expression, from left to right. -/
def calls : Expr → List String
  | .rawCall f _ _ => [f]
  | .unary _ e _ => e.calls
  | .binary _ l r _ => l.calls ++ r.calls
  | _ => []

def IsLogical : Expr → Prop
  | .binary op _ _ _ => op ∈ BinaryOp.logical
  | _ => False

end Expr

/-! ## Terms of the target that they become -/

/-- Two negations make a truth value. -/
def Target.Term.truth (t : Term) : Term := .unary "!" (.unary "!" t)

namespace BinaryOp

/-- A direct operator as the target spells it. -/
def mark : BinaryOp → String
  | mod => "%"
  | op => op.symbol

def term : BinaryOp → Term → Term → Term
  | intDiv, t, u => .binary "|" (.binary "/" t u) (.num 0)
  | or, t, u => .binary "|" (.truth (.binary "+" t.truth u.truth)) (.num 0)
  | and, t, u => .binary "*" t.truth u.truth
  | xor, t, u =>
    .binary "|" (.unary "!" (.binary "-" (.binary "+" (.unary "!" t) (.unary "!" u)) (.num 1))) (.num 0)
  | op, t, u => .binary op.mark t u

end BinaryOp

def Binary64.term (x : Binary64) : Term :=
  if x.negative then .unary "-" (.num (x.units / unitsPerOne)) else .num (x.units / unitsPerOne)

def Expr.term : Expr → Term
  | .number x _ => x.term
  | .rawCall f _ _ => .call (.name f)
  | .unary op e _ => .unary op.symbol e.term
  | .binary op l r _ => op.term l.term r.term
  | _ => .num 0

/-! ## The printed text is read as the term -/

namespace BinaryOp

/-- The tokens around the operands. -/
def frameTokens : BinaryOp → List Token × List Token × List Token
  | intDiv => ([.mark "(", .mark "("], [.mark "/"], [.mark ")", .mark "|", .num 0, .mark ")"])
  | or =>
    ([.mark "(", .mark "!", .mark "!", .mark "(", .mark "!", .mark "!", .mark "("],
      [.mark ")", .mark "+", .mark "!", .mark "!", .mark "("],
      [.mark ")", .mark ")", .mark "|", .num 0, .mark ")"])
  | and =>
    ([.mark "(", .mark "!", .mark "!", .mark "("], [.mark ")", .mark "*", .mark "!", .mark "!", .mark "("],
      [.mark ")", .mark ")"])
  | xor =>
    ([.mark "(", .mark "!", .mark "(", .mark "(", .mark "!", .mark "("],
      [.mark ")", .mark "+", .mark "!", .mark "("],
      [.mark ")", .mark ")", .mark "-", .num 1, .mark ")", .mark "|", .num 0, .mark ")"])
  | op => ([.mark "("], [.mark op.mark], [.mark ")"])

theorem direct_shape {op : BinaryOp} (h : op ∈ direct) :
    op.frame = ("(", " " ++ op.mark ++ " ", ")") ∧
      op.frameTokens = ([.mark "("], [.mark op.mark], [.mark ")"]) ∧ op.term = .binary op.mark ∧
      op.mark ∈ marks ∧ op.mark ∈ levels.flatten := by
  simp only [direct, List.mem_cons, List.not_mem_nil, or_false] at h
  rcases h with rfl | rfl | rfl | rfl | rfl | rfl | rfl | rfl | rfl | rfl <;>
    exact ⟨by decide, rfl, rfl, by decide, by decide⟩

variable {a : Alphabet}

theorem lexes_not {d : Char} {cs : List Char} {ts : List Token} (hd : d ≠ '=') (h : Lexes a (d :: cs) ts) :
    Lexes a ('!' :: d :: cs) (.mark "!" :: ts) := Lexes.mark (m := "!") (by decide) hd h

theorem lexes_orZero : Lexes a ['|', '0', ')'] [.mark "|", .num 0, .mark ")"] :=
  Lexes.mark (m := "|") (by decide) (by decide)
    (Lexes.number [] rfl (by simp) readNumber_zero rfl (.closing lexes_nil))

theorem lexes_spaced {m : String} (hm : m ∈ marks) : Lexes a (" " ++ m ++ " ").toList [.mark m] := by
  have h : Lexes a (' ' :: (m.toList ++ [' '])) [.mark m] :=
    .space (.mark hm (by decide) (.space lexes_nil))
  simpa using h

theorem lexes_frame {op : BinaryOp} (hop : op ∈ arithmetic) :
    Lexes a op.frame.1.toList op.frameTokens.1 ∧ Lexes a op.frame.2.1.toList op.frameTokens.2.1 ∧
      Lexes a op.frame.2.2.toList op.frameTokens.2.2 := by
  have hOpen : Lexes a ['(', ' '] [.mark "("] := .opening (.space lexes_nil)
  have hNot : Lexes a ['!', '(', ' '] [.mark "!", .mark "("] := lexes_not (by decide) hOpen
  have hTruth : Lexes a ['!', '!', '(', ' '] [.mark "!", .mark "!", .mark "("] := lexes_not (by decide) hNot
  rcases mem_arithmetic.mp hop with hop | rfl | rfl | rfl | rfl
  · obtain ⟨hFrame, hTokens, -, hMark, -⟩ := direct_shape hop
    rw [hFrame, hTokens]
    refine ⟨?_, lexes_spaced hMark, ?_⟩
    · simpa using Lexes.opening (a := a) lexes_nil
    · simpa using Lexes.closing (a := a) lexes_nil
  · refine ⟨?_, lexes_spaced (m := "/") (by decide), ?_⟩
    · simpa [frame, frameTokens] using Lexes.opening (a := a) (.opening lexes_nil)
    · simpa [frame, frameTokens] using Lexes.closing (a := a) lexes_orZero
  · refine ⟨?_, ?_, ?_⟩
    · simpa [frame, frameTokens] using
        Lexes.opening (lexes_not (by decide) (lexes_not (by decide) (.opening hTruth)))
    · simpa [frame, frameTokens] using Lexes.space (.closing (.mark (m := "+") (by decide) (by decide) hTruth))
    · simpa [frame, frameTokens] using Lexes.space (.closing (.closing (lexes_orZero (a := a))))
  · refine ⟨?_, ?_, ?_⟩
    · simpa [frame, frameTokens] using Lexes.opening hTruth
    · simpa [frame, frameTokens] using Lexes.space (.closing (.mark (m := "*") (by decide) (by decide) hTruth))
    · simpa [frame, frameTokens] using Lexes.space (a := a) (.closing (.closing lexes_nil))
  · refine ⟨?_, ?_, ?_⟩
    · simpa [frame, frameTokens] using Lexes.opening (lexes_not (by decide) (.opening (.opening hNot)))
    · simpa [frame, frameTokens] using Lexes.space (.closing (.mark (m := "+") (by decide) (by decide) hNot))
    · have hOne : Lexes a ['1', ')', '|', '0', ')'] [.num 1, .mark ")", .mark "|", .num 0, .mark ")"] :=
        .number [] rfl (by simp) readNumber_one rfl (.closing lexes_orZero)
      simpa [frame, frameTokens] using
        Lexes.space (.closing (.closing (.mark (m := "-") (by decide) (by decide) hOne)))

theorem operand_frame {op : BinaryOp} (hop : op ∈ arithmetic) {ts us : List Token} {t u : Term}
    (hLeft : Operand ts t) (hRight : Operand us u) :
    Operand (op.frameTokens.1 ++ (ts ++ (op.frameTokens.2.1 ++ (us ++ op.frameTokens.2.2)))) (op.term t u) := by
  have hNot : ∀ {ts t}, Enclosed ts t → Operand (.mark "!" :: .mark "(" :: (ts ++ [.mark ")"])) (.unary "!" t) :=
    fun h => .sign (by decide) (.paren h)
  have hTruth : ∀ {ts t}, Enclosed ts t →
      Operand (.mark "!" :: .mark "!" :: .mark "(" :: (ts ++ [.mark ")"])) t.truth :=
    fun h => .sign (by decide) (hNot h)
  have hOrZero : ∀ {ts t}, Operand ts t →
      Operand (.mark "(" :: (ts ++ [.mark "|", .num 0, .mark ")"])) (.binary "|" t (.num 0)) := fun h => by
    simpa using Operand.paren (.binary (by decide) h (.num 0))
  rcases mem_arithmetic.mp hop with hop | rfl | rfl | rfl | rfl
  · obtain ⟨-, hTokens, hTerm, -, hMark⟩ := direct_shape hop
    rw [hTokens, hTerm]
    simpa using Operand.paren (.binary hMark hLeft hRight)
  · have hQuotient := Operand.paren (.binary (m := "/") (by decide) hLeft hRight)
    simpa [frameTokens, term] using hOrZero hQuotient
  · have hSum := Enclosed.binary (m := "+") (by decide) (hTruth hLeft.enclosed) (hTruth hRight.enclosed)
    simpa [frameTokens, term] using hOrZero (hTruth hSum)
  · have hProduct := Enclosed.binary (m := "*") (by decide) (hTruth hLeft.enclosed) (hTruth hRight.enclosed)
    simpa [frameTokens, term] using Operand.paren hProduct
  · have hSum := Enclosed.binary (m := "+") (by decide) (hNot hLeft.enclosed) (hNot hRight.enclosed)
    have hDifference := Enclosed.binary (m := "-") (by decide) (.paren hSum) (.num 1)
    simpa [frameTokens, term] using hOrZero (hNot hDifference)

end BinaryOp

namespace Emit

/-- The emission prints this text and does nothing else. -/
def Prints (m : Emit Unit) (text : String) : Prop := ∀ k, m k = .ok () { k with text := k.text ++ text }

theorem prints_pure : Prints (pure ()) "" := by
  intro k
  simp [pure, EStateM.pure]

theorem prints_print (s : String) : Prints (print s) s := fun _ => rfl

theorem Prints.seq {m n : Emit Unit} {s t : String} (hm : Prints m s) (hn : Prints n t) :
    Prints (do m; n) (s ++ t) := by
  intro k
  simp only [bind, EStateM.bind, hm k, hn _]
  rw [String.append_assoc]

/-- The emission prints one operand, in parentheses, that is read as the term. -/
def Denotes (a : Alphabet) (m : Emit Unit) (t : Term) : Prop :=
  ∃ text ts, Prints m text ∧ text.toList.head? = some '(' ∧ Lexes a text.toList ts ∧ Operand ts t

variable {a : Alphabet}

theorem Denotes.binary {op : BinaryOp} (hop : op ∈ BinaryOp.arithmetic) {l r : Emit Unit} {t u : Term}
    (hl : Denotes a l t) (hr : Denotes a r u) : Denotes a (Emit.binary op l r) (op.term t u) := by
  obtain ⟨left, ts, hPrintsLeft, -, hLexesLeft, hLeft⟩ := hl
  obtain ⟨right, us, hPrintsRight, -, hLexesRight, hRight⟩ := hr
  obtain ⟨hFirst, hMiddle, hLast⟩ := BinaryOp.lexes_frame (a := a) hop
  have hOpens : ∀ op ∈ BinaryOp.arithmetic, op.frame.1.toList.head? = some '(' := by
    simp [BinaryOp.arithmetic, BinaryOp.direct, BinaryOp.logical, BinaryOp.frame]
  have hPrints : Prints (Emit.binary op l r)
      (op.frame.1 ++ (left ++ (op.frame.2.1 ++ (right ++ op.frame.2.2)))) :=
    (prints_print _).seq (hPrintsLeft.seq ((prints_print _).seq (hPrintsRight.seq (prints_print _))))
  refine ⟨_, _, hPrints, ?_, ?_, BinaryOp.operand_frame hop hLeft hRight⟩
  · rw [String.toList_append, List.head?_append, hOpens op hop]
    rfl
  · simp only [String.toList_append]
    exact hFirst.append (hLexesLeft.append (hMiddle.append (hLexesRight.append hLast)))

theorem Denotes.unary (op : UnaryOp) {e : Emit Unit} {t : Term} (h : Denotes a e t) :
    Denotes a (Emit.unary op e) (.unary op.symbol t) := by
  obtain ⟨text, ts, hPrints, hOpens, hLexes, hOperand⟩ := h
  obtain ⟨cs, hChars⟩ := List.head?_eq_some_iff.mp hOpens
  have hMark : op.symbol ∈ marks := by cases op <;> decide
  have hSign : op.symbol ∈ signs := by cases op <;> decide
  have hPrints' : Prints (Emit.unary op e) ("(" ++ (op.symbol ++ (text ++ ")"))) :=
    (prints_print _).seq ((prints_print _).seq (hPrints.seq (prints_print _)))
  refine ⟨_, _, hPrints', by simp, ?_, .paren (Operand.sign hSign hOperand).enclosed⟩
  rw [hChars] at hLexes
  have hTail := Lexes.mark hMark (by decide) (hLexes.append (.closing lexes_nil))
  simpa [hChars] using hTail.opening

theorem denotes_rawCall {f : String} (hName : a.IsName f) (hTrue : f ≠ "true") (hFalse : f ≠ "false") :
    Denotes a (Emit.rawCall f (pure ())) (.call (.name f)) := by
  have hPrints : Prints (Emit.rawCall f (pure ())) ("(" ++ (f ++ (")(" ++ ("" ++ ")")))) :=
    (prints_print _).seq ((prints_print _).seq ((prints_print _).seq (prints_pure.seq (prints_print _))))
  have hStop : a.continues ')' = false := (markChar_classes (by simp [markChars])).2.2.2.2
  refine ⟨_, _, hPrints, by simp, ?_, .call (Operand.name hTrue hFalse).enclosed⟩
  simpa using (Lexes.name hName hStop (.closing (.opening (.closing lexes_nil)))).opening

theorem denotes_number {x : Binary64} (hFinite : x.magnitude < Binary64.infinityBits) :
    Denotes a (parens (print x.literal)) x.term := by
  have hPrints : Prints (parens (print x.literal)) ("(" ++ (x.literal ++ ")")) :=
    (prints_print _).seq ((prints_print _).seq (prints_print _))
  have hLiteral := Binary64.literal_of_finite hFinite
  obtain ⟨c, cs, hPlain, hc, hcs⟩ := plain_shape (x.shortest .up)
  have hValue := readNumber_shortest hFinite .up
  obtain ⟨q, hq⟩ : ∃ q : ℚ, x.units / Binary64.unitsPerOne = q := ⟨_, rfl⟩
  rw [hPlain, hq] at hValue
  have hDigits := Lexes.number (a := a) (d := ')') cs hc hcs hValue rfl (.closing lexes_nil)
  by_cases hNegative : x.negative = true
  · have hTerm : x.term = .unary "-" (.num q) := by rw [Binary64.term, if_pos hNegative, hq]
    have hNext : c ≠ '=' := by
      rintro rfl
      simp at hc
    rw [hTerm]
    refine ⟨_, _, hPrints, by simp, ?_, .paren (Operand.sign (by decide) (.num q)).enclosed⟩
    have hSigned := Lexes.mark (m := "-") (by decide) hNext hDigits
    simpa [hLiteral, hNegative, hPlain] using hSigned.opening
  · have hTerm : x.term = .num q := by rw [Binary64.term, if_neg hNegative, hq]
    rw [hTerm]
    refine ⟨_, _, hPrints, by simp, ?_, .paren (Operand.num q).enclosed⟩
    simpa [hLiteral, hNegative, hPlain] using hDigits.opening

end Emit

theorem Expr.lower_denotes {a : Alphabet} (g : Setting) {e : Expr} (h : e.IsArithmetic a) :
    Emit.Denotes a (e.lower g) e.term := by
  fun_induction Expr.IsArithmetic a e with
  | case1 x =>
    rw [Expr.lower, Expr.term]
    exact Emit.denotes_number h.1
  | case2 f args =>
    obtain ⟨rfl, hName, hTrue, hFalse⟩ := h
    rw [Expr.lower, lowerArgs, Expr.term]
    exact Emit.denotes_rawCall hName hTrue hFalse
  | case3 op e _ ih =>
    rw [Expr.lower, Expr.term]
    exact (ih h.2).unary op
  | case4 op l r _ ihLeft ihRight =>
    rw [Expr.lower, Expr.term]
    exact .binary h.1 (ihLeft h.2.1) (ihRight h.2.2)
  | case5 => exact h.elim

/-! ## The term has the value of the expression -/

theorem Target.Yields.truth {results : String → Int} {t : Term} {v : Value} {q : ℚ} {calls : List String}
    (h : Yields results t v q calls) : Yields results t.truth (.bool (q ≠ 0)) (if q = 0 then 0 else 1) calls := by
  have hTwice := h.not.not
  by_cases hq : q = 0 <;> simpa [hq, Term.truth] using hTwice

namespace BinaryOp

variable {results : String → Int} {t u : Term} {v w : Value} {n k : Int} {cs ds : List String}

theorem applyOperator_mark {op : BinaryOp} (hop : op ∈ direct) (hSafe : op.IsSafe n k) :
    ∃ value, applyOperator op.mark n k = some value ∧ value.number? = some (op.onIntegers n k : ℚ) := by
  simp only [direct, List.mem_cons, List.not_mem_nil, or_false] at hop
  rcases hop with rfl | rfl | rfl | rfl | hop
  · exact ⟨_, rfl, by simp [Value.number?, onIntegers]⟩
  · exact ⟨_, rfl, by simp [Value.number?, onIntegers]⟩
  · exact ⟨_, rfl, by simp [Value.number?, onIntegers]⟩
  · have hk : k ≠ 0 := hSafe.1 (.inr rfl)
    refine ⟨_, if_neg (by exact_mod_cast hk), ?_⟩
    simp only [Value.number?, onIntegers, truncate_div n hk, Int.tmod_def]
    push_cast
    rfl
  · rcases hop with rfl | rfl | rfl | rfl | rfl | rfl <;> exact ⟨_, rfl, by simp [Value.number?, onIntegers]⟩

theorem onIntegers_logical {op : BinaryOp} (hop : op ∈ logical) (n k : Int) :
    -2 ^ 31 ≤ op.onIntegers n k ∧ op.onIntegers n k < 2 ^ 31 := by
  rcases mem_logical.mp hop with rfl | rfl | rfl <;> simp only [onIntegers] <;> split <;> norm_num

theorem yields_logical {op : BinaryOp} (hop : op ∈ logical) (hLeft : Yields results t v n cs)
    (hRight : Yields results u w k ds) :
    ∃ q, Yields results (op.term t u) (.num q) (op.onIntegers n k) (cs ++ ds) := by
  obtain ⟨hLow, hHigh⟩ := onIntegers_logical hop n k
  rcases mem_logical.mp hop with rfl | rfl | rfl
  · have hTruth := (hLeft.truth.binary (m := "+") hRight.truth rfl rfl).truth
    refine ⟨_, (hTruth.of_eq ?_).orZero (truncate_intCast _) hLow hHigh⟩
    by_cases hn : n = 0 <;> by_cases hk : k = 0 <;> norm_num [onIntegers, hn, hk]
  · have hProduct := hLeft.truth.binary (m := "*") hRight.truth rfl rfl
    refine ⟨_, hProduct.of_eq ?_⟩
    by_cases hn : n = 0 <;> by_cases hk : k = 0 <;> norm_num [onIntegers, hn, hk]
  · -- The sum of the negations is one if exactly one operand is zero.
    have hSum := hLeft.not.binary (m := "+") hRight.not rfl rfl
    have hDifference := hSum.binary (m := "-") (.num 1) rfl rfl
    rw [List.append_nil] at hDifference
    refine ⟨_, (hDifference.not.of_eq ?_).orZero (truncate_intCast _) hLow hHigh⟩
    by_cases hn : n = 0 <;> by_cases hk : k = 0 <;> norm_num [onIntegers, hn, hk]

/-- The term of an operation has its value, after the calls of the left operand and then of the right one. -/
theorem yields_term {op : BinaryOp} (hop : op ∈ arithmetic) (hSafe : op.IsSafe n k)
    (hLeft : Yields results t v n cs) (hRight : Yields results u w k ds) :
    ∃ value, Yields results (op.term t u) value (op.onIntegers n k) (cs ++ ds) ∧
      (op ∈ logical → ∃ q, value = .num q) := by
  rw [arithmetic, List.mem_append, List.mem_cons] at hop
  rcases hop with hop | rfl | hop
  · obtain ⟨value, hApply, hNumber⟩ := applyOperator_mark hop hSafe
    obtain ⟨-, -, hTerm, -, -⟩ := direct_shape hop
    rw [hTerm]
    have hDisjoint : ∀ op ∈ direct, op ∉ logical := by decide
    exact ⟨value, hLeft.binary hRight hApply hNumber, fun hLogical => absurd hLogical (hDisjoint op hop)⟩
  · have hk : k ≠ 0 := hSafe.1 (.inl rfl)
    obtain ⟨hLow, hHigh⟩ := hSafe.2 rfl
    have hQuotient := hLeft.binary (m := "/") hRight (if_neg (by exact_mod_cast hk)) rfl
    exact ⟨_, hQuotient.orZero (truncate_div n hk) hLow hHigh, fun _ => ⟨_, rfl⟩⟩
  · obtain ⟨q, hYields⟩ := yields_logical hop hLeft hRight
    exact ⟨_, hYields, fun _ => ⟨q, rfl⟩⟩

end BinaryOp

theorem UnaryOp.yields {results : String → Int} {op : UnaryOp} (hop : op ≠ .bitNot) {t : Term} {v : Value}
    {n : Int} {calls : List String} (h : Yields results t v n calls) :
    ∃ value, Yields results (.unary op.symbol t) value (op.onIntegers n) calls := by
  cases op with
  | not => exact ⟨_, h.not.of_eq (by simp [onIntegers])⟩
  | minus => exact ⟨_, h.neg.of_eq (by simp [onIntegers])⟩
  | plus => exact ⟨_, h.pos⟩
  | bitNot => exact absurd rfl hop

theorem Binary64.yields (results : String → Int) {x : Binary64} (hx : x.IsInteger) :
    ∃ value, Yields results x.term value x.integer [] := by
  have hQuotient : (x.units / unitsPerOne : ℚ) = (x.units / unitsPerOne : Nat) :=
    (Nat.cast_div hx.2 (by exact_mod_cast unitsPerOne_pos.ne')).symm
  unfold Binary64.term Binary64.integer
  rw [hQuotient]
  split
  · exact ⟨_, (Yields.num _).neg.of_eq (by push_cast; rfl)⟩
  · exact ⟨_, (Yields.num _).of_eq (by push_cast; rfl)⟩

theorem Expr.term_yields {a : Alphabet} {results : String → Int} {e : Expr} (h : e.IsArithmetic a)
    (hSafe : e.IsSafe results) :
    ∃ value, Yields results e.term value (e.value results) e.calls ∧ (e.IsLogical → ∃ q, value = .num q) := by
  fun_induction Expr.IsArithmetic a e with
  | case1 x =>
    obtain ⟨value, hYields⟩ := Binary64.yields results h
    exact ⟨value, hYields, False.elim⟩
  | case2 f args => exact ⟨_, .call f, False.elim⟩
  | case3 op e _ ih =>
    obtain ⟨v, hYields, -⟩ := ih h.2 hSafe
    obtain ⟨value, hUnary⟩ := op.yields h.1 hYields
    exact ⟨value, hUnary, False.elim⟩
  | case4 op l r _ ihLeft ihRight =>
    obtain ⟨v, hLeft, -⟩ := ihLeft h.2.1 hSafe.1
    obtain ⟨w, hRight, -⟩ := ihRight h.2.2 hSafe.2.1
    exact BinaryOp.yields_term h.1 hSafe.2.2 hLeft hRight
  | case5 => exact h.elim

/-- An integer expression is printed as one expression of the target, whatever letters the target has. It
calls the functions that the source calls, as often and in the same order, and its number is the value of
the source. Logical operators give a number and no truth value. -/
theorem lowered_arithmetic_evaluates (a : Alphabet) (results : String → Int) (g : Setting) {e : Expr}
    (hArithmetic : e.IsArithmetic a) (hSafe : e.IsSafe results) :
    ∃ text value, Emit.Prints (e.lower g) text ∧ evaluate a results text = some (value, e.calls) ∧
      value.number? = some (e.value results : ℚ) ∧ (e.IsLogical → ∃ q, value = .num q) := by
  obtain ⟨text, ts, hPrints, -, hLexes, hOperand⟩ := e.lower_denotes g hArithmetic
  obtain ⟨value, hYields, hLogical⟩ := e.term_yields hArithmetic hSafe
  refine ⟨text, value, hPrints, ?_, hYields.number, hLogical⟩
  have hTokens : tokenize a text.toList = some ts := by
    have hWhole := hLexes []
    rw [List.append_nil, tokenize] at hWhole
    simpa using hWhole
  simp only [evaluate, hTokens, hOperand.enclosed.readTerm_eq, hYields.evaluates, Option.bind_eq_bind,
    Option.bind_some]

/-- Names of ASCII letters and digits. -/
def Target.Alphabet.ascii : Alphabet where
  blank := [' ', '\t', '\n', '\x0b', '\x0c', '\r'].contains
  letter := Char.isAlpha
  numeric := Char.isDigit
  blank_ascii _ _ := rfl
  letter_ascii _ _ := rfl
  numeric_ascii _ _ := rfl
  blank_letter c hc := by
    have hNot : ∀ b ∈ [' ', '\t', '\n', '\x0b', '\x0c', '\r'], b.isAlpha = false := by simp
    rw [← Bool.not_eq_true, List.contains_iff_mem]
    exact fun hMem => by simp [hNot c hMem] at hc

/-- `f() div -2 ^^ !g() <= -1`, where the last number is a negative literal and the first one is negated. -/
def quotientOrComparison : Expr :=
  .binary .xor
    (.binary .intDiv (.rawCall "f" [] none) (.unary .minus (.number (.ofNat 2) none) none) none)
    (.binary .le (.unary .not (.rawCall "g" [] none) none) (.number (.ofRatio true 1 1) none) none) none

theorem quotientOrComparison_evaluates :
    ∃ text value, Emit.Prints (quotientOrComparison.lower ⟨.empty, {}⟩) text ∧
      evaluate .ascii (fun f => if f = "f" then -7 else 0) text = some (value, ["f", "g"]) ∧
      value.number? = some ((1 : Int) : ℚ) ∧ ∃ q, value = .num q := by
  have hTwo : (Binary64.ofNat 2).IsInteger := by decide +kernel
  have hOne : (Binary64.ofRatio true 1 1).IsInteger := by decide +kernel
  have hArithmetic : quotientOrComparison.IsArithmetic .ascii := by
    refine ⟨by decide, ⟨by decide, ⟨rfl, ?_, by decide, by decide⟩, by decide, hTwo⟩,
      by decide, ⟨by decide, rfl, ?_, by decide, by decide⟩, hOne⟩
    · exact ⟨'f', [], rfl, by decide, by simp⟩
    · exact ⟨'g', [], rfl, by decide, by simp⟩
  have hSafe : quotientOrComparison.IsSafe (fun f => if f = "f" then -7 else 0) :=
    ⟨⟨trivial, trivial, by decide +kernel⟩, ⟨trivial, trivial, by decide +kernel⟩, by decide +kernel⟩
  have hValue : quotientOrComparison.value (fun f => if f = "f" then -7 else 0) = 1 := by decide +kernel
  obtain ⟨text, value, hPrints, hEvaluate, hNumber, hLogical⟩ :=
    lowered_arithmetic_evaluates .ascii _ ⟨.empty, {}⟩ hArithmetic hSafe
  rw [hValue] at hNumber
  exact ⟨text, value, hPrints, hEvaluate, hNumber, hLogical (show BinaryOp.xor ∈ BinaryOp.logical by decide)⟩

end TreeLowering
