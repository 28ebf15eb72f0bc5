import TreeLowering.Proofs.Target.Grammar

/-! # Evaluation of emitted expressions

Arithmetic is exact, over the rational numbers. Truth values count as numbers, and numbers as truth values.
What has no rational value, a quotient by zero or a function taken as a number, has none here. -/
namespace TreeLowering.Target
set_option autoImplicit false

inductive Value where
  | num (value : ℚ)
  | bool (value : Bool)
  | func (name : String)
deriving DecidableEq

namespace Value

def number? : Value → Option ℚ
  | num q => some q
  | bool b => some (if b then 1 else 0)
  | func _ => none

def truthy : Value → Bool
  | num q => q ≠ 0
  | bool b => b
  | func _ => true

end Value

/-- The number without its fraction. -/
def truncate (q : ℚ) : Int := q.num.tdiv q.den

/-- The last 32 bits of a number without its fraction. -/
def word (q : ℚ) : BitVec 32 := .ofInt 32 (truncate q)

def applySign (m : String) (v : Value) : Option Value :=
  match m with
  | "!" => some (.bool (!v.truthy))
  | "-" => v.number?.map fun q => .num (-q)
  | "+" => v.number?.map fun q => .num q
  | "~" => v.number?.map fun q => .num (~~~word q).toInt
  | _ => none

def applyOperator (m : String) (p q : ℚ) : Option Value :=
  match m with
  | "|" => some (.num (word p ||| word q).toInt)
  | "==" => some (.bool (p = q))
  | "!=" => some (.bool (p ≠ q))
  | "<" => some (.bool (p < q))
  | "<=" => some (.bool (p ≤ q))
  | ">" => some (.bool (p > q))
  | ">=" => some (.bool (p ≥ q))
  | "+" => some (.num (p + q))
  | "-" => some (.num (p - q))
  | "*" => some (.num (p * q))
  | "/" => if q = 0 then none else some (.num (p / q))
  | "%" => if q = 0 then none else some (.num (p - q * truncate (p / q)))
  | _ => none

/-- The value of a term and the functions that were called for it, in order. `results` has what each
function returns. -/
def Term.evaluate (results : String → Int) : Term → Option (Value × List String)
  | .num q => some (.num q, [])
  | .bool b => some (.bool b, [])
  | .name text => some (.func text, [])
  | .call callee => do
    match ← callee.evaluate results with
    | (.func f, calls) => some (.num (results f), calls ++ [f])
    | _ => none
  | .unary m operand => do
    let (v, calls) ← operand.evaluate results
    let value ← applySign m v
    pure (value, calls)
  | .binary m left right => do
    let (v, calls) ← left.evaluate results
    let (w, further) ← right.evaluate results
    let value ← applyOperator m (← v.number?) (← w.number?)
    pure (value, calls ++ further)

/-- Value and calls of a text that is one expression. -/
def evaluate (a : Alphabet) (results : String → Int) (text : String) : Option (Value × List String) := do
  let tokens ← tokenize a text.toList
  let term ← readTerm tokens
  term.evaluate results

/-! ## Truncation -/

theorem truncate_intCast (n : Int) : truncate n = n := by
  simp [truncate]

theorem truncate_div (a : Int) {b : Int} (hb : b ≠ 0) : truncate (a / b : ℚ) = a.tdiv b := by
  obtain ⟨c, ha, hbc⟩ := Rat.exists_eq_mul_div_num_and_eq_mul_div_den a hb
  have hc : c ≠ 0 := by
    rintro rfl
    exact hb (hbc.trans (zero_mul _))
  have hCancel : ∀ x y : Int, (c * x).tdiv (c * y) = x.tdiv y := by
    intro x y
    rcases lt_or_gt_of_ne hc with hNeg | hPos
    · rw [← Int.neg_tdiv_neg, ← neg_mul, ← neg_mul, Int.mul_tdiv_mul_of_pos _ _ (neg_pos.mpr hNeg)]
    · exact Int.mul_tdiv_mul_of_pos _ _ hPos
  calc
    truncate (a / b : ℚ) = (c * (a / b : ℚ).num).tdiv (c * (a / b : ℚ).den) := (hCancel _ _).symm
    _ = a.tdiv b := by rw [← ha, ← hbc]

/-- An integer of 32 bits is kept by a disjunction with zero. -/
theorem word_or_zero {q : ℚ} {n : Int} (hq : truncate q = n) (hLow : -2 ^ 31 ≤ n) (hHigh : n < 2 ^ 31) :
    (word q ||| word 0).toInt = n := by
  have hZero : word 0 = 0#32 := by simp [word, truncate]
  rw [hZero, BitVec.or_zero, word, hq]
  exact BitVec.toInt_ofInt_eq_self (by decide) hLow hHigh

/-! ## Terms with a number -/

theorem truthy_eq {v : Value} {q : ℚ} (h : v.number? = some q) : v.truthy = decide (q ≠ 0) := by
  cases v with
  | num p => cases h; rfl
  | bool b => cases h; cases b <;> simp [Value.truthy]
  | func f => cases h

/-- The term has this value, and the value this number, after these calls. -/
structure Yields (results : String → Int) (t : Term) (v : Value) (q : ℚ) (calls : List String) : Prop where
  evaluates : t.evaluate results = some (v, calls)
  number : v.number? = some q

namespace Yields

variable {results : String → Int} {t u : Term} {v w : Value} {p q r : ℚ} {calls further : List String}

theorem of_eq (h : Yields results t v p calls) (hEq : p = q) : Yields results t v q calls := hEq ▸ h

theorem num (q : ℚ) : Yields results (.num q) (.num q) q [] := ⟨rfl, rfl⟩

theorem call (f : String) : Yields results (.call (.name f)) (.num (results f)) (results f) [f] := ⟨rfl, rfl⟩

theorem not (h : Yields results t v q calls) :
    Yields results (.unary "!" t) (.bool (q = 0)) (if q = 0 then 1 else 0) calls := by
  refine ⟨?_, by simp [Value.number?]⟩
  simp [Term.evaluate, h.evaluates, applySign, truthy_eq h.number]

theorem neg (h : Yields results t v q calls) : Yields results (.unary "-" t) (.num (-q)) (-q) calls := by
  refine ⟨?_, rfl⟩
  simp [Term.evaluate, h.evaluates, applySign, h.number]

theorem pos (h : Yields results t v q calls) : Yields results (.unary "+" t) (.num q) q calls := by
  refine ⟨?_, rfl⟩
  simp [Term.evaluate, h.evaluates, applySign, h.number]

theorem binary {m : String} {value : Value} (hLeft : Yields results t v p calls)
    (hRight : Yields results u w q further) (hApply : applyOperator m p q = some value)
    (hNumber : value.number? = some r) : Yields results (.binary m t u) value r (calls ++ further) := by
  refine ⟨?_, hNumber⟩
  simp [Term.evaluate, hLeft.evaluates, hRight.evaluates, hLeft.number, hRight.number, hApply]

/-- Disjunction with zero leaves the integer part of a number. -/
theorem orZero (h : Yields results t v q calls) {n : Int} (hq : truncate q = n) (hLow : -2 ^ 31 ≤ n)
    (hHigh : n < 2 ^ 31) : Yields results (.binary "|" t (.num 0)) (.num n) n calls := by
  have hApply : applyOperator "|" q 0 = some (.num n) := by
    rw [← word_or_zero hq hLow hHigh]
    rfl
  simpa using h.binary (num 0) hApply rfl

end Yields
end TreeLowering.Target
