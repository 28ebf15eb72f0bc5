import TreeLowering.Proofs.Target.Token

/-! # Terms of emitted expressions, read from tokens

Operators of one level associate to the left. Tighter than all of them are the signs, and tighter than the
signs is a call. -/
namespace TreeLowering.Target
set_option autoImplicit false

inductive Term where
  | num (value : ℚ)
  | bool (value : Bool)
  | name (text : String)
  | call (callee : Term)
  | unary (mark : String) (operand : Term)
  | binary (mark : String) (left right : Term)

/-- Binary operators by level, the loosest first. -/
def levels : List (List String) :=
  [["|"], ["==", "!="], ["<", "<=", ">", ">="], ["+", "-"], ["*", "/", "%"]]

def signs : List String := ["!", "-", "+", "~"]

/-- A term, and fewer tokens after it than there were. -/
structure Reading (size : Nat) where
  term : Term
  rest : List Token
  shorter : rest.length < size

def Reading.widen {m n : Nat} (r : Reading m) (h : m ≤ n) : Reading n := ⟨r.term, r.rest, r.shorter.trans_le h⟩

/-- The calls after a callee. Only calls without arguments are read. -/
def readCalls (callee : Term) : (ts : List Token) → Option (Reading (ts.length + 1))
  | .mark m :: ts =>
    if m = "(" then
      match ts with
      | .mark n :: ts =>
        if n = ")" then (readCalls (.call callee) ts).map (·.widen (by simp)) else none
      | _ => none
    else some ⟨callee, .mark m :: ts, Nat.lt_succ_self _⟩
  | ts => some ⟨callee, ts, Nat.lt_succ_self _⟩

/-- The end of a term in parentheses. -/
def readClosing (inner : Term) : (ts : List Token) → Option (Reading (ts.length + 1))
  | .mark m :: ts => if m = ")" then some ⟨inner, ts, Nat.lt_succ_of_lt (Nat.lt_succ_self _)⟩ else none
  | _ => none

mutual
def readLevels : List (List String) → (ts : List Token) → Option (Reading ts.length)
  | [], ts => readSigned ts
  | operators :: tighter, ts => do
    let first ← readLevels tighter ts
    let whole ← readChain operators tighter first.term first.rest
    pure (whole.widen first.shorter)
termination_by levels ts => (ts.length, levels.length + 3)
decreasing_by
  · exact Prod.Lex.right _ (by decide)
  · exact Prod.Lex.right _ (by simp)
  · exact Prod.Lex.left _ _ first.shorter

/-- Further operands of one level. -/
def readChain (operators : List String) (tighter : List (List String)) (left : Term) :
    (ts : List Token) → Option (Reading (ts.length + 1))
  | .mark m :: ts =>
    if m ∈ operators then do
      let right ← readLevels tighter ts
      let whole ← readChain operators tighter (.binary m left right.term) right.rest
      pure (whole.widen (Nat.succ_le_succ (right.shorter.le.trans (Nat.le_succ _))))
    else some ⟨left, .mark m :: ts, Nat.lt_succ_self _⟩
  | ts => some ⟨left, ts, Nat.lt_succ_self _⟩
termination_by ts => (ts.length, 0)
decreasing_by
  · exact Prod.Lex.left _ _ (Nat.lt_succ_self _)
  · exact Prod.Lex.left _ _ (right.shorter.trans (Nat.lt_succ_self _))

def readSigned : (ts : List Token) → Option (Reading ts.length)
  | .mark m :: ts =>
    if m ∈ signs then do
      let operand ← readSigned ts
      pure ⟨.unary m operand.term, operand.rest, operand.shorter.trans (Nat.lt_succ_self _)⟩
    else readCalled (.mark m :: ts)
  | ts => readCalled ts
termination_by ts => (ts.length, 2)

def readCalled (ts : List Token) : Option (Reading ts.length) := do
  let callee ← readPrimary ts
  let whole ← readCalls callee.term callee.rest
  pure (whole.widen callee.shorter)
termination_by (ts.length, 1)

def readPrimary : (ts : List Token) → Option (Reading ts.length)
  | [] => none
  | .num value :: ts => some ⟨.num value, ts, Nat.lt_succ_self _⟩
  | .name text :: ts =>
    let term := if text = "true" then .bool true else if text = "false" then .bool false else .name text
    some ⟨term, ts, Nat.lt_succ_self _⟩
  | .mark m :: ts =>
    if m = "(" then do
      let inner ← readLevels levels ts
      let whole ← readClosing inner.term inner.rest
      pure (whole.widen (inner.shorter.trans (Nat.lt_succ_self _)))
    else none
termination_by ts => (ts.length, 0)
end

/-- The term that a list of tokens is, as a whole. -/
def readTerm (ts : List Token) : Option Term := do
  let whole ← readLevels levels ts
  if whole.rest = [] then pure whole.term else none

/-! ## What one operator reads -/

/-- A term was read, and these tokens come after it. -/
def Reads {size : Nat} (r : Option (Reading size)) (t : Term) (rest : List Token) : Prop :=
  ∃ h, r = some ⟨t, rest, h⟩

section Levels

variable {operators : List String} {tighter ls : List (List String)} {left t u : Term} {ts us rest : List Token}

theorem readCalls_stop (h : ts.head? ≠ some (.mark "(")) :
    readCalls left ts = some ⟨left, ts, Nat.lt_succ_self _⟩ := by
  match ts with
  | [] | .num _ :: _ | .name _ :: _ => rw [readCalls]; simp
  | .mark m :: ts =>
    have hm : m ≠ "(" := fun hEq => h (by rw [hEq]; rfl)
    rw [readCalls.eq_def]
    exact if_neg hm

theorem readChain_stop (h : ∀ m, ts.head? = some (.mark m) → m ∉ operators) :
    readChain operators tighter left ts = some ⟨left, ts, Nat.lt_succ_self _⟩ := by
  match ts with
  | [] | .num _ :: _ | .name _ :: _ => rw [readChain]; simp
  | .mark m :: ts => rw [readChain, if_neg (h m rfl)]

theorem readLevels_cons (hFirst : Reads (readLevels tighter ts) t rest)
    (hStop : ∀ m, rest.head? = some (.mark m) → m ∉ operators) :
    Reads (readLevels (operators :: tighter) ts) t rest := by
  obtain ⟨h, hFirst⟩ := hFirst
  refine ⟨h, ?_⟩
  rw [readLevels, hFirst]
  simp only [Option.bind_eq_bind, Option.bind_some]
  rw [readChain_stop hStop]
  rfl

/-- A signed term that no operator follows is read by every level as it is. -/
theorem readLevels_signed (hSigned : Reads (readSigned ts) t rest)
    (hStop : ∀ operators ∈ ls, ∀ m, rest.head? = some (.mark m) → m ∉ operators) :
    Reads (readLevels ls ts) t rest := by
  induction ls with
  | nil => rwa [readLevels]
  | cons operators tighter ih =>
    exact readLevels_cons (ih fun ops hOps => hStop ops (List.mem_cons_of_mem _ hOps))
      (hStop operators List.mem_cons_self)

/-- Two signed terms are the operands of the operator between them. -/
theorem readLevels_binary {m : String} (hm : m ∈ ls.flatten) (hSigned : Reads (readSigned ts) t (.mark m :: us))
    (hNext : Reads (readSigned us) u rest)
    (hStop : ∀ operators ∈ ls, ∀ n, rest.head? = some (.mark n) → n ∉ operators) :
    Reads (readLevels ls ts) (.binary m t u) rest := by
  induction ls with
  | nil => simp at hm
  | cons operators tighter ih =>
    have hStopTighter : ∀ ops ∈ tighter, ∀ n, rest.head? = some (.mark n) → n ∉ ops :=
      fun ops hOps => hStop ops (List.mem_cons_of_mem _ hOps)
    have hStopHere := hStop operators List.mem_cons_self
    by_cases hTighter : m ∈ tighter.flatten
    · exact readLevels_cons (ih hTighter hStopTighter) hStopHere
    · have hHere : m ∈ operators := by
        rw [List.flatten_cons, List.mem_append] at hm
        exact hm.resolve_right hTighter
      have hFirst : Reads (readLevels tighter ts) t (.mark m :: us) := by
        refine readLevels_signed hSigned fun ops hOps n hn hMem => hTighter ?_
        cases hn
        exact List.mem_flatten.mpr ⟨ops, hOps, hMem⟩
      obtain ⟨hLeft, hFirst⟩ := hFirst
      obtain ⟨hRight, hSecond⟩ := readLevels_signed hNext hStopTighter
      refine ⟨hRight.trans ((Nat.lt_succ_self _).trans hLeft), ?_⟩
      rw [readLevels, hFirst]
      simp only [Option.bind_eq_bind, Option.bind_some]
      rw [readChain, if_pos hHere, hSecond]
      simp only [Option.bind_eq_bind, Option.bind_some]
      rw [readChain_stop hStopHere]
      rfl

theorem readSigned_eq_readCalled (h : ∀ m, ts.head? = some (.mark m) → m ∉ signs) :
    readSigned ts = readCalled ts := by
  match ts with
  | [] | .num _ :: _ | .name _ :: _ => rw [readSigned]; simp
  | .mark m :: ts => rw [readSigned, if_neg (h m rfl)]

theorem readSigned_primary (hSigns : ∀ m, ts.head? = some (.mark m) → m ∉ signs)
    (hPrimary : Reads (readPrimary ts) t rest) (hRest : rest.head? ≠ some (.mark "(")) :
    Reads (readSigned ts) t rest := by
  obtain ⟨h, hPrimary⟩ := hPrimary
  refine ⟨h, ?_⟩
  rw [readSigned_eq_readCalled hSigns, readCalled, hPrimary]
  simp only [Option.bind_eq_bind, Option.bind_some]
  rw [readCalls_stop hRest]
  rfl

theorem readSigned_call (hSigns : ∀ m, ts.head? = some (.mark m) → m ∉ signs)
    (hPrimary : Reads (readPrimary ts) t (.mark "(" :: .mark ")" :: rest))
    (hRest : rest.head? ≠ some (.mark "(")) : Reads (readSigned ts) (.call t) rest := by
  obtain ⟨h, hPrimary⟩ := hPrimary
  simp only [List.length_cons] at h
  refine ⟨by omega, ?_⟩
  rw [readSigned_eq_readCalled hSigns, readCalled, hPrimary]
  simp only [Option.bind_eq_bind, Option.bind_some]
  rw [readCalls, if_pos rfl, if_pos rfl, readCalls_stop hRest]
  rfl

end Levels

/-! ## Token lists that are one term -/

/-- The tokens are one signed term, whatever comes after them but a call. -/
def Operand (ts : List Token) (t : Term) : Prop :=
  ∀ rest, rest.head? ≠ some (.mark "(") → Reads (readSigned (ts ++ rest)) t rest

/-- The tokens are one term if a closing parenthesis or nothing comes after them. -/
def Enclosed (ts : List Token) (t : Term) : Prop :=
  ∀ rest, (∀ m, rest.head? = some (.mark m) → m = ")") → Reads (readLevels levels (ts ++ rest)) t rest

variable {ts us : List Token} {t u : Term}

theorem not_operator_of_closes {rest : List Token} (hRest : ∀ m, rest.head? = some (.mark m) → m = ")") :
    ∀ operators ∈ levels, ∀ m, rest.head? = some (.mark m) → m ∉ operators := by
  intro operators hOperators m hm
  rw [hRest m hm]
  revert operators
  decide

theorem not_call_of_closes {rest : List Token} (hRest : ∀ m, rest.head? = some (.mark m) → m = ")") :
    rest.head? ≠ some (.mark "(") := fun hOpen => by simpa using hRest "(" hOpen

theorem Operand.enclosed (h : Operand ts t) : Enclosed ts t := fun rest hRest =>
  readLevels_signed (h rest (not_call_of_closes hRest)) (not_operator_of_closes hRest)

namespace Enclosed

theorem binary {m : String} (hm : m ∈ levels.flatten) (hLeft : Operand ts t) (hRight : Operand us u) :
    Enclosed (ts ++ .mark m :: us) (.binary m t u) := by
  intro rest hRest
  have hNotCall : m ≠ "(" := by
    rintro rfl
    revert hm
    decide
  rw [List.append_assoc, List.cons_append]
  refine readLevels_binary hm (hLeft _ ?_) (hRight rest (not_call_of_closes hRest)) (not_operator_of_closes hRest)
  simpa using hNotCall

theorem readTerm_eq (h : Enclosed ts t) : readTerm ts = some t := by
  have hWhole := h [] (by simp)
  rw [List.append_nil] at hWhole
  obtain ⟨_, hWhole⟩ := hWhole
  simp [readTerm, hWhole]

theorem primary (h : Enclosed ts t) (rest : List Token) :
    Reads (readPrimary (.mark "(" :: (ts ++ .mark ")" :: rest))) t rest := by
  obtain ⟨hShorter, hInner⟩ := h (.mark ")" :: rest) (by simp)
  refine ⟨(Nat.lt_succ_self _).trans (hShorter.trans (Nat.lt_succ_self _)), ?_⟩
  rw [readPrimary, if_pos rfl, hInner]
  rfl

end Enclosed

namespace Operand

theorem num (value : ℚ) : Operand [.num value] (.num value) := by
  intro rest hRest
  rw [List.singleton_append]
  refine readSigned_primary (by simp) ⟨Nat.lt_succ_self _, ?_⟩ hRest
  rw [readPrimary]

theorem name {text : String} (hTrue : text ≠ "true") (hFalse : text ≠ "false") :
    Operand [.name text] (.name text) := by
  intro rest hRest
  rw [List.singleton_append]
  refine readSigned_primary (by simp) ⟨Nat.lt_succ_self _, ?_⟩ hRest
  rw [readPrimary, if_neg hTrue, if_neg hFalse]

theorem sign {m : String} (hm : m ∈ signs) (h : Operand ts t) : Operand (.mark m :: ts) (.unary m t) := by
  intro rest hRest
  obtain ⟨hShorter, hOperand⟩ := h rest hRest
  rw [List.cons_append]
  refine ⟨hShorter.trans (Nat.lt_succ_self _), ?_⟩
  rw [readSigned, if_pos hm, hOperand]
  rfl

theorem paren (h : Enclosed ts t) : Operand (.mark "(" :: (ts ++ [.mark ")"])) t := by
  intro rest hRest
  rw [List.cons_append, List.append_assoc, List.singleton_append]
  exact readSigned_primary (by simp [signs]) (h.primary rest) hRest

theorem call (h : Enclosed ts t) :
    Operand (.mark "(" :: (ts ++ [.mark ")", .mark "(", .mark ")"])) (.call t) := by
  intro rest hRest
  rw [List.cons_append, List.append_assoc]
  exact readSigned_call (by simp [signs]) (h.primary _) hRest

end Operand
end TreeLowering.Target
