import TagScript.Proofs.OperatorTree
import TagScript.Proofs.Truthful

namespace TagScript

def InRange (n : Int) : Prop := Int64.minValue.toInt ≤ n ∧ n ≤ Int64.maxValue.toInt

instance : DecidablePred InRange := fun _ => inferInstanceAs (Decidable (_ ∧ _))

theorem inRange_iff {n : Int} :
    InRange n ↔ -9223372036854775808 ≤ n ∧ n ≤ 9223372036854775807 := Iff.rfl

theorem fit?_eq_some_iff {n : Int} {r : Int64} : fit? n = some r ↔ r.toInt = n := by
  constructor
  · exact toInt_of_fit?
  · rintro rfl
    exact fit?_toInt r

theorem fit?_eq_none_iff {n : Int} : fit? n = none ↔ ¬ InRange n := by
  rw [inRange_iff]
  simp [fit?]

inductive Operator.Gives (operation : String) (n : Int) : Except Fault Value → Prop
  | exact {r : Int64} (h : r.toInt = n) : Gives operation n (.ok (.number r))
  | overflow (h : ¬ InRange n) : Gives operation n (.error (.integerOverflow operation))

namespace Operator

inductive Yields : Operator → Value → Value → Except Fault Value → Prop
  | sum {a b : Int64} {r} (h : Gives "addition" (a.toInt + b.toInt) r) :
    Yields .add (.number a) (.number b) r
  | difference {a b : Int64} {r} (h : Gives "subtraction" (a.toInt - b.toInt) r) :
    Yields .subtract (.number a) (.number b) r
  | product {a b : Int64} {r} (h : Gives "multiplication" (a.toInt * b.toInt) r) :
    Yields .multiply (.number a) (.number b) r
  | noQuotient {a : Int64} : Yields .divide (.number a) (.number 0) (.error .divisionByZero)
  | quotient {a b : Int64} {r} (hb : b.toInt ≠ 0)
    (h : Gives "division" (a.toInt.tdiv b.toInt) r) :
    Yields .divide (.number a) (.number b) r
  | greater {a b : Int64} :
    Yields .greater (.number a) (.number b) (.ok (.boolean (a.toInt > b.toInt)))
  | smaller {a b : Int64} :
    Yields .smaller (.number a) (.number b) (.ok (.boolean (a.toInt < b.toInt)))
  | equal {a b : Int64} :
    Yields .equal (.number a) (.number b) (.ok (.boolean (a.toInt = b.toInt)))
  | notEqual {a b : Int64} :
    Yields .notEqual (.number a) (.number b) (.ok (.boolean (a.toInt ≠ b.toInt)))
  | joined {s t : String} : Yields .add (.string s) (.string t) (.ok (.string (s ++ t)))
  | sameText {s t : String} : Yields .equal (.string s) (.string t) (.ok (.boolean (s = t)))
  | otherText {s t : String} : Yields .notEqual (.string s) (.string t) (.ok (.boolean (s ≠ t)))
  | mismatch {op : Operator} {v w : Value} (h : ¬ op.Accepts v.type w.type) :
    Yields op v w (.error (.typeMismatch op v.type w.type))

theorem gives_narrow (operation : String) (n : Int) :
    Gives operation n (narrow operation n) := by
  rw [narrow]
  split
  · next r h => exact .exact (fit?_eq_some_iff.1 h)
  · next h => exact .overflow (fit?_eq_none_iff.1 h)

theorem narrow_eq_of_gives {operation : String} {n : Int} {r : Except Fault Value}
    (h : Gives operation n r) : narrow operation n = r := by
  cases h with
  | exact h => rw [narrow, fit?_eq_some_iff.2 h]
  | overflow h => rw [narrow, fit?_eq_none_iff.2 h]

theorem yields_onNumbers (op : Operator) (a b : Int64) :
    op.Yields (.number a) (.number b) (op.onNumbers a b) := by
  cases op with
  | add => exact .sum (gives_narrow ..)
  | subtract => exact .difference (gives_narrow ..)
  | multiply => exact .product (gives_narrow ..)
  | divide =>
    rw [onNumbers]
    split
    · next hb =>
      subst hb
      exact .noQuotient
    · next hb => exact .quotient (fun h => hb (Int64.toInt_inj.1 h)) (gives_narrow ..)
  | greater =>
    simp only [onNumbers, Int64.lt_iff_toInt_lt]
    exact .greater
  | smaller =>
    simp only [onNumbers, Int64.lt_iff_toInt_lt]
    exact .smaller
  | equal =>
    simp only [onNumbers, ← Int64.toInt_inj]
    exact .equal
  | notEqual =>
    simp only [onNumbers, ne_eq, ← Int64.toInt_inj]
    exact .notEqual

theorem yields_onStrings (op : Operator) (s t : String) :
    op.Yields (.string s) (.string t) (op.onStrings s t) := by
  cases op with
  | add => exact .joined
  | equal => exact .sameText
  | notEqual => exact .otherText
  | _ => exact .mismatch (by simp [Accepts, Value.type])

theorem yields_apply (op : Operator) (left right : Value) :
    op.Yields left.resolved right.resolved (op.apply left right) := by
  rw [apply]
  split
  · next a b ha hb =>
    rw [ha, hb]
    exact op.yields_onNumbers a b
  · next s t hs ht =>
    rw [hs, ht]
    exact op.yields_onStrings s t
  · next hnumbers hstrings => exact .mismatch (op.not_accepts hnumbers hstrings)

theorem Yields.apply_eq {op : Operator} {left right : Value} {r : Except Fault Value}
    (h : op.Yields left.resolved right.resolved r) : op.apply left right = r := by
  rw [apply]
  generalize left.resolved = v, right.resolved = w at h ⊢
  cases h with
  | sum h => exact narrow_eq_of_gives h
  | difference h => exact narrow_eq_of_gives h
  | product h => exact narrow_eq_of_gives h
  | noQuotient => rfl
  | quotient hb h =>
    have hb : _ ≠ (0 : Int64) := fun hzero => hb (Int64.toInt_inj.2 hzero)
    simp only [onNumbers, if_neg hb]
    exact narrow_eq_of_gives h
  | greater => simp only [onNumbers, Int64.lt_iff_toInt_lt, gt_iff_lt]
  | smaller => simp only [onNumbers, Int64.lt_iff_toInt_lt]
  | equal => simp only [onNumbers, Int64.toInt_inj]
  | notEqual => simp only [onNumbers, ne_eq, Int64.toInt_inj]
  | joined => rfl
  | sameText => rfl
  | otherText => rfl
  | mismatch h =>
    split
    · exact absurd (.inl ⟨rfl, rfl⟩) h
    · next s t =>
      cases op with
      | add => exact absurd (.inr ⟨rfl, rfl, .inl rfl⟩) h
      | equal => exact absurd (.inr ⟨rfl, rfl, .inr (.inl rfl)⟩) h
      | notEqual => exact absurd (.inr ⟨rfl, rfl, .inr (.inr rfl)⟩) h
      | _ => rfl
    · rfl

theorem apply_eq_iff_yields (op : Operator) (left right : Value) (r : Except Fault Value) :
    op.apply left right = r ↔ op.Yields left.resolved right.resolved r := by
  constructor
  · rintro rfl
    exact op.yields_apply left right
  · exact Yields.apply_eq

theorem inRange_tdiv {a b : Int64} (h : ¬ (a = Int64.minValue ∧ b = -1)) :
    InRange (a.toInt.tdiv b.toInt) := by
  have hmin : Int64.minValue.toInt = -9223372036854775808 := rfl
  have hone : (-1 : Int64).toInt = -1 := rfl
  have hle := a.le_toInt
  have hlt := a.toInt_lt
  rw [← Int64.toInt_inj, ← Int64.toInt_inj, hmin, hone] at h
  rw [inRange_iff]
  by_cases hb : b.toInt.natAbs < 2
  · have hcases : b.toInt = -1 ∨ b.toInt = 0 ∨ b.toInt = 1 := by omega
    rcases hcases with hb | hb | hb
    · rw [hb, Int.tdiv_neg, Int.tdiv_one]
      omega
    · rw [hb, Int.tdiv_zero]
      decide
    · rw [hb, Int.tdiv_one]
      omega
  · have hhalf : (a.toInt.tdiv b.toInt).natAbs ≤ a.toInt.natAbs / 2 := by
      rw [Int.natAbs_tdiv]
      exact Nat.div_le_div_left (by omega) (by decide)
    omega

theorem Gives.of_overflow {operation other : String} {n : Int}
    (h : Gives operation n (.error (.integerOverflow other))) : operation = other ∧ ¬ InRange n := by
  cases h with
  | overflow h => exact ⟨rfl, h⟩

theorem yields_division_overflow_iff {op : Operator} {a b : Int64} :
    op.Yields (.number a) (.number b) (.error (.integerOverflow "division")) ↔
      op = .divide ∧ a = Int64.minValue ∧ b = -1 := by
  constructor
  · intro h
    cases h with
    | sum h => exact absurd h.of_overflow.1 (by decide)
    | difference h => exact absurd h.of_overflow.1 (by decide)
    | product h => exact absurd h.of_overflow.1 (by decide)
    | quotient _ h =>
      exact ⟨rfl, Classical.not_not.1 fun hne => h.of_overflow.2 (inRange_tdiv hne)⟩
  · rintro ⟨rfl, rfl, rfl⟩
    exact .quotient (by decide) (.overflow (by decide))

theorem yields_divisionByZero_iff {op : Operator} {a b : Int64} :
    op.Yields (.number a) (.number b) (.error .divisionByZero) ↔ op = .divide ∧ b = 0 := by
  constructor
  · intro h
    cases h with
    | sum h => cases h
    | difference h => cases h
    | product h => cases h
    | noQuotient => exact ⟨rfl, rfl⟩
    | quotient _ h => cases h
  · rintro ⟨rfl, rfl⟩
    exact .noQuotient

end Operator

theorem Value.resolved_repeat (marks : Nat) (v : Value) :
    (Nat.repeat Value.identifier marks v).resolved = v.resolved := by
  induction marks with
  | zero => rfl
  | succ marks ih => exact ih

inductive Literal
  | number (n : Int64)
  | string (text : String)

namespace Literal

def statement : Literal → Statement
  | number n => .number n
  | string text => .string text

def value : Literal → Value
  | number n => .number n
  | string text => .string text

theorem resolved_value (literal : Literal) : literal.value.resolved = literal.value := by
  cases literal <;> rfl

theorem operator?_statement (literal : Literal) : literal.statement.operator? = none := by
  cases literal <;> rfl

theorem eval_statement (host : Host) (literal : Literal) :
    literal.statement.eval host = pure literal.value := by
  cases literal <;> rfl

theorem evaluate_binary (interpreter : Interpreter) (left right : Literal) (op : Operator) :
    interpreter.evaluate (.binary left.statement op right.statement) =
      (op.apply left.value right.value, interpreter) := by
  let tree : OperatorTree := .node op (.leaf ⟨left.statement, left.operator?_statement⟩)
    (.leaf ⟨right.statement, right.operator?_statement⟩)
  have htree : tree.eval interpreter.host = liftExcept (op.apply left.value right.value) := by
    simp only [tree, OperatorTree.eval, eval_statement, pure_bind]
  have hbinary : Statement.binary left.statement op right.statement = tree.nested := rfl
  rw [Interpreter.evaluate, hbinary, OperatorTree.eval_nested, htree, Interpreter.exec,
    Run.exec_liftExcept]

end Literal

/-- An operator gives what its rules say for the operands under any marks, and so does an expression
that applies it to two literals, which leaves the interpreter as it was. A quotient fails for a
divisor of zero and for one pair of numbers besides. -/
theorem Operator.apply_and_binary_iff_yields (op : Operator) :
    (∀ (left right : Value) (k l : Nat) (r : Except Fault Value),
      op.apply (Nat.repeat .identifier k left) (Nat.repeat .identifier l right) = r ↔
        op.Yields left.resolved right.resolved r) ∧
      (∀ a b : Int64,
        (op.apply (.number a) (.number b) = .error .divisionByZero ↔ op = .divide ∧ b = 0) ∧
        (op.apply (.number a) (.number b) = .error (.integerOverflow "division") ↔
          op = .divide ∧ a = Int64.minValue ∧ b = -1)) ∧
      ∀ (interpreter : Interpreter) (left right : Literal) (r : Except Fault Value)
        (after : Interpreter),
        interpreter.evaluate (.binary left.statement op right.statement) = (r, after) ↔
          op.Yields left.value right.value r ∧ after = interpreter := by
  refine ⟨?_, ?_, ?_⟩
  · intro left right k l r
    rw [apply_eq_iff_yields, Value.resolved_repeat, Value.resolved_repeat]
  · intro a b
    exact ⟨(apply_eq_iff_yields ..).trans yields_divisionByZero_iff,
      (apply_eq_iff_yields ..).trans yields_division_overflow_iff⟩
  · intro interpreter left right r after
    have hyields := apply_eq_iff_yields op left.value right.value r
    rw [left.resolved_value, right.resolved_value] at hyields
    rw [Literal.evaluate_binary, Prod.mk.injEq, hyields, eq_comm (a := interpreter)]

example : Operator.divide.apply (.number (-7)) (.identifier (.number 2)) = .ok (.number (-3)) := rfl

end TagScript
