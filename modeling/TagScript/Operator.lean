import TagScript.Fault

namespace TagScript

def fit? (n : Int) : Option Int64 :=
  if -9223372036854775808 ≤ n ∧ n ≤ 9223372036854775807 then some (Int64.ofInt n) else none

namespace Operator

def narrow (operation : String) (n : Int) : Except Fault Value :=
  match fit? n with
  | some n => .ok (.number n)
  | none => .error (.integerOverflow operation)

def onNumbers (op : Operator) (a b : Int64) : Except Fault Value :=
  match op with
  | add => narrow "addition" (a.toInt + b.toInt)
  | subtract => narrow "subtraction" (a.toInt - b.toInt)
  | multiply => narrow "multiplication" (a.toInt * b.toInt)
  | divide =>
    if b = 0 then .error .divisionByZero else narrow "division" (a.toInt.tdiv b.toInt)
  | greater => .ok (.boolean (b < a))
  | smaller => .ok (.boolean (a < b))
  | equal => .ok (.boolean (a = b))
  | notEqual => .ok (.boolean (a ≠ b))

def onStrings (op : Operator) (s t : String) : Except Fault Value :=
  match op with
  | add => .ok (.string (s ++ t))
  | equal => .ok (.boolean (s = t))
  | notEqual => .ok (.boolean (s ≠ t))
  | _ => .error (.typeMismatch op .string .string)

def apply (op : Operator) (left right : Value) : Except Fault Value :=
  match left.resolved, right.resolved with
  | .number a, .number b => op.onNumbers a b
  | .string s, .string t => op.onStrings s t
  | v, w => .error (.typeMismatch op v.type w.type)

end Operator

theorem toInt_of_fit? {n : Int} {r : Int64} (h : fit? n = some r) : r.toInt = n := by
  unfold fit? at h
  split at h
  · next hn => cases h; exact Int64.toInt_ofInt_of_le (by omega) (by omega)
  · cases h

@[simp] theorem fit?_toInt (n : Int64) : fit? n.toInt = some n := by
  have h₁ := n.le_toInt
  have h₂ := n.toInt_lt
  rw [fit?, if_pos (by omega), Int64.ofInt_toInt]

end TagScript
