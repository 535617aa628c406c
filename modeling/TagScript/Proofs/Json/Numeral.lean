import Mathlib.Data.List.Induction
import TagScript.Json.Token

namespace TagScript.Json

namespace Digit

@[simp] theorem ofChar?_char (d : Digit) : ofChar? d.char = some d := by
  revert d
  decide

def Proper (digits : List Digit) : Prop :=
  ∃ first rest, digits = first :: rest ∧ (first = zero → rest = [])

theorem foldl_ofNatOnto (n : Nat) (rest : List Digit) :
    (ofNatOnto n rest).foldl (fun n d => 10 * n + d.val) 0 =
      rest.foldl (fun n d => 10 * n + d.val) n := by
  fun_induction ofNatOnto n rest with
  | case1 n rest h => simp [Fin.ofNat, Nat.mod_eq_of_lt h]
  | case2 n rest h ih =>
    rw [ih, List.foldl_cons]
    congr 1
    simp only [Fin.ofNat]
    omega

@[simp] theorem value_ofNat (n : Nat) : value (ofNat n) = n :=
  foldl_ofNatOnto n []

theorem ofNatOnto_eq_cons {n : Nat} (h : n ≠ 0) (rest : List Digit) :
    ∃ first more, ofNatOnto n rest = first :: more ∧ first ≠ zero := by
  fun_induction ofNatOnto n rest with
  | case1 n rest hlt =>
    refine ⟨Fin.ofNat 10 n, rest, rfl, ?_⟩
    intro hzero
    have hval : n % 10 = 0 := congrArg Fin.val hzero
    omega
  | case2 n rest hge ih => exact ih (by omega)

theorem proper_ofNat (n : Nat) : Proper (ofNat n) := by
  by_cases h : n = 0
  · subst h
    exact ⟨zero, [], by rw [ofNat, ofNatOnto]; rfl, fun _ => rfl⟩
  · obtain ⟨first, more, heq, hfirst⟩ := ofNatOnto_eq_cons h []
    exact ⟨first, more, heq, fun hzero => absurd hzero hfirst⟩

theorem le_foldl (digits : List Digit) (n : Nat) :
    n ≤ digits.foldl (fun n d => 10 * n + d.val) n := by
  induction digits generalizing n with
  | nil => exact Nat.le_refl n
  | cons d rest ih => exact Nat.le_trans (by omega) (ih (10 * n + d.val))

theorem value_concat (digits : List Digit) (d : Digit) :
    value (digits ++ [d]) = 10 * value digits + d.val := by
  simp [value]

theorem value_pos {first : Digit} (h : first ≠ zero) (rest : List Digit) :
    0 < value (first :: rest) := by
  have hfirst : first.val ≠ 0 := fun hzero => h (Fin.ext hzero)
  have hle := le_foldl rest (10 * 0 + first.val)
  rw [value, List.foldl_cons]
  omega

theorem ofNatOnto_value {digits : List Digit} (h : Proper digits) (rest : List Digit) :
    ofNatOnto (value digits) rest = digits ++ rest := by
  obtain ⟨first, more, rfl, hfirst⟩ := h
  induction more using List.reverseRecOn generalizing rest with
  | nil =>
    have hvalue : value [first] = first.val := by simp [value]
    rw [hvalue, ofNatOnto, if_pos first.isLt, Fin.ofNat_val_eq_self]
    rfl
  | append_singleton more d ih =>
    have hne : first ≠ zero := fun hzero => by simpa using hfirst hzero
    have hpos := value_pos hne more
    have hd := d.isLt
    have hlast : Fin.ofNat 10 (10 * value (first :: more) + d.val) = d := by
      apply Fin.ext
      simp only [Fin.ofNat]
      omega
    have hrest : (10 * value (first :: more) + d.val) / 10 = value (first :: more) := by omega
    rw [← List.cons_append, value_concat, ofNatOnto, if_neg (by omega), hlast, hrest,
      ih _ fun hzero => absurd hzero hne, List.append_assoc, List.singleton_append]

theorem ofNat_value {digits : List Digit} (h : Proper digits) : ofNat (value digits) = digits := by
  rw [ofNat, ofNatOnto_value h, List.append_nil]

theorem leading_eq {digits : List Digit} {n : Nat}
    (h : digits.foldl (fun n d => 10 * n + d.val) n ≤ 18446744073709551615) :
    leading n digits = (digits.foldl (fun n d => 10 * n + d.val) n, []) := by
  induction digits generalizing n with
  | nil => rfl
  | cons d rest ih =>
    have hle := le_foldl rest (10 * n + d.val)
    rw [List.foldl_cons] at h ⊢
    rw [leading, if_pos (by omega), ih h]

theorem leading_ofNat {n : Nat} (h : n ≤ 18446744073709551615) :
    leading 0 (ofNat n) = (n, []) := by
  have hvalue : (ofNat n).foldl (fun n d => 10 * n + d.val) 0 = n := foldl_ofNatOnto n []
  rw [leading_eq (by rwa [hvalue]), hvalue]

end Digit

theorem roundToDouble_le {n : Nat} (h : n < 18446744073709551616) :
    roundToDouble n ≤ 36893488147419103232 := by
  have hlog : n.log2 < 64 := by
    by_cases hn : n = 0
    · subst hn
      decide
    · exact (@Nat.log2_lt n 64 hn).2 h
  have hunit : 1 <<< (n.log2 + 1 - 53) ≤ 2048 := by
    have hexponent : n.log2 + 1 - 53 ≤ 11 := by omega
    rw [Nat.shiftLeft_eq, Nat.one_mul]
    exact Nat.pow_le_pow_right (by decide) hexponent
  have hquotient := Nat.div_mul_le_self n (1 <<< (n.log2 + 1 - 53))
  simp only [roundToDouble]
  split
  · rw [Nat.add_mul]
    omega
  · omega

inductive Exponent.Written : Option Exponent → List Char → Prop
  | missing : Written none []
  | unsigned {mark digits} (hmark : mark = 'e' ∨ mark = 'E') (h : digits ≠ []) :
    Written (some ⟨false, digits⟩) (mark :: digits.map Digit.char)
  | plus {mark digits} (hmark : mark = 'e' ∨ mark = 'E') (h : digits ≠ []) :
    Written (some ⟨false, digits⟩) (mark :: '+' :: digits.map Digit.char)
  | minus {mark digits} (hmark : mark = 'e' ∨ mark = 'E') (h : digits ≠ []) :
    Written (some ⟨true, digits⟩) (mark :: '-' :: digits.map Digit.char)

namespace Numeral

def mantissa (n : Numeral) : Numeral := { n with exponent := none }

/-- The ways to write a numeral. They differ in the exponent only. -/
inductive Written : Numeral → List Char → Prop
  | intro {n exponent} (hwhole : Digit.Proper n.whole) (h : Exponent.Written n.exponent exponent) :
    Written n (n.mantissa.chars ++ exponent)

theorem Written.proper {n : Numeral} {chars : List Char} (h : n.Written chars) :
    Digit.Proper n.whole := by
  cases h with
  | intro hwhole => exact hwhole

structure Integral (n : Numeral) : Prop where
  proper : Digit.Proper n.whole
  fraction : n.fraction = []
  exponent : n.exponent = none

theorem Integral.written {n : Numeral} (h : n.Integral) : n.Written n.chars := by
  have hexponent : Exponent.Written n.exponent [] := by
    rw [h.exponent]
    exact .missing
  have hmantissa : n.mantissa = n := by rw [mantissa, ← h.exponent]
  have hwritten := Written.intro h.proper hexponent
  rwa [hmantissa, List.append_nil] at hwritten

theorem integral_ofInt64 (n : Int64) : (ofInt64 n).Integral :=
  ⟨Digit.proper_ofNat _, rfl, rfl⟩

@[simp] theorem toInt64?_ofInt64 (n : Int64) : (ofInt64 n).toInt64? = some n := by
  have hfit : fit? n.toInt = some n := fit?_toInt n
  have hvalue : Digit.value (ofInt64 n).whole = n.toInt.natAbs := Digit.value_ofNat _
  rw [toInt64?, if_pos ⟨rfl, rfl⟩, hvalue]
  by_cases h : n.toInt < 0
  · have hnegative : (ofInt64 n).negative = true := decide_eq_true h
    have habs : -(n.toInt.natAbs : Int) = n.toInt := by omega
    have hne : n.toInt.natAbs ≠ 0 := by omega
    rw [if_pos hnegative, if_neg hne, habs, hfit]
  · have hnegative : ¬ (ofInt64 n).negative = true := fun hn => h (of_decide_eq_true hn)
    have habs : (n.toInt.natAbs : Int) = n.toInt := by omega
    rw [if_neg hnegative, habs, hfit]

theorem finite_ofInt64 (n : Int64) : (ofInt64 n).finite := by
  have hle := n.le_toInt
  have hlt := n.toInt_lt
  have hdigits : Digit.leading 0 (Digit.ofNat n.toInt.natAbs) = (n.toInt.natAbs, []) :=
    Digit.leading_ofNat (by omega)
  have hproduct : roundToDouble n.toInt.natAbs * roundToDouble (Nat.pow 10 0) < doubleLimit := by
    have hround : roundToDouble n.toInt.natAbs ≤ 36893488147419103232 :=
      roundToDouble_le (by omega)
    have hone : roundToDouble (Nat.pow 10 0) = 1 := by decide
    have hlimit : 36893488147419103232 < doubleLimit := by decide
    rw [hone, Nat.mul_one]
    omega
  simp only [finite, ofInt64, hdigits, Digit.leading, Bool.or_eq_true, Bool.and_eq_true]
  exact .inr ⟨rfl, decide_eq_true hproduct⟩

end Numeral

end TagScript.Json
