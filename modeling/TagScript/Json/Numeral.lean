import TagScript.Operator

namespace TagScript.Json

abbrev Digit := Fin 10

namespace Digit

def ofChar? (c : Char) : Option Digit :=
  if c.isDigit then some (Fin.ofNat 10 (c.toNat - 48)) else none

def zero : Digit := ⟨0, by decide⟩

def char (d : Digit) : Char := Nat.digitChar d.val

def value (digits : List Digit) : Nat := digits.foldl (fun n d => 10 * n + d.val) 0

def ofNatOnto (n : Nat) (rest : List Digit) : List Digit :=
  if n < 10 then Fin.ofNat 10 n :: rest else ofNatOnto (n / 10) (Fin.ofNat 10 n :: rest)

def ofNat (n : Nat) : List Digit := ofNatOnto n []

def leading (n : Nat) : List Digit → Nat × List Digit
  | [] => (n, [])
  | d :: rest =>
    if 10 * n + d.val ≤ 18446744073709551615 then leading (10 * n + d.val) rest
    else (n, d :: rest)

end Digit

structure Exponent where
  negative : Bool
  digits : List Digit
  deriving DecidableEq

def Exponent.toInt (e : Exponent) : Int :=
  if e.negative then -(Digit.value e.digits : Int) else Digit.value e.digits

structure Numeral where
  negative : Bool
  whole : List Digit
  fraction : List Digit
  exponent : Option Exponent
  deriving DecidableEq

namespace Numeral

def ofInt64 (n : Int64) : Numeral := ⟨n.toInt < 0, Digit.ofNat n.toInt.natAbs, [], none⟩

def toNat? (n : Numeral) : Option Nat :=
  if n.negative = false ∧ n.fraction = [] ∧ n.exponent = none then some (Digit.value n.whole)
  else none

/-- The 64-bit integer that a numeral writes out. A fraction or an exponent makes it something else
than an integer, whatever its value, and so does the sign of a negative zero. -/
def toInt64? (n : Numeral) : Option Int64 :=
  if n.fraction = [] ∧ n.exponent = none then
    if n.negative then
      if Digit.value n.whole = 0 then none else fit? (-(Digit.value n.whole : Int))
    else fit? (Digit.value n.whole)
  else none

end Numeral

def roundToDouble (n : Nat) : Nat :=
  let unit := 1 <<< (n.log2 + 1 - 53)
  let q := n / unit
  let r := n % unit
  if unit < 2 * r ∨ (unit = 2 * r ∧ q % 2 = 1) then (q + 1) * unit else q * unit

def doubleLimit : Nat := (1 <<< 54 - 1) <<< 970

/-- The numeral stands for a finite double: its leading digits, as many as 64 bits hold, times a
power of ten, each of the two factors and their product rounded. -/
def Numeral.finite (n : Numeral) : Bool :=
  let (whole, wholeRest) := Digit.leading 0 n.whole
  let (significand, fractionRest) := Digit.leading whole n.fraction
  let shift : Int := (n.exponent.map Exponent.toInt).getD 0
  let exponent := shift + wholeRest.length - (n.fraction.length - fractionRest.length : Nat)
  significand = 0 || exponent < 0 ||
    (exponent ≤ 308 &&
      roundToDouble significand * roundToDouble (Nat.pow 10 exponent.toNat) < doubleLimit)

end TagScript.Json
