import Mathlib.Data.Rat.Defs
import Mathlib.Algebra.Order.Ring.Rat
import Qvd.LineText

/-!
Texts read as numbers, as Perl does in an arithmetic context: the numeral at the front counts, and
a text without one is 0. Numerals have their exact values here.
-/
namespace Qvd.PerlNumbers

open LineText

inductive Number
  | finite (q : ℚ)
  | inf (negative : Bool)
  | nan
deriving DecidableEq

/-- `==`. -/
def Number.eq : Number → Number → Bool
  | .finite p, .finite q => p = q
  | .inf a, .inf b => a = b
  | _, _ => false

/-- `<`. -/
def Number.lt : Number → Number → Bool
  | .finite p, .finite q => p < q
  | .finite _, .inf negative => !negative
  | .inf negative, .finite _ => negative
  | .inf a, .inf b => a && !b
  | _, _ => false

/-- The sign at the front, and the rest. -/
def sign : Text → Bool × Text
  | '-' :: t => (true, t)
  | '+' :: t => (false, t)
  | t => (false, t)

def natural (digits : Text) : ℕ := Nat.ofDigitChars 10 digits 0

/-- `e` with a sign and digits; anything else is no exponent. -/
def exponent : Text → ℤ
  | c :: t =>
    if c = 'e' ∨ c = 'E' then
      let n := natural ((sign t).2.takeWhile Char.isDigit)
      if (sign t).1 then -n else n
    else 0
  | [] => 0

/-- Digits, digits behind a point, and an exponent. -/
def decimal (t : Text) : ℚ :=
  let ints := t.takeWhile Char.isDigit
  let rest := t.dropWhile Char.isDigit
  let hasPoint := rest.head? = some '.'
  let fraction := if hasPoint then rest.tail.takeWhile Char.isDigit else []
  let rest := if hasPoint then rest.tail.dropWhile Char.isDigit else rest
  if ints ++ fraction = [] then 0
  else natural (ints ++ fraction) * (10 : ℚ) ^ (exponent rest - fraction.length)

/-- A text as a number. -/
def numify (t : Text) : Number :=
  let (negative, t) := sign (trimLeft t)
  let word := (t.take 3).map Char.toLower
  if word = "inf".toList then .inf negative
  else if word = "nan".toList then .nan
  else .finite (if negative then -decimal t else decimal t)

example : numify " -12.5e1xyz".toList = .finite (-125) := by decide +kernel

end Qvd.PerlNumbers
