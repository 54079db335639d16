import CssHighlight.Text.Case
import CssHighlight.Text.Integer

/-!
# Floating-point values

Numbers of the binary64 format, held exactly as a whole multiple of a power of two. A decimal
number becomes the nearest such value; of two equally near ones, the one with the even multiple.
-/
namespace CssHighlight

/-- A finite value is `± mantissa · 2 ^ exponent` with `mantissa < 2 ^ 53`, `-1074 ≤ exponent`
and, above the least exponent, `2 ^ 52 ≤ mantissa`. -/
inductive Binary64 where
  | nan
  | infinite (negative : Bool)
  | finite (negative : Bool) (mantissa : Nat) (exponent : Int)
  deriving DecidableEq, Repr, Inhabited

namespace Binary64

def minExponent : Int := -1074

def maxExponent : Int := 971

/-- `10 ^ e` as a fraction. -/
def powerOf (base : Nat) (e : Int) : Nat × Nat :=
  if 0 ≤ e then (base.pow e.toNat, 1) else (1, base.pow (-e).toNat)

/-- The quotient rounded to nearest, a half going to the even neighbour. -/
def roundDiv (num den : Nat) : Nat :=
  let q := num / den
  let r := num % den
  if 2 * r < den then q
  else if den < 2 * r then q + 1
  else if q % 2 = 0 then q else q + 1

/-- The exponent at which `num / den`, a positive fraction, has 53 binary digits before the
point; the least exponent when it would be below it. -/
def exponentFor (num den : Nat) : Int :=
  let guess : Int := (num.log2 : Int) - (den.log2 : Int) - 52
  let (p, q) := powerOf 2 guess
  let e := if num * q < den * p * (1 <<< 52) then guess - 1 else guess
  max e minExponent

def ofFraction (negative : Bool) (num den : Nat) : Binary64 :=
  if num = 0 then .finite negative 0 minExponent
  else
    let e := exponentFor num den
    let (p, q) := powerOf 2 e
    let m := roundDiv (num * q) (den * p)
    let (m, e) := if m = 1 <<< 53 then (1 <<< 52, e + 1) else (m, e)
    if maxExponent < e then .infinite negative else .finite negative m e

/-- The value nearest to `± significand · 10 ^ exponent`. Magnitudes far outside the format are
settled without writing the power of ten out. -/
def ofDecimal (negative : Bool) (significand : Nat) (exponent : Int) : Binary64 :=
  let places : Int := (Nat.toDigits 10 significand).length
  if significand = 0 ∨ places + exponent < -400 then .finite negative 0 minExponent
  else if 400 < places + exponent then .infinite negative
  else
    let (p, q) := powerOf 10 exponent
    ofFraction negative (significand * p) q

/-- The values of the ASCII digits at the front, and the rest. -/
def takeDigits : List Char → List Nat × List Char
  | [] => ([], [])
  | c :: rest =>
    if '0' ≤ c ∧ c ≤ '9' then
      let (digits, rest) := takeDigits rest
      ((c.toNat - 48) :: digits, rest)
    else ([], c :: rest)

/-- The exponent part: `e`, a sign and digits. The value is zero when there is none. -/
def exponentPart : List Char → Option Int
  | [] => some 0
  | c :: rest =>
    if c = 'e' ∨ c = 'E' then
      let (negative, rest) := match rest with
        | '-' :: rest => (true, rest)
        | '+' :: rest => (false, rest)
        | rest => (false, rest)
      match takeDigits rest with
      | (digit :: digits, []) =>
        let magnitude := Text.ofDigits 10 (digit :: digits).reverse
        some (if negative then -(magnitude : Int) else magnitude)
      | _ => none
    else none

/-- A decimal number without its sign. -/
def unsigned? (negative : Bool) (s : List Char) : Option Binary64 :=
  let (whole, rest) := takeDigits s
  let (fraction, rest) := match rest with
    | '.' :: rest => takeDigits rest
    | rest => ([], rest)
  let digits := whole ++ fraction
  if digits.isEmpty then none
  else (exponentPart rest).map fun exponent =>
    ofDecimal negative (Text.ofDigits 10 digits.reverse) (exponent - fraction.length)

def ofText? (s : String) : Option Binary64 :=
  let (negative, rest) := match s.toList with
    | '-' :: rest => (true, rest)
    | '+' :: rest => (false, rest)
    | rest => (false, rest)
  let word := String.ofList (Text.lowerChars rest)
  if word = "nan" then some .nan
  else if word = "inf" ∨ word = "infinity" then some (.infinite negative)
  else unsigned? negative rest

end Binary64

end CssHighlight
