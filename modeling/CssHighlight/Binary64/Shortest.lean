import CssHighlight.Binary64.Basic

/-!
# Shortest decimal form

A value is written with the fewest decimal digits that read back as the same value, and of those
the nearest to it; of two equally near ones, the one with the even last digit. The digits are found
in exact arithmetic: for 1, 2, … 17 digits the two neighbours of the value on that decimal grid are
tried.
-/
namespace CssHighlight.Binary64

/-- A positive value with the bounds of the numbers that round to it, all over one denominator.
The bounds themselves belong to it when `closed`. -/
structure Interval where
  low : Nat
  value : Nat
  high : Nat
  den : Nat
  closed : Bool

/-- The numbers that round to `mantissa · 2 ^ exponent`. Below a power of two the neighbours are
twice as dense. -/
def interval (mantissa : Nat) (exponent : Int) : Interval :=
  let (p, q) := powerOf 2 exponent
  let below := if mantissa = 1 <<< 52 ∧ minExponent < exponent then 1 else 2
  { low := (4 * mantissa - below) * p
    value := 4 * mantissa * p
    high := (4 * mantissa + 2) * p
    den := 4 * q
    closed := mantissa % 2 = 0 }

/-- Whether `num / den` rounds to the value. -/
def Interval.covers (i : Interval) (num den : Nat) : Bool :=
  let low := i.low * den
  let high := i.high * den
  let here := num * i.den
  if i.closed then low ≤ here && here ≤ high else low < here && here < high

/-- The least `k` with `value < 10 ^ k`, searched upwards from `k`. -/
def pointFrom (num den : Nat) : Nat → Int → Int
  | 0, k => k
  | fuel + 1, k =>
    let (p, q) := powerOf 10 k
    if num * q < den * p then k else pointFrom num den fuel (k + 1)

/-- The position of the decimal point: the value is below `10 ^ k` and not below
`10 ^ (k - 1)`. -/
def pointOf (num den : Nat) : Int :=
  let bits : Int := (num.log2 : Int) - (den.log2 : Int)
  pointFrom num den 8 ((bits - 1) * 30103 / 100000 - 1)

/-- Of two neighbours on a grid, the one nearer to the value, which lies `left` above the lower and
`right` below the upper one; a tie goes to the even one. -/
def nearer (below left right : Nat) : Nat :=
  if left < right then below
  else if right < left then below + 1
  else if below % 2 = 0 then below else below + 1

/-- The nearest of the grid points of `count` digits that rounds to the value. -/
def digitsOn? (i : Interval) (point : Int) (count : Nat) : Option Nat :=
  let (p, q) := powerOf 10 (point - count)
  let below := i.value * q / (i.den * p)
  let above := below + 1
  match i.covers (below * p) q, i.covers (above * p) q with
  | true, true =>
    some (nearer below (i.value * q - below * p * i.den) (above * p * i.den - i.value * q))
  | true, false => some below
  | false, true => some above
  | false, false => none

/-- The fewest digits, from `count` on, and the position of the point. -/
def shortestFrom (i : Interval) (point : Int) : Nat → Nat → Nat × Int
  | 0, count => (i.value / i.den, count)
  | fuel + 1, count =>
    match digitsOn? i point count with
    | some digits => (digits, point - count)
    | none => shortestFrom i point fuel (count + 1)

def dropZeros (digits : List Char) : List Char :=
  (digits.reverse.dropWhile (· == '0')).reverse

/-- Digits without trailing zeros and the position of the point before or behind the first. -/
def decimalOf (mantissa : Nat) (exponent : Int) : List Char × Int :=
  let i := interval mantissa exponent
  let (digits, scale) := shortestFrom i (pointOf i.value i.den) 18 1
  let all := Nat.toDigits 10 digits
  (dropZeros all, all.length + scale)

/-- Positional form for a point between 3 places before and 16 places behind the first digit,
otherwise an exponent of at least two digits. A whole number keeps a zero behind the point. -/
def layout (digits : List Char) (point : Int) : List Char :=
  if -3 ≤ point ∧ point ≤ 16 then
    if point ≤ 0 then
      '0' :: '.' :: List.replicate (-point).toNat '0' ++ digits
    else
      let whole := digits.take point.toNat
      let fraction := digits.drop point.toNat
      whole ++ List.replicate (point.toNat - whole.length) '0' ++ '.' ::
        (if fraction.isEmpty then ['0'] else fraction)
  else
    let e := point - 1
    let magnitude := Nat.toDigits 10 e.natAbs
    digits.take 1 ++ (if digits.length = 1 then [] else '.' :: digits.drop 1) ++
      'e' :: (if e < 0 then '-' else '+') :: List.replicate (2 - magnitude.length) '0' ++
      magnitude

def toText : Binary64 → String
  | .nan => "nan"
  | .infinite negative => if negative then "-inf" else "inf"
  | .finite negative mantissa exponent =>
    let body :=
      if mantissa = 0 then ['0', '.', '0']
      else
        let (digits, point) := decimalOf mantissa exponent
        layout digits point
    String.ofList (if negative then '-' :: body else body)

end CssHighlight.Binary64
