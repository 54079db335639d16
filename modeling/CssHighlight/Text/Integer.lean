import CssHighlight.Text.Blank

/-!
# Whole numbers in text

A number may be surrounded by white space, carry a sign, use the decimal digits of any script and
have single underscores between its digits. Longer numbers than `maxDigits` are refused.
-/
namespace CssHighlight.Text

/-- The zero of every script that has decimal digits; the nine others follow it. -/
def decimalZeros : List Nat :=
  [0x30, 0x660, 0x6F0, 0x7C0, 0x966, 0x9E6, 0xA66, 0xAE6, 0xB66, 0xBE6, 0xC66, 0xCE6, 0xD66,
   0xDE6, 0xE50, 0xED0, 0xF20, 0x1040, 0x1090, 0x17E0, 0x1810, 0x1946, 0x19D0, 0x1A80, 0x1A90,
   0x1B50, 0x1BB0, 0x1C40, 0x1C50, 0xA620, 0xA8D0, 0xA900, 0xA9D0, 0xA9F0, 0xAA50, 0xABF0, 0xFF10,
   0x104A0, 0x10D30, 0x11066, 0x110F0, 0x11136, 0x111D0, 0x112F0, 0x11450, 0x114D0, 0x11650,
   0x116C0, 0x11730, 0x118E0, 0x11950, 0x11C50, 0x11D50, 0x11DA0, 0x16A60, 0x16AC0, 0x16B50,
   0x1D7CE, 0x1D7D8, 0x1D7E2, 0x1D7EC, 0x1D7F6, 0x1E140, 0x1E2F0, 0x1E950, 0x1FBF0]

def digitValue? (c : Char) : Option Nat :=
  (decimalZeros.find? fun start => start ≤ c.toNat && c.toNat ≤ start + 9).map (c.toNat - ·)

/-- Digits that a number may have, leading zeros included. -/
def maxDigits : Nat := 4300

/-- White space around a number: the ASCII separators 1C to 1F are not among it. -/
def isNumberPadding (c : Char) : Bool :=
  isBlank c && !(0x1C ≤ c.toNat && c.toNat ≤ 0x1F)

/-- Reads digits with single underscores between them into the list of their values, the last
digit first. -/
def digitsFrom (digits : List Nat) (afterDigit : Bool) : List Char → Option (List Nat)
  | [] => if afterDigit then some digits else none
  | c :: rest =>
    if c = '_' then
      if afterDigit then digitsFrom digits false rest else none
    else
      match digitValue? c with
      | some value => digitsFrom (value :: digits) true rest
      | none => none

/-- The number with the given digits, the last digit first. -/
def ofDigits (base : Nat) : List Nat → Nat
  | [] => 0
  | digit :: rest => digit + base * ofDigits base rest

def natural? (s : List Char) : Option Nat := do
  let digits ← digitsFrom [] false s
  if digits.length ≤ maxDigits then some (ofDigits 10 digits) else none

def integer? (s : String) : Option Int :=
  match trimWhere isNumberPadding s.toList with
  | '+' :: rest => (natural? rest).map Int.ofNat
  | '-' :: rest => (natural? rest).map fun n => -Int.ofNat n
  | digits => (natural? digits).map Int.ofNat

end CssHighlight.Text
