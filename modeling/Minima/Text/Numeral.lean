import Minima.Text.Blank
import Minima.Text.DecimalDigit

/-!
# Numerals

What counts as a number in text: an optional sign and either decimal digits with an optional point
and exponent or one of the words `inf`, `infinity`, `nan` in any case. Digits may come from any
script, an underscore may stand between two digits, and blanks around the number are ignored.
-/

namespace Minima.Text

inductive Numeral where
  /-- The number `± mantissa · 10 ^ exponent`. -/
  | decimal (negative : Bool) (mantissa : Nat) (exponent : Int)
  | infinite (negative : Bool)
  | undefined
deriving DecidableEq, Repr

namespace Numeral

/-- Replace digits of any script by ASCII digits and blanks by spaces. -/
def plainChar (c : Char) : Char :=
  if isBlank c then ' '
  else
    match digitValue? c with
    | some v => Char.ofNat (48 + v)
    | none => c

/-- Drop the underscores, each of which has to stand between two digits. -/
def dropUnderscores? (previous : Char) : List Char → Option (List Char)
  | [] => if previous == '_' then none else some []
  | c :: cs =>
    if c == '_' then
      if previous.isDigit then dropUnderscores? c cs else none
    else if previous == '_' && !c.isDigit then none
    else (dropUnderscores? c cs).map (c :: ·)

def digitsValue (cs : List Char) : Nat := cs.foldl (fun n c => n * 10 + (c.toNat - 48)) 0

/-- Split off a sign; `true` for minus. -/
def splitSign : List Char → Bool × List Char
  | '-' :: cs => (true, cs)
  | '+' :: cs => (false, cs)
  | cs => (false, cs)

/-- An exponent part: nothing, or `e`, a sign and at least one digit. -/
def exponent? : List Char → Option Int
  | [] => some 0
  | c :: cs =>
    if c == 'e' || c == 'E' then
      let (negative, digits) := splitSign cs
      if digits.isEmpty || !digits.all Char.isDigit then none
      else
        let v : Int := digitsValue digits
        some (if negative then -v else v)
    else none

/-- Digits with an optional point, at least one digit in all, and an optional exponent. -/
def unsigned? (negative : Bool) (cs : List Char) : Option Numeral :=
  let whole := cs.takeWhile Char.isDigit
  let afterWhole := cs.dropWhile Char.isDigit
  let afterPoint := match afterWhole with
    | '.' :: r => r
    | r => r
  let places := if afterWhole.head? == some '.' then afterPoint.takeWhile Char.isDigit else []
  let rest := if afterWhole.head? == some '.' then afterPoint.dropWhile Char.isDigit else afterWhole
  if whole.isEmpty && places.isEmpty then none
  else
    (exponent? rest).map fun e =>
      .decimal negative (digitsValue (whole ++ places)) (e - places.length)

/-- Read a numeral; `none` for any other text. -/
def ofText? (s : String) : Option Numeral := do
  let cs ← dropUnderscores? ' ' (stripChars (· == ' ') (s.toList.map plainChar))
  let (negative, body) := splitSign cs
  let word := body.map Char.toLower
  if word == "inf".toList || word == "infinity".toList then some (.infinite negative)
  else if word == "nan".toList then some .undefined
  else unsigned? negative body

/-- Read a whole number: a sign and digits only. -/
def wholeOfText? (s : String) : Option Int := do
  let cs ← dropUnderscores? ' ' (stripChars (· == ' ') (s.toList.map plainChar))
  let (negative, body) := splitSign cs
  if body.isEmpty || !body.all Char.isDigit then none
  else
    let v : Int := digitsValue body
    some (if negative then -v else v)

end Numeral

end Minima.Text
