import Minima.Digits.Style

/-!
# Vectors as text

The components of a vector are written in one form and to one width, each with the fewest digits
that read back but at most eight after the point: positional, or with an exponent if the magnitudes
are large, small or far apart. Long vectors go over several lines.
-/

namespace Minima.Aligned

/-- How many digits are written after the point at most. -/
def mostPlaces : Nat := 8

/-- How many characters a line has at most, without the closing bracket. -/
def lineWidth : Nat := 74

def needsExponent (xs : List Float) : Bool :=
  match (xs.map Float.abs).filter fun x => !(x == 0.0) with
  | [] => false
  | x :: rest =>
    let most := rest.foldl (fun a b => if a < b then b else a) x
    let least := rest.foldl (fun a b => if b < a then b else a) x
    1e8 ≤ most || least < 1e-4 || 1000.0 < most / least

/-- A number in parts: what stands before the point, what stands after it, and the exponent. -/
structure Parts where
  before : String
  after : String
  exponent : Int := 0

def dropEnd (c : Char) (s : String) : String :=
  String.ofList ((s.toList.reverse.dropWhile (· == c)).reverse)

def splitPoint (s : String) : Parts :=
  let cs := s.toList
  { before := String.ofList (cs.takeWhile (· ≠ '.'))
    after := dropEnd '0' (String.ofList ((cs.dropWhile (· ≠ '.')).drop 1)) }

def positional (x : Float) : Parts :=
  splitPoint <| layoutWith x "0.0" fun d =>
    let s := Decimal.shortest d
    if s.placesNeeded ≤ mostPlaces then s.positional (max 1 s.placesNeeded)
    else fixedText mostPlaces x.abs

def scientific (x : Float) : Parts :=
  match Dyadic.ofFloat? x with
  | none => { before := shortText x, after := "" }
  | some d =>
    let sign := if d.negative then "-" else ""
    if d.mantissa = 0 then { before := sign ++ "0", after := "" }
    else
      let s := Decimal.shortest d
      let r := if digitCount s.digits ≤ mostPlaces + 1 then s
        else (Decimal.ofRatio d.numerator d.denominator (mostPlaces + 1)).strip
      let digits := r.digits.repr
      { before := sign ++ (digits.take 1).toString
        after := (digits.drop 1).toString
        exponent := r.exponent }

def widest (l : List Nat) : Nat := l.foldl max 0

def padLeft (width : Nat) (s : String) : String := "".pushn ' ' (width - s.length) ++ s

def texts (xs : List Float) : List String :=
  if needsExponent xs then
    let parts := xs.map scientific
    let places := widest (parts.map fun p => p.after.length)
    let left := widest (parts.map fun p => p.before.length)
    let digits := max 2 (widest (parts.map fun p => p.exponent.natAbs.repr.length))
    parts.map fun p =>
      padLeft left p.before ++ "." ++ p.after.pushn '0' (places - p.after.length) ++ "e" ++
        (if p.exponent < 0 then "-" else "+") ++ padZeros digits p.exponent.natAbs.repr
  else
    let parts := xs.map positional
    let left := widest (parts.map fun p => p.before.length)
    let right := widest (parts.map fun p => p.after.length)
    parts.map fun p => padLeft left p.before ++ "." ++ p.after.pushn ' ' (right - p.after.length)

/-- Join words to lines that begin with a blank; a word that does not fit begins a new line, and the
line before it loses the blanks at its end. -/
def wrap (words : List String) : String :=
  let (done, line) := words.foldl
    (fun (acc : String × String) word =>
      let (done, line) := acc
      let joined := if line == " " then line ++ word else line ++ " " ++ word
      if line != " " && lineWidth < joined.length then
        (done ++ dropEnd ' ' line ++ "\n", " " ++ word)
      else (done, joined))
    ("", " ")
  ((done ++ line).drop 1).toString

def vectorText (xs : Array Float) : String := "[" ++ wrap (texts xs.toList) ++ "]"

end Minima.Aligned
