import Minima.Digits.Style
import Minima.Setting.Conversion
import Minima.Tensor
import Minima.Text.Lowercase

/-!
# Points as text

A point is written as its components between commas, semicolons or blanks, and may stand in
brackets. Some words stand for no point at all.
-/

namespace Minima.PointText

variable {R : Type} [Scalar R]

/-- The words that stand for no point. -/
def defaultWords : List String := ["", "default", "за замовчуванням"]

def isDefault (text : String) : Bool := defaultWords.contains (Text.lowercase (Text.strip text))

def separates (c : Char) : Bool := c == ',' || c == ';' || Text.isBlank c

def isBracket (c : Char) : Bool := c == '(' || c == ')' || c == '[' || c == ']'

def components (text : String) : List String :=
  (Text.splitWords separates
    (Text.stripChars isBracket (Text.stripChars Text.isBlank text.toList))).map String.ofList

/-- Read a point, which has to have `n?` components if that is given. There is none in a text that
stands for no point, and none in a text without components. -/
def read? (text : String) (n? : Option Nat) : Attempt R (Option (Array R)) := do
  if isDefault text then return none
  match (components text).mapM (Scalar.ofText? (R := R)) with
  | none => throw (.configuration (.pointUnreadable text))
  | some [] => return none
  | some values =>
    if !values.all Scalar.isFinite then throw (.configuration .pointNotFinite)
    match n? with
    | some n =>
      if values.length ≠ n then throw (.configuration (.pointSize n values.length))
      return some values.toArray
    | none => return some values.toArray

def write (point : Array Float) : String := ", ".intercalate (point.toList.map (generalText 6))

end Minima.PointText
