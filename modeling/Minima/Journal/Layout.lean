import Minima.Text.DecimalDigit
import Minima.Text.WordChar

/-!
# Layouts of lines

A layout is a text with fields such as `%(message)s`, each of which may be padded to a width, on the
right if the width stands after a minus, and a text may be cut to a length. Two percent signs stand
for one.
-/

namespace Minima

inductive LayoutPart where
  | literal (c : Char)
  | field (name : String) (padRight : Bool) (width : Nat) (length? : Option Nat)
deriving DecidableEq, Repr

namespace LayoutPart

def isFlag (c : Char) : Bool := c == '#' || c == '0' || c == '+' || c == ' ' || c == '-'

def isEnd (c : Char) : Bool := "diouxefgcrsa%".toList.contains c

/-- Does the field that a character ends stand for a text? -/
def isTextEnd (c : Char) : Bool := c == 's' || c == 'r' || c == 'a'

def number (cs : List Char) : Nat := cs.foldl (fun n c => n * 10 + (c.toNat - 48)) 0

/-- The length after a dot, if there is one, and what follows it. -/
def length? : List Char → Option Nat × List Char
  | '.' :: cs => (some (number (cs.takeWhile Char.isDigit)), cs.dropWhile Char.isDigit)
  | cs => (none, cs)

/-- A field after its percent sign, and what follows it. -/
def field? : List Char → Option (LayoutPart × List Char)
  | '(' :: cs =>
    let name := cs.takeWhile Text.isWordChar
    match cs.dropWhile Text.isWordChar with
    | ')' :: cs =>
      let flags := cs.takeWhile isFlag
      let cs := cs.dropWhile isFlag
      let width := number (cs.takeWhile Char.isDigit)
      let (limit?, cs) := length? (cs.dropWhile Char.isDigit)
      match cs with
      | c :: cs =>
        if name.isEmpty || !isEnd c then none
        else
          some (.field (String.ofList name) (flags.contains '-') width
            (if isTextEnd c then limit? else none), cs)
      | [] => none
    | _ => none
  | _ => none

def parse : (fuel : Nat) → List Char → List LayoutPart
  | 0, _ | _, [] => []
  | fuel + 1, '%' :: '%' :: cs => .literal '%' :: parse fuel cs
  | fuel + 1, c :: cs =>
    match (if c == '%' then field? cs else none) with
    | some (part, rest) => part :: parse fuel rest
    | none => .literal c :: parse fuel cs

def ofText (layout : String) : List LayoutPart := parse layout.length layout.toList

def pad (padRight : Bool) (width : Nat) (s : String) : String :=
  let blanks := "".pushn ' ' (width - s.length)
  if padRight then s ++ blanks else blanks ++ s

def fill (values : String → String) (parts : List LayoutPart) : String :=
  String.join (parts.map fun
    | .literal c => String.singleton c
    | .field name padRight width length? =>
      let value := values name
      pad padRight width (match length? with
        | some n => String.ofList (value.toList.take n)
        | none => value))

/-! ## Layouts that are accepted

A layout has to have a field somewhere, in a wider sense than that in which fields are filled in:
numbers may be of any script or stars, and what ends a field may be a capital. The field may stand
after two percent signs too.
-/

/-- Leave out a number or a star. -/
def dropAmount : List Char → List Char
  | '*' :: cs => cs
  | cs => cs.dropWhile fun c => (Text.digitValue? c).isSome

/-- Leave out a length: a dot with a number or a star after it. -/
def dropLength : List Char → List Char
  | '.' :: cs => if dropAmount cs = cs then '.' :: cs else dropAmount cs
  | cs => cs

/-- Does the character end a field, in any case? -/
def endsField (c : Char) : Bool := isEnd c.toLower || c == 'İ' || c == 'ı' || c == 'ſ'

def opensField : List Char → Bool
  | '(' :: cs =>
    match cs.dropWhile Text.isWordChar with
    | ')' :: rest =>
      !(cs.takeWhile Text.isWordChar).isEmpty &&
        (dropLength (dropAmount (rest.dropWhile isFlag))).head?.any endsField
    | _ => false
  | _ => false

def hasField : List Char → Bool
  | [] => false
  | c :: cs => (c == '%' && opensField cs) || hasField cs

end LayoutPart

end Minima
