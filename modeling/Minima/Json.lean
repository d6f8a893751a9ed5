import Minima.Text.Quoted

/-!
# JSON

Values are exchanged as JSON. Numbers are kept as they are written, so that a whole number and the
same number with a point stay different.
-/

namespace Minima

inductive Json where
  | null
  | bool (b : Bool)
  | num (numeral : String)
  | str (s : String)
  | arr (l : List Json)
  | obj (l : List (String × Json))
deriving Inhabited

namespace Json

/-! ## Reading -/

def hexValue (c : Char) : Nat :=
  if c.isDigit then c.toNat - 48 else c.toLower.toNat - 87

/-- The number of four hexadecimal digits, and what follows them. -/
def hex4 : List Char → Nat × List Char
  | a :: b :: c :: d :: r =>
    (((hexValue a * 16 + hexValue b) * 16 + hexValue c) * 16 + hexValue d, r)
  | r => (0, r)

def unescape : Char → Char
  | 'n' => '\n'
  | 't' => '\t'
  | 'r' => '\r'
  | 'b' => Char.ofNat 8
  | 'f' => Char.ofNat 12
  | c => c

/-- An escape by number, which may take a pair of them, and what follows it. -/
def readCode (cs : List Char) : Char × List Char :=
  let (n, r) := hex4 cs
  if 0xD800 ≤ n ∧ n < 0xDC00 then
    match r with
    | '\\' :: 'u' :: r' =>
      let (k, r') := hex4 r'
      (Char.ofNat (0x10000 + (n - 0xD800) * 0x400 + (k - 0xDC00)), r')
    | _ => (Char.ofNat 0xFFFD, r)
  else (Char.ofNat n, r)

/-- The characters up to the closing quote, in reverse on top of `acc`, and what follows it. -/
def readString : (fuel : Nat) → (acc : List Char) → List Char → String × List Char
  | 0, acc, cs => (String.ofList acc.reverse, cs)
  | _, acc, [] => (String.ofList acc.reverse, [])
  | _, acc, '"' :: r => (String.ofList acc.reverse, r)
  | fuel + 1, acc, '\\' :: 'u' :: r =>
    let (c, r) := readCode r
    readString fuel (c :: acc) r
  | fuel + 1, acc, '\\' :: c :: r => readString fuel (unescape c :: acc) r
  | fuel + 1, acc, c :: r => readString fuel (c :: acc) r

def isSpace (c : Char) : Bool := c == ' ' || c == '\n' || c == '\t' || c == '\r'

def isNumeral (c : Char) : Bool :=
  c.isDigit || c == '-' || c == '+' || c == '.' || c == 'e' || c == 'E'

mutual

/-- A value, and what follows it. -/
def read : (fuel : Nat) → List Char → Json × List Char
  | 0, cs => (null, cs)
  | fuel + 1, cs =>
    match cs.dropWhile isSpace with
    | 'n' :: 'u' :: 'l' :: 'l' :: r => (null, r)
    | 't' :: 'r' :: 'u' :: 'e' :: r => (bool true, r)
    | 'f' :: 'a' :: 'l' :: 's' :: 'e' :: r => (bool false, r)
    | '"' :: r =>
      let (s, r) := readString r.length [] r
      (str s, r)
    | '[' :: r => readItems fuel [] r
    | '\x7b' :: r => readFields fuel [] r
    | r => (num (String.ofList (r.takeWhile isNumeral)), r.dropWhile isNumeral)

/-- The items up to the closing bracket, in reverse on top of `acc`, and what follows it. -/
def readItems : (fuel : Nat) → (acc : List Json) → List Char → Json × List Char
  | 0, acc, cs => (arr acc.reverse, cs)
  | fuel + 1, acc, cs =>
    match cs.dropWhile isSpace with
    | ']' :: r => (arr acc.reverse, r)
    | ',' :: r => readItems fuel acc r
    | [] => (arr acc.reverse, [])
    | r =>
      let (v, r) := read fuel r
      readItems fuel (v :: acc) r

def readFields : (fuel : Nat) → (acc : List (String × Json)) → List Char → Json × List Char
  | 0, acc, cs => (obj acc.reverse, cs)
  | fuel + 1, acc, cs =>
    match cs.dropWhile isSpace with
    | '\x7d' :: r => (obj acc.reverse, r)
    | ',' :: r => readFields fuel acc r
    | '"' :: r =>
      let (key, r) := readString r.length [] r
      match r.dropWhile isSpace with
      | ':' :: r =>
        let (v, r) := read fuel r
        readFields fuel ((key, v) :: acc) r
      | r => (obj acc.reverse, r)
    | r => (obj acc.reverse, r)

end

/-- The value of a text. Every step of the reader takes a character or opens a value, which bounds
their number. -/
def ofText (s : String) : Json :=
  let cs := s.toList
  (read (2 * cs.length + 2) cs).1

/-! ## Writing -/

def escape (c : Char) : String :=
  if c == '"' then "\\\""
  else if c == '\\' then "\\\\"
  else if c == '\n' then "\\n"
  else if c.toNat < 32 then "\\u" ++ Text.hexText 4 c.toNat
  else String.singleton c

def quote (s : String) : String := "\"" ++ String.join (s.toList.map escape) ++ "\""

mutual

def write : Json → String
  | null => "null"
  | bool b => if b then "true" else "false"
  | num t => t
  | str s => quote s
  | arr l => "[" ++ ",".intercalate (writeItems l) ++ "]"
  | obj l => "\x7b" ++ ",".intercalate (writeFields l) ++ "\x7d"

def writeItems : List Json → List String
  | [] => []
  | v :: rest => write v :: writeItems rest

def writeFields : List (String × Json) → List String
  | [] => []
  | (key, v) :: rest => (quote key ++ ":" ++ write v) :: writeFields rest

end

/-! ## Looking into values -/

def field? (j : Json) (key : String) : Option Json :=
  match j with
  | obj l => l.lookup key
  | _ => none

/-- A field of an object; null if it is missing. -/
def get (j : Json) (key : String) : Json := (j.field? key).getD null

/-- A field of an object that is there and not null. -/
def given? (j : Json) (key : String) : Option Json :=
  match j.field? key with
  | some null | none => none
  | some v => some v

def has (j : Json) (key : String) : Bool := (j.field? key).isSome

/-- The items of a list; none for any other value. -/
def items : Json → List Json
  | arr l => l
  | _ => []

def fields : Json → List (String × Json)
  | obj l => l
  | _ => []

/-- An item of a list; null if it is missing. -/
def item (j : Json) (i : Nat) : Json := (j.items[i]?).getD null

def isNull : Json → Bool
  | null => true
  | _ => false

def text? : Json → Option String
  | str s => some s
  | _ => none

/-- A text; empty for any other value. -/
def text (j : Json) : String := j.text?.getD ""

/-! ## Making values -/

def nat (n : Nat) : Json := num (toString n)

def whole (i : Int) : Json := num (toString i)

def option {α : Type} (f : α → Json) : Option α → Json
  | some a => f a
  | none => null

/-- An object with more fields. -/
def extend (j : Json) (more : List (String × Json)) : Json := obj (j.fields ++ more)

end Json

end Minima
