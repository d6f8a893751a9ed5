import Minima.Text.Printable

/-!
# Quoted text

Names in messages stand in quotes, so that blanks and stray characters in them can be seen. The
quote is `'`, or `"` for a text that holds `'` and no `"`.
-/

namespace Minima.Text

/-- A number in small hexadecimal digits, padded with zeros to a width. -/
def hexText (width n : Nat) : String :=
  let s := String.ofList (Nat.toDigits 16 n)
  "".pushn '0' (width - s.length) ++ s

def escapeChar (quote c : Char) : String :=
  if c == quote || c == '\\' then "\\" ++ String.singleton c
  else if c == '\n' then "\\n"
  else if c == '\t' then "\\t"
  else if c == '\r' then "\\r"
  else if isPrintable c then String.singleton c
  else if c.toNat < 0x100 then "\\x" ++ hexText 2 c.toNat
  else if c.toNat < 0x10000 then "\\u" ++ hexText 4 c.toNat
  else "\\U" ++ hexText 8 c.toNat

def quoted (s : String) : String :=
  let cs := s.toList
  let quote := if cs.contains '\'' && !cs.contains '"' then '"' else '\''
  String.singleton quote ++ String.join (cs.map (escapeChar quote)) ++ String.singleton quote

def bracketed (items : List String) : String := "[" ++ ", ".intercalate items ++ "]"

def quotedList (names : List String) : String := bracketed (names.map quoted)

end Minima.Text
