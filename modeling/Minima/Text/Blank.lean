/-!
# Blank characters

The characters that separate words, of any script, and what is left of a text when they are
removed from its ends.
-/

namespace Minima.Text

/-- Tabs, line ends, the separators U+001C to U+001F, the plain space and the spaces of Unicode. -/
def isBlank (c : Char) : Bool :=
  let n := c.toNat
  (9 ≤ n && n ≤ 13) || (28 ≤ n && n ≤ 32) || n == 0x85 || n == 0xA0 || n == 0x1680 ||
    (0x2000 ≤ n && n ≤ 0x200A) || n == 0x2028 || n == 0x2029 || n == 0x202F || n == 0x205F ||
    n == 0x3000

def stripChars (p : Char → Bool) (cs : List Char) : List Char :=
  ((cs.dropWhile p).reverse.dropWhile p).reverse

def strip (s : String) : String := String.ofList (stripChars isBlank s.toList)

/-- The maximal runs of characters without the given property. -/
def splitWords (separates : Char → Bool) : List Char → List (List Char)
  | [] => []
  | c :: cs =>
    if separates c then splitWords separates cs
    else
      match cs with
      | [] => [[c]]
      | d :: _ =>
        if separates d then [c] :: splitWords separates cs
        else
          match splitWords separates cs with
          | [] => [[c]]
          | w :: ws => (c :: w) :: ws

example : splitWords (· == ',') "a,,bc".toList = [['a'], ['b', 'c']] := by decide

end Minima.Text
