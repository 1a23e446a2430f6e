/-!
# Blank space around a text

Paths, flags and tag texts are cut free of white space before they are used. White space is the
Unicode property of that name, twenty-five characters; `Statuary.trim` removes it at both ends.
-/

namespace Statuary

/-- A white-space character. -/
def isSpace (c : Char) : Bool :=
  let n := c.toNat
  (0x09 ≤ n && n ≤ 0x0D) || n == 0x20 || n == 0x85 || n == 0xA0 || n == 0x1680 ||
    (0x2000 ≤ n && n ≤ 0x200A) || n == 0x2028 || n == 0x2029 || n == 0x202F || n == 0x205F ||
    n == 0x3000

/-- A list without the characters at its end that satisfy `p`. -/
def dropEnd (p : Char → Bool) (cs : List Char) : List Char :=
  (cs.reverse.dropWhile p).reverse

/-- A text without white space at its ends. -/
def trim (s : String) : String :=
  String.ofList (dropEnd isSpace (s.toList.dropWhile isSpace))

/-- The text has no character other than white space. -/
def isBlank (s : String) : Bool :=
  s.toList.all isSpace

end Statuary
