/-!
# White space

Words of a command line, lines of a script and encoded file content are all cleaned of white space,
and each time white space means the Unicode property `White_Space`: twenty-five characters, of which
only six are ASCII. This module holds the property and the trimming built on it.
-/

namespace TreeShell.Text

/-- Whether a character has the Unicode property `White_Space`. -/
def isBlank (c : Char) : Bool :=
  let n := c.toNat
  (0x9 ≤ n && n ≤ 0xD) || n == 0x20 || n == 0x85 || n == 0xA0 || n == 0x1680 ||
    (0x2000 ≤ n && n ≤ 0x200A) || n == 0x2028 || n == 0x2029 || n == 0x202F || n == 0x205F ||
    n == 0x3000

/-- A text without the white space that ends it. -/
def trimEnd (cs : List Char) : List Char := (cs.reverse.dropWhile isBlank).reverse

/-- A text without the white space around it. White space inside it stays. -/
def trim (cs : List Char) : List Char := trimEnd (cs.dropWhile isBlank)

end TreeShell.Text
