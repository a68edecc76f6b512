/-!
# Blank characters

The white space of Unicode, and texts with the white space taken off their ends.
-/

namespace SourceEdit.Text

/-- White space: the spaces, tabs and breaks of every width. -/
def isBlank (c : Char) : Bool :=
  let n := c.toNat
  (9 ≤ n && n ≤ 13) || n == 32 || n == 0x85 || n == 0xA0 || n == 0x1680 ||
    (0x2000 ≤ n && n ≤ 0x200A) || n == 0x2028 || n == 0x2029 || n == 0x202F || n == 0x205F ||
    n == 0x3000

def dropEndWhile (p : α → Bool) (cs : List α) : List α :=
  (cs.reverse.dropWhile p).reverse

def trimWhile (p : α → Bool) (cs : List α) : List α :=
  dropEndWhile p (cs.dropWhile p)

def trim (cs : List Char) : List Char :=
  trimWhile isBlank cs

end SourceEdit.Text
