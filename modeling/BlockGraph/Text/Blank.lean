/-!
# Blank texts

White space is the set of code points with the `White_Space` property.
-/

namespace BlockGraph.Text

/-- Whether the character is white space. -/
def isBlank (c : Char) : Bool :=
  let n := c.toNat
  (0x09 ≤ n && n ≤ 0x0d) || n == 0x20 || n == 0x85 || n == 0xa0 || n == 0x1680 ||
    (0x2000 ≤ n && n ≤ 0x200a) || n == 0x2028 || n == 0x2029 || n == 0x202f || n == 0x205f || n == 0x3000

def allBlank (s : String) : Bool := s.toList.all isBlank

end BlockGraph.Text
