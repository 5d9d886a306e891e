/-!
# White space

`isBlank` is the white space of Unicode, and `isAsciiBlank` the five bytes that count as white
space where a payload is asked whether it holds anything at all.
-/

namespace ObjectSpace
namespace Text

/-- The property White_Space. -/
def isBlank (c : Char) : Bool :=
  let n := c.toNat
  (0x09 ≤ n && n ≤ 0x0D) || n == 0x20 || n == 0x85 || n == 0xA0 || n == 0x1680 ||
    (0x2000 ≤ n && n ≤ 0x200A) || n == 0x2028 || n == 0x2029 || n == 0x202F || n == 0x205F ||
    n == 0x3000

/-- Tab, line feed, form feed, carriage return and space. -/
def isAsciiBlank (b : UInt8) : Bool :=
  b == 0x09 || b == 0x0A || b == 0x0C || b == 0x0D || b == 0x20

def trimLeft (cs : List Char) : List Char := cs.dropWhile isBlank

/-- Without the white space at either end. -/
def trim (s : String) : List Char := (trimLeft (trimLeft s.toList).reverse).reverse

end Text
end ObjectSpace
