/-!
# Blank characters

Trimming takes away the characters that Unicode lists as white space.
-/

set_option autoImplicit false

namespace QuovaKotlin.Text

/-- The characters with the Unicode property `White_Space`. -/
def isBlank (c : Char) : Bool :=
  let n := c.toNat
  (9 ≤ n && n ≤ 13) || n == 0x20 || n == 0x85 || n == 0xA0 || n == 0x1680 ||
    (0x2000 ≤ n && n ≤ 0x200A) || n == 0x2028 || n == 0x2029 || n == 0x202F || n == 0x205F ||
    n == 0x3000

/-- The characters behind the leading blanks. -/
def dropBlanks (chars : List Char) : List Char :=
  chars.dropWhile isBlank

/-- The characters in front of the trailing blanks. -/
def dropBlanksEnd (chars : List Char) : List Char :=
  (dropBlanks chars.reverse).reverse

def trimEnd (s : String) : String :=
  String.ofList (dropBlanksEnd s.toList)

/-- The text without blanks at either end. -/
def trim (s : String) : String :=
  String.ofList (dropBlanksEnd (dropBlanks s.toList))

end QuovaKotlin.Text
