/-!
# Places in bytes

Parse trees count characters; diagnostics count the bytes of the UTF-8 form of the text.
-/

set_option autoImplicit false

namespace QuovaKotlin.Text

/-- The number of bytes that characters take. -/
def byteLength (chars : List Char) : Nat :=
  chars.foldr (fun c n => c.utf8Size + n) 0

/-- The number of bytes in front of the character with the given index. -/
def byteOffset (text : String) (index : Nat) : Nat :=
  byteLength (text.toList.take index)

end QuovaKotlin.Text
