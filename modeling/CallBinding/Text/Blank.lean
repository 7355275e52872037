/-!
The characters that separate words: the controls from the tabulator to the carriage return, the four
information separators, the next line sign and the spaces and separators of the standard.
-/

set_option autoImplicit false
set_option relaxedAutoImplicit false

namespace CallBinding.Text

/-- Whether a character is blank. -/
def isBlank (c : Char) : Bool :=
  let n := c.toNat
  (0x9 ≤ n && n ≤ 0xd) || (0x1c ≤ n && n ≤ 0x20) || n = 0x85 || n = 0xa0 || n = 0x1680
    || (0x2000 ≤ n && n ≤ 0x200a) || n = 0x2028 || n = 0x2029 || n = 0x202f || n = 0x205f
    || n = 0x3000

/-- Whether a character is blank and does not end a line. -/
def isInlineBlank (c : Char) : Bool :=
  isBlank c && c ≠ '\n' && c ≠ '\r'

/-- The characters without the blanks at their end. -/
def trimRight (text : List Char) : List Char :=
  (text.reverse.dropWhile isBlank).reverse

end CallBinding.Text
