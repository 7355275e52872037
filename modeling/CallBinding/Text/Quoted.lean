import CallBinding.Text.Printable

/-!
The quoted form of a text: between apostrophes, or between double quotes when the text holds an
apostrophe and no double quote. The quote in use, the backslash and the three common controls are
escaped by a backslash; any other character that is not shown is written as its code point in two,
four or eight hexadecimal digits.
-/

set_option autoImplicit false
set_option relaxedAutoImplicit false

namespace CallBinding.Text

/-- The digits of `n` in base 16, padded with zeros to `width` places. -/
def hexDigits (width n : Nat) : List Char :=
  let digits := Nat.toDigits 16 n
  List.replicate (width - digits.length) '0' ++ digits

/-- A character as its code point, in the shortest of the three widths that holds it. -/
def escapeCode (c : Char) : List Char :=
  if c.toNat < 0x100 then '\\' :: 'x' :: hexDigits 2 c.toNat
  else if c.toNat < 0x10000 then '\\' :: 'u' :: hexDigits 4 c.toNat
  else '\\' :: 'U' :: hexDigits 8 c.toNat

/-- One character of a text that stands between two `quote`s. -/
def escapeChar (quote c : Char) : List Char :=
  if c = quote ∨ c = '\\' then ['\\', c]
  else if c = '\n' then ['\\', 'n']
  else if c = '\r' then ['\\', 'r']
  else if c = '\t' then ['\\', 't']
  else if isPrintable c then [c]
  else escapeCode c

/-- The quote that a text is put between. -/
def quoteFor (text : List Char) : Char :=
  if '\'' ∈ text ∧ '"' ∉ text then '"' else '\''

/-- The quoted form of a text. -/
def quoted (text : String) : String :=
  let quote := quoteFor text.toList
  String.ofList ([quote] ++ text.toList.flatMap (escapeChar quote) ++ [quote])

end CallBinding.Text
