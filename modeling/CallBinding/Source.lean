import CallBinding.Failure
import CallBinding.Text.Codec
import CallBinding.Tree

/-!
Program text as bytes, and the text that a node of its syntax tree spans. A span that leaves the
text is cut at its end, and what becomes of a character that a span cuts is up to the encoding.

An encoding may fail to decode what a span holds (`Encoded`). A text of which every span can be read
is a `Source`; what is shown of sources holds of an encoded text as far as it can be decoded
(`Encoded.source`).
-/

set_option autoImplicit false
set_option relaxedAutoImplicit false

namespace CallBinding

/-- Program text in an encoding that decodes anything. -/
structure Source where
  bytes : List UInt8
  decode : List UInt8 → String

/-- Bytes as one of the three encodings reads them. -/
def Text.Codec.source (codec : Text.Codec) (bytes : List UInt8) : Source :=
  ⟨bytes, codec.decode⟩

namespace Source

/-- The bytes from `start` up to `stop`. -/
def slice (s : Source) (start stop : Nat) : List UInt8 :=
  (s.bytes.drop start).take (stop - start)

/-- The text from byte `start` up to byte `stop`. -/
def span (s : Source) (start stop : Nat) : String :=
  s.decode (s.slice start stop)

/-- The text of a node. -/
def text (s : Source) (n : Node) : String :=
  s.span n.start n.stop

/-- The text between the quotes of a node, when nothing but plain content stands there. -/
def quotedText? (s : Source) (n : Node) : Option String :=
  if n.namedChildren.all fun c ↦ c.kind = "string_content" then
    some (String.join (n.namedChildren.map s.text))
  else none

end Source

/-- Program text in an encoding that may fail to decode some of its bytes. -/
structure Encoded where
  bytes : List UInt8
  decode : List UInt8 → Except Failure String

namespace Encoded

/-- What can be decoded of a text. Other spans are empty. -/
def source (e : Encoded) : Source where
  bytes := e.bytes
  decode bytes := (e.decode bytes).toOption.getD ""

/-- The text from byte `start` up to byte `stop`. -/
def span (e : Encoded) (start stop : Nat) : Except Failure String :=
  e.decode (e.source.slice start stop)

/-- The text of a node. -/
def text (e : Encoded) (n : Node) : Except Failure String :=
  e.span n.start n.stop

/-- The texts of plain content up to the first node that is none. -/
def contentParts (e : Encoded) : List Node → Except Failure (Option (List String))
  | [] => return some []
  | c :: rest =>
    if c.kind = "string_content" then do
      let part ← e.text c
      let more ← e.contentParts rest
      return more.map (part :: ·)
    else return none

/-- The text between the quotes of a node, when nothing but plain content stands there. -/
def quotedText? (e : Encoded) (n : Node) : Except Failure (Option String) :=
  return (← e.contentParts n.namedChildren).map String.join

end Encoded

end CallBinding
