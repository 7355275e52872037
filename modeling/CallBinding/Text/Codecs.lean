import CallBinding.Failure
import CallBinding.Text.Codec

/-!
The encodings that are at hand, by name. Which there are, what they can write, and how they read
bytes whose errors are to be passed over is not decided here (`Codecs`); a failure of theirs says
that a name is malformed or has no encoding, or that a text and its bytes cannot be turned into each
other (`Codecs.Documented`). `Codecs.common` has the three encodings.
-/

set_option autoImplicit false
set_option relaxedAutoImplicit false

namespace CallBinding.Text

/-- Encodings by name: whether there is one, how it encodes, and how it decodes when errors are to
be passed over. -/
structure Codecs where
  knows : String → Bool
  encode : String → String → Except Failure (List UInt8)
  decode : String → List UInt8 → Except Failure String

namespace Codecs

/-- The kind of the failures of an encoding, by its name. -/
def failureKind (codecs : Codecs) (name : String) : FailureKind :=
  if codecs.knows name then .unicode
  else if Codec.isMalformed name then .value
  else .lookup

structure DocumentedFailure (kind : FailureKind) (f : Failure) : Prop where
  isA_kind : f.kind.isA kind = true
  message_ne : f.message ≠ ""

/-- What is documented of encodings: nothing is encoded for a name that has none, and a failure is
of the kind that goes with the name, and says what it is about. -/
structure Documented (codecs : Codecs) : Prop where
  encode_unknown : ∀ name text, codecs.knows name = false →
    ∃ f, codecs.encode name text = .error f
  encode_failure : ∀ name text f, codecs.encode name text = .error f →
    DocumentedFailure (codecs.failureKind name) f
  decode_failure : ∀ name bytes f, codecs.decode name bytes = .error f →
    DocumentedFailure (codecs.failureKind name) f

end Codecs

def CodecError.failure (use : String) (e : CodecError) : Failure :=
  ⟨if e = .malformed then .value else .lookup, e.message use⟩

def EncodeError.failure (e : EncodeError) : Failure :=
  ⟨.encoding, e.message⟩

/-- The three encodings. No bytes are the empty text by any name that is well-formed. -/
def Codecs.common : Codecs where
  knows name := (Codec.named name).toBool
  encode name text :=
    match Codec.named name with
    | .ok codec => (codec.encode text).mapError EncodeError.failure
    | .error e => .error (e.failure "encode")
  decode name bytes :=
    match Codec.named name with
    | .ok codec => .ok (codec.decode bytes)
    | .error e => if bytes = [] ∧ e ≠ .malformed then .ok "" else .error (e.failure "decode")

end CallBinding.Text
