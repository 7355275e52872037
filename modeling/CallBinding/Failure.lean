/-!
Failures. A failure has a text, and it is of a kind that may stand below another kind: a handler of
a kind takes the failures of that kind and of those below it, and lets all others through.
-/

set_option autoImplicit false
set_option relaxedAutoImplicit false

namespace CallBinding

/-- A kind of failure. Kinds that are not known here stand below one that is (`special`), or apart
from all of them (`other`). -/
inductive FailureKind
  /-- What is asked for is not there. -/
  | lookup
  /-- A value does not do. -/
  | value
  /-- A text and its bytes cannot be turned into each other. -/
  | unicode
  | encoding
  | decoding
  /-- A record does not pass its checks. -/
  | validation
  /-- A text does not define a method. -/
  | rejection
  | special (name : String) (above : FailureKind)
  | other (name : String)
  deriving DecidableEq

namespace FailureKind

/-- A kind and the kinds above it, the nearest first. -/
def lineage : FailureKind → List FailureKind
  | lookup => [lookup]
  | value => [value]
  | unicode => [unicode, value]
  | encoding => [encoding, unicode, value]
  | decoding => [decoding, unicode, value]
  | validation => [validation, value]
  | rejection => [rejection, value]
  | special name above => special name above :: above.lineage
  | other name => [other name]

/-- Whether a handler of the kind `base` takes failures of a kind. -/
def isA (kind base : FailureKind) : Bool :=
  kind.lineage.contains base

end FailureKind

structure Failure where
  kind : FailureKind
  message : String
  deriving DecidableEq

end CallBinding
