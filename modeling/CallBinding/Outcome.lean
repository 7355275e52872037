import CallBinding.Text.Quoted

/-!
The outcome of binding a call: it binds, or it fails for a reason that may carry counts, the text
of an argument, or keyword names. `Outcome.detail` and `Outcome.message` are the two texts of an
outcome; a count or an argument that is absent is written `None`.
-/

set_option autoImplicit false
set_option relaxedAutoImplicit false

namespace CallBinding

/-- Why a call does not bind. -/
inductive Reason
  | nameMismatch
  | insufficientPositional
  | insufficientPostRest
  | tooManyArguments
  | keywordsRequired
  | keywordsNotHash
  | keywordsMissing
  | keywordsUnexpected
  deriving DecidableEq

namespace Reason

def all : List Reason :=
  [nameMismatch, insufficientPositional, insufficientPostRest, tooManyArguments, keywordsRequired,
    keywordsNotHash, keywordsMissing, keywordsUnexpected]

/-- The word by which a reason is reported. -/
def word : Reason → String
  | nameMismatch => "name_mismatch"
  | insufficientPositional => "insufficient_positional"
  | insufficientPostRest => "insufficient_post_rest_positional"
  | tooManyArguments => "too_many_arguments"
  | keywordsRequired => "kwparam_required"
  | keywordsNotHash => "kwparam_should_be_hash"
  | keywordsMissing => "kwparam_not_found"
  | keywordsUnexpected => "unexpected_kwparam"

/-- The reason that a word reports. -/
def ofWord? (w : String) : Option Reason :=
  all.find? fun r ↦ r.word = w

/-- What is said of a word that reports no reason. -/
def unknownMessage (w : String) : String :=
  Text.quoted w ++ " is not a valid MatchReason"

end Reason

/-- The outcome of binding a call. Whether it binds and why it does not are stated apart: a record
may hold any combination of them, and only those that binding makes are coherent. -/
structure Outcome where
  bindable : Bool
  reason : Option Reason := none
  received : Option Int := none
  expected : Option Int := none
  argument : Option String := none
  keywords : List String := []
  deriving DecidableEq

namespace Outcome

/-- The call binds. -/
def ok : Outcome :=
  { bindable := true }

/-- The call fails for a reason without payload. -/
def failed (r : Reason) : Outcome :=
  { bindable := false, reason := some r }

/-- The call fails because `received` arguments stand where `expected` were declared. -/
def miscounted (r : Reason) (received expected : Nat) : Outcome :=
  { bindable := false, reason := some r, received := some received, expected := some expected }

/-- The call fails because an argument with some text is no hash. -/
def notHash (text : String) : Outcome :=
  { bindable := false, reason := some .keywordsNotHash, argument := some text }

/-- The call fails because of the keywords that are named. -/
def misnamed (r : Reason) (names : List String) : Outcome :=
  { bindable := false, reason := some r, keywords := names }

@[simp] theorem bindable_ok : ok.bindable = true := rfl

@[simp] theorem bindable_failed (r : Reason) : (failed r).bindable = false := rfl

@[simp] theorem bindable_miscounted (r : Reason) (received expected : Nat) :
    (miscounted r received expected).bindable = false := rfl

@[simp] theorem bindable_notHash (text : String) : (notHash text).bindable = false := rfl

@[simp] theorem bindable_misnamed (r : Reason) (names : List String) :
    (misnamed r names).bindable = false := rfl

@[simp] theorem reason_ok : ok.reason = none := rfl

@[simp] theorem reason_failed (r : Reason) : (failed r).reason = some r := rfl

@[simp] theorem reason_miscounted (r : Reason) (received expected : Nat) :
    (miscounted r received expected).reason = some r := rfl

@[simp] theorem reason_notHash (text : String) :
    (notHash text).reason = some .keywordsNotHash := rfl

@[simp] theorem reason_misnamed (r : Reason) (names : List String) :
    (misnamed r names).reason = some r := rfl

end Outcome

/-- The written form of a value that may be absent. -/
def written {α : Type} [ToString α] : Option α → String
  | some a => toString a
  | none => "None"

namespace Outcome

/-- The payload as text: keywords before the argument, the argument before the counts. -/
def detail (o : Outcome) : Option String :=
  if o.keywords ≠ [] then some (", ".intercalate o.keywords)
  else match o.argument, o.received with
    | some a, _ => some a
    | none, some n => some (toString n ++ " for " ++ written o.expected)
    | none, none => none

/-- The outcome in one line. There is none for a record that neither binds nor has a reason. -/
def message (o : Outcome) : Option String :=
  if o.bindable then some "callable"
  else o.reason.map fun
    | .nameMismatch => "method name does not match"
    | .insufficientPositional =>
      "not enough arguments (given " ++ written o.received ++ ", expected " ++ written o.expected
        ++ ")"
    | .insufficientPostRest =>
      "not enough trailing arguments (given " ++ written o.received ++ ", expected "
        ++ written o.expected ++ ")"
    | .tooManyArguments =>
      "too many arguments (given " ++ written o.received ++ ", expected at most "
        ++ written o.expected ++ ")"
    | .keywordsRequired => "keyword arguments are required"
    | .keywordsNotHash => "keyword arguments should be a hash, got " ++ written o.argument
    | .keywordsMissing => "missing keywords: " ++ written o.detail
    | .keywordsUnexpected => "unknown keywords: " ++ written o.detail

end Outcome

end CallBinding
