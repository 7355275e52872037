/-!
Values that have not been checked yet, the faults that checking them can find, and the places of the
faults. Checking goes on after a fault: `Checked.both` keeps the faults of both sides, so that a
record reports the faults of all of its fields in the order in which the fields are declared.
-/

set_option autoImplicit false
set_option relaxedAutoImplicit false

namespace CallBinding

/-- A value that has not been checked. A number is `digits` divided by ten to the `places`. -/
inductive Data
  | null
  | bool (value : Bool)
  | number (digits : Int) (places : Nat)
  | text (value : String)
  | list (items : List Data)
  | record (fields : List (String × Data))
  deriving Inhabited

/-- The value of a field of a record, when it is given. -/
def Data.field? (fields : List (String × Data)) (name : String) : Option Data :=
  (fields.find? fun entry ↦ entry.1 = name).map Prod.snd

/-- What is wrong with a value. -/
inductive Fault
  | missing
  | notText
  | tooShort
  | notLabel
  | notList
  | notBool
  | unreadableBool
  | notRecord (model : String)
  | repeatedKeywords (labels : List String)
  | frozen
  deriving DecidableEq

namespace Fault

/-- The word by which a fault is reported. -/
def word : Fault → String
  | missing => "missing"
  | notText => "string_type"
  | tooShort => "string_too_short"
  | notLabel => "string_pattern_mismatch"
  | notList => "tuple_type"
  | notBool => "bool_type"
  | unreadableBool => "bool_parsing"
  | notRecord _ => "model_type"
  | repeatedKeywords _ => "value_error"
  | frozen => "frozen_instance"

def message : Fault → String
  | missing => "Field required"
  | notText => "Input should be a valid string"
  | tooShort => "String should have at least 1 character"
  | notLabel => "String should match pattern '.+:$'"
  | notList => "Input should be a valid tuple"
  | notBool => "Input should be a valid boolean"
  | unreadableBool => "Input should be a valid boolean, unable to interpret input"
  | notRecord model => "Input should be a valid dictionary or instance of " ++ model
  | repeatedKeywords labels =>
    "Value error, duplicated keyword parameters: " ++ ", ".intercalate labels
  | frozen => "Instance is frozen"

end Fault

/-- A step from a value to a part of it. -/
inductive Step
  | field (name : String)
  | item (index : Nat)
  deriving DecidableEq

/-- A fault and the path to the part that has it. -/
structure Issue where
  place : List Step := []
  fault : Fault
  deriving DecidableEq

/-- A value that passed its checks, or the faults that were found. -/
abbrev Checked (α : Type) := Except (List Issue) α

namespace Checked

variable {α β γ : Type}

def fault (f : Fault) : Checked α :=
  .error [⟨[], f⟩]

/-- Both values, or the faults of both. -/
def both : Checked α → Checked β → Checked (α × β)
  | .ok a, .ok b => .ok (a, b)
  | .ok _, .error js => .error js
  | .error is, .ok _ => .error is
  | .error is, .error js => .error (is ++ js)

/-- The check of a part, with its faults placed in the whole. -/
def within (step : Step) : Checked α → Checked α :=
  Except.mapError (List.map fun i ↦ { i with place := step :: i.place })

/-- The checks of a list of parts, of which the first is at `index`. -/
def items (check : Data → Checked α) (index : Nat) : List Data → Checked (List α)
  | [] => .ok []
  | d :: rest =>
    (both (within (.item index) (check d)) (items check (index + 1) rest)).map
      fun r ↦ r.1 :: r.2

end Checked

namespace Data

variable {α : Type}

def toText : Data → Checked String
  | text s => .ok s
  | _ => Checked.fault .notText

/-- A text, or null for none. -/
def toText? : Data → Checked (Option String)
  | null => .ok none
  | d => d.toText.map some

/-- A text that is not empty. -/
def toTextNonempty (d : Data) : Checked { s : String // s ≠ "" } := do
  let s ← d.toText
  if h : s = "" then Checked.fault .tooShort else .ok ⟨s, h⟩

/-- The boolean that a word stands for, in either case. -/
def boolOfWord? (word : String) : Option Bool :=
  let w := word.map Char.toLower
  if ["1", "t", "y", "on", "yes", "true"].contains w then some true
  else if ["0", "f", "n", "off", "no", "false"].contains w then some false
  else none

/-- A boolean, a word for one, or a number that is zero or one. -/
def toBool : Data → Checked Bool
  | bool b => .ok b
  | text s =>
    match boolOfWord? s with
    | some b => .ok b
    | none => Checked.fault .unreadableBool
  | number digits places =>
    let one := Int.ofNat (Nat.pow 10 places)
    if digits % one ≠ 0 then Checked.fault .notBool
    else if digits = 0 then .ok false
    else if digits = one then .ok true
    else Checked.fault .unreadableBool
  | _ => Checked.fault .notBool

def toList (check : Data → Checked α) : Data → Checked (List α)
  | list items => Checked.items check 0 items
  | _ => Checked.fault .notList

/-- The check of a field that has to be given. -/
def required (check : Data → Checked α) (fields : List (String × Data)) (name : String) :
    Checked α :=
  Checked.within (.field name) <|
    match field? fields name with
    | some d => check d
    | none => Checked.fault .missing

/-- The check of a field that may be left out. -/
def optional (default : α) (check : Data → Checked α) (fields : List (String × Data))
    (name : String) : Checked α :=
  Checked.within (.field name) <|
    match field? fields name with
    | some d => check d
    | none => .ok default

/-- The check of a record by its fields. -/
def ofRecord (model : String) (check : List (String × Data) → Checked α) : Data → Checked α
  | record fields => check fields
  | _ => Checked.fault (.notRecord model)

end Data

/-- A record that failed its checks: what it was to be, and what is wrong with it. -/
structure Invalid where
  model : String
  issues : List Issue
  deriving DecidableEq

end CallBinding
