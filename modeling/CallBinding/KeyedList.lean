/-!
Lists of entries under names. A name keeps the place where it was first put and the value that was
put last.
-/

set_option autoImplicit false
set_option relaxedAutoImplicit false

namespace CallBinding.KeyedList

variable {α : Type}

/-- The list with a value under a name. -/
def put (name : String) (value : α) : List (String × α) → List (String × α)
  | [] => [(name, value)]
  | entry :: rest =>
    if entry.1 = name then (name, value) :: rest else entry :: put name value rest

/-- The value under a name. -/
def get? (name : String) (entries : List (String × α)) : Option α :=
  (entries.find? fun entry ↦ entry.1 = name).map Prod.snd

/-- The list without a name. -/
def remove (name : String) (entries : List (String × α)) : List (String × α) :=
  entries.filter fun entry ↦ entry.1 ≠ name

/-- The entries put one after the other. -/
def ofPairs (pairs : List (String × α)) : List (String × α) :=
  pairs.foldl (fun entries pair ↦ put pair.1 pair.2 entries) []

end CallBinding.KeyedList
