import CallBinding.Params
import CallBinding.Source

/-!
The label under which a pair of a hash passes a keyword. A symbol key has four spellings, bare
before a colon, after a colon, quoted before a colon and quoted after a colon, and all of them give
one label. Any other key, and a quoted key with an interpolation or an escape, gives none.
-/

set_option autoImplicit false
set_option relaxedAutoImplicit false

namespace CallBinding

/-- The text without the one colon it may begin with. -/
def withoutLeadingColon (text : String) : String :=
  match text.toList with
  | ':' :: rest => String.ofList rest
  | _ => text

namespace Source

/-- The label that a pair passes, when its key is a symbol. -/
def pairLabel? (s : Source) (pair : Node) : Option String :=
  match pair.child? "key" with
  | none => none
  | some key =>
    if key.kind = "hash_key_symbol" then some (withoutTrailingColon (s.text key) ++ ":")
    else if key.kind = "simple_symbol" then some (withoutLeadingColon (s.text key) ++ ":")
    else if key.kind = "delimited_symbol"
        || (key.kind = "string" && pair.children.any fun c ↦ c.kind = ":") then
      (s.quotedText? key).map (· ++ ":")
    else none

end Source

/-- The label that a pair passes, when its key is a symbol. The key is read in any case. -/
def Encoded.pairLabel? (e : Encoded) (pair : Node) : Except Failure (Option String) :=
  match pair.child? "key" with
  | none => return none
  | some key => do
    let text ← e.text key
    if key.kind = "hash_key_symbol" then return some (withoutTrailingColon text ++ ":")
    else if key.kind = "simple_symbol" then return some (withoutLeadingColon text ++ ":")
    else if key.kind = "delimited_symbol"
        || (key.kind = "string" && pair.children.any fun c ↦ c.kind = ":") then
      return (← e.quotedText? key).map (· ++ ":")
    else return none

end CallBinding
