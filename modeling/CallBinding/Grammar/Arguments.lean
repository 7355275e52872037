import CallBinding.Grammar.Literal

/-!
What stands in a list between commas: the arguments of a call, the elements of an array, the entries
of a hash. A keyword is a pair whose key stands right before a colon; any other pair has an arrow. A
list between brackets may end in a comma, and one without them ends at the end of its line.
-/

set_option autoImplicit false
set_option relaxedAutoImplicit false

namespace CallBinding.Grammar

/-- Whether a text begins with a single colon. -/
def beginsColon (text : List Char) : Bool :=
  text.head? = some ':' && (text.drop 1).head? ≠ some ':'

/-- Whether what is passed is left out here: the list goes on or ends. -/
def endsItem (text : List Char) : Bool :=
  match text with
  | [] => true
  | c :: _ => c = ',' || c = ')' || c = ']' || c = '\x7d' || c = ';' || c = '\n'

/-- A pair whose key stands right before the colon that comes next. Its value may be left out. -/
def labelledPair (p : Phrases) (start : Cursor) (key : Node) : Reader Node := do
  let sign ← leaf ":" 1
  let colon := { sign with named := false }
  let after ← get
  skipBlanks
  if endsItem (← rest) then
    set after
    nodeFrom start "pair" [key.as "key", colon]
  else
    let value ← p.operand .plain 0
    nodeFrom start "pair" [key.as "key", colon, value.as "value"]

/-- A value; or a pair, when it is a string right before a colon or an arrow follows it. -/
def valueOrPair (p : Phrases) (value : Reader Node) : Reader Node := do
  let start ← get
  let key ← value
  if key.kind = "string" && beginsColon (← rest) then labelledPair p start key
  else
    let after ← get
    skipBlanks
    if ← accept "=>" then
      skipLines
      let value ← p.operand .plain 0
      nodeFrom start "pair" [key.as "key", value.as "value"]
    else
      set after
      return key

/-- An argument whose sign is read already. What it passes may be left out. -/
def signed (p : Phrases) (start : Cursor) (kind : String) : Reader Node := do
  let after ← get
  skipBlanks
  if endsItem (← rest) then
    set after
    nodeFrom start kind []
  else
    let operand ← p.operand .plain 0
    nodeFrom start kind [operand]

/-- A value, or what a star spreads. -/
def valueOrSpread (p : Phrases) (value : Reader Node) : Reader Node := do
  let start ← get
  if ← accept "*" then signed p start "splat_argument" else value

/-- An argument, of which `value` reads one that has neither a sign nor a label. -/
def argument (p : Phrases) (value : Reader Node) : Reader Node := do
  let start ← get
  let text ← rest
  let label := labelOf text
  if label ≠ [] then
    let key ← leaf "hash_key_symbol" label.length
    labelledPair p start key
  else if "...".toList.isPrefixOf text && endsItem (text.drop 3) then
    leaf "forward_argument" 3
  else if ← accept "**" then signed p start "hash_splat_argument"
  else if ← accept "*" then signed p start "splat_argument"
  else if ← accept "&" then signed p start "block_argument"
  else valueOrPair p value

/-- Items with commas between them and perhaps after the last, up to and with a closing sign. -/
def itemsUpTo (p : Phrases) (closer : String) (item : Reader Node) : Reader (List Node) := do
  let next : Reader (Option (List Node)) := do
    skipBlanks
    let passed ← heredocBodies p
    if ← sees closer then return if passed.isEmpty then none else some passed
    let node ← item
    skipBlanks
    if !(← accept ",") then
      if !(← sees closer) then failure
    return some (passed ++ [node])
  let items ← within false false (repeated next)
  expect closer
  return items.flatten

/-- Arguments between parentheses. -/
def argumentList (p : Phrases) : Reader Node := do
  let start ← get
  expect "("
  let items ← itemsUpTo p ")" (argument p (p.expression .argument))
  nodeFrom start "argument_list" items

/-- Arguments without parentheses. A `do` after them belongs to the call that they are passed to. -/
def bareArguments (p : Phrases) : Reader Node := do
  let start ← get
  let items ← within start.breaks true (separated (argument p (p.operand .argument 0)))
  nodeFrom start "argument_list" items

/-- An array between brackets. -/
def array (p : Phrases) : Reader Node := do
  let start ← get
  expect "["
  let items ← itemsUpTo p "]" (argument p (p.operand .argument 0))
  nodeFrom start "array" items

/-- An object with what indexes it between brackets. -/
def elementReference (p : Phrases) (start : Cursor) (object : Node) : Reader Node := do
  expect "["
  let items ← itemsUpTo p "]" (argument p (p.operand .argument 0))
  nodeFrom start "element_reference" (object.as "object" :: items)

/-- An entry of a hash. -/
def hashEntry (p : Phrases) : Reader Node := do
  let entry ← argument p (p.operand .plain 0)
  if entry.kind = "pair" || entry.kind = "hash_splat_argument" then return entry else failure

/-- A hash between braces. -/
def hash (p : Phrases) : Reader Node := do
  let start ← get
  expect "\x7b"
  let entries ← itemsUpTo p "\x7d" (hashEntry p)
  nodeFrom start "hash" entries

end CallBinding.Grammar
