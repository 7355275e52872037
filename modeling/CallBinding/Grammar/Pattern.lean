import CallBinding.Grammar.Call

/-!
Patterns: what a value is matched against. A pattern is a value, a name that the value is bound to,
a list or a table of patterns, perhaps of a class, and alternatives of these. A name in a pattern is
no call.
-/

set_option autoImplicit false
set_option relaxedAutoImplicit false

namespace CallBinding.Grammar

/-- The strength above the bar between alternatives. -/
def powerInsideAlternatives : Nat := 51

/-- The rest of a list after a star, with the name that it may have. -/
def restPattern (start : Cursor) (kind : String) : Reader Node := do
  if ← acceptWord "nil" then nodeFrom start "hash_splat_nil" []
  else
    let word := wordOf (← rest)
    if word = [] then nodeFrom start kind []
    else
      let name ← leaf "identifier" word.length
      nodeFrom start kind [name.as "name"]

/-- A key, with the pattern of its value when it has one. -/
def keyPattern (p : Phrases) : Reader Node := do
  let start ← get
  let text ← rest
  let label := labelOf text
  let key ←
    if label ≠ [] then leaf "hash_key_symbol" label.length else string p
  expect ":"
  let after ← get
  skipBlanks
  let text ← rest
  if endsItem text || ["then", "if", "unless"].contains (String.ofList (wordOf text)) then
    set after
    nodeFrom start "keyword_pattern" [key.as "key"]
  else
    let value ← p.pattern
    nodeFrom start "keyword_pattern" [key.as "key", value.as "value"]

/-- Whether a text begins with a key. -/
def beginsKey (text : List Char) : Bool :=
  labelOf text ≠ [] || (beginsString text && beginsColon (afterQuote (text.drop 1)))
where
  /-- What follows the next quote. -/
  afterQuote (text : List Char) : List Char :=
    (text.dropWhile fun c ↦ c ≠ '"' && c ≠ '\'').drop 1

/-- A pattern in a list or a table. -/
def patternItem (p : Phrases) : Reader Node := do
  let start ← get
  if ← accept "**" then restPattern start "hash_splat_parameter"
  else if ← accept "*" then restPattern start "splat_parameter"
  else if beginsKey (← rest) then keyPattern p
  else p.pattern

/-- The kind of the pattern that some items form. -/
def listKind (items : List Node) : String :=
  let entries := ["keyword_pattern", "hash_splat_parameter", "hash_splat_nil"]
  if items.any fun n ↦ entries.contains n.kind then "hash_pattern"
  else if 1 < (items.filter fun n ↦ n.kind = "splat_parameter").length then "find_pattern"
  else "array_pattern"

/-- Patterns between brackets, perhaps of a class. -/
def bracketPattern (p : Phrases) (start : Cursor) (owner : List Node) (opener closer : String) :
    Reader Node := do
  expect opener
  let items ← itemsUpTo p closer (patternItem p)
  nodeFrom start (listKind items) (owner ++ items)

/-- A constant, or patterns of the class that it names. -/
def constantPattern (p : Phrases) : Reader Node := do
  let start ← get
  let scope (outer : Node) : Reader (Option Node) := do
    let before ← get
    if ← accept "::" then
      let word := wordOf (← rest)
      if word.head?.any Char.isUpper then
        let name ← leaf "constant" word.length
        return some (← nodeFrom start "scope_resolution" [outer.as "scope", name.as "name"])
    set before
    return none
  let name ← extended scope (← leaf "constant" (wordOf (← rest)).length)
  if ← sees "(" then bracketPattern p start [name.as "class"] "(" ")"
  else if ← sees "[" then bracketPattern p start [name.as "class"] "[" "]"
  else return name

/-- The value of a variable or of an expression. -/
def referencePattern (p : Phrases) : Reader Node := do
  let start ← get
  expect "^"
  match ← rest with
  | '(' :: _ =>
    let value ← parenthesizedStatements p
    nodeFrom start "expression_reference_pattern" [value.as "value"]
  | '@' :: _ | '$' :: _ =>
    let name ← sigilVariable
    nodeFrom start "variable_reference_pattern" [name.as "name"]
  | text =>
    let word := wordOf text
    if word = [] then failure
    let name ← leaf "identifier" word.length
    nodeFrom start "variable_reference_pattern" [name.as "name"]

/-- A pattern that is no range. -/
def patternAtom (p : Phrases) : Reader Node := do
  let start ← get
  let text ← rest
  let word := wordOf text
  match text with
  | '[' :: _ => bracketPattern p start [] "[" "]"
  | '\x7b' :: _ => do
    let items ← bracketPattern p start [] "\x7b" "\x7d"
    nodeFrom start "hash_pattern" items.children
  | '(' :: _ =>
    skip 1
    skipLines
    let inner ← within false false p.pattern
    skipLines
    expect ")"
    nodeFrom start "parenthesized_pattern" [inner]
  | '^' :: _ => referencePattern p
  | _ =>
    if word.head?.any Char.isUpper then constantPattern p
    else if ["nil", "true", "false", "self"].contains (String.ofList word) then
      leaf (String.ofList word) word.length
    else if word ≠ [] then leaf "identifier" word.length
    else p.operand .plain powerInsideAlternatives

/-- A pattern, or a range that begins with it and may have no end. -/
def patternRange (p : Phrases) : Reader Node := do
  let start ← get
  let first ← patternAtom p
  let dots := (← rest).takeWhile (· = '.')
  if dots.length < 2 then return first
  skip dots.length
  let last ← attempt (p.operand .plain powerInsideAlternatives)
  nodeFrom start "range" (first.as "begin" :: (last.map (Node.as · "end")).toList)

/-- A pattern with its alternatives and the name that the value gets. -/
def pattern (p : Phrases) : Reader Node := do
  let start ← get
  let next (left : Node) : Reader (Option Node) := do
    let before ← get
    skipBlanks
    if ← accept "=>" then
      skipBlanks
      let word := wordOf (← rest)
      if word = [] then failure
      let name ← leaf "identifier" word.length
      return some (← nodeFrom start "as_pattern" [left.as "value", name.as "name"])
    if ← accept "|" then
      skipLines
      let other ← patternRange p
      return some (← nodeFrom start "alternative_pattern" [left, other])
    set before
    return none
  extended next (← patternRange p)

/-- A pattern that is not inside another one, where a list or a table needs no brackets. -/
def outermostPattern (p : Phrases) : Reader Node := do
  let start ← get
  match ← separated (patternItem p) with
  | [item] =>
    if listKind [item] = "hash_pattern" || item.kind = "splat_parameter" then
      nodeFrom start (listKind [item]) [item]
    else return item
  | items => nodeFrom start (listKind items) items

end CallBinding.Grammar
