import CallBinding.Grammar.Body

/-!
Calls, and the names and chains that may turn out to be calls. A name is a call when arguments or a
block follow it; a name after a point is always one. `chain` reads what is called on what was read
so far, also on the lines after it.
-/

set_option autoImplicit false
set_option relaxedAutoImplicit false

namespace CallBinding.Grammar

/-- What stands before the arguments of a call: where it starts, its nodes, and the node that it is
when no arguments follow. -/
structure CallHead where
  start : Cursor
  nodes : List Node
  bare : Node

/-- Argument lists that follow each other at once. Only the last one is passed; the others are no
part of the grammar. -/
def argumentLists (p : Phrases) : Reader (List Node) := do
  let start ← get
  let next : Reader (Option Node) := do
    if ← sees "(" then return some (← argumentList p) else return none
  let lists ← repeated next
  match lists.getLast? with
  | none => return []
  | some last =>
    if lists.length = 1 then return [last.as "arguments"]
    noteFault
    let spare ← nodeFrom start "ERROR" lists.dropLast
    return [spare, last.as "arguments"]

/-- Completes a call by its arguments and its block. -/
def complete (p : Phrases) (position : Position) (head : CallHead) : Reader Node := do
  let text ← rest
  if text.head? = some '(' then
    let lists ← argumentLists p
    let block ← trailingBlock p
    nodeFrom head.start "call" (head.nodes ++ lists ++ block)
  else if position ≠ .plain && beginsArgument text then
    skipBlanks
    let list ← bareArguments p
    let block ← trailingDoBlock p
    nodeFrom head.start "call" (head.nodes ++ [list.as "arguments"] ++ block)
  else
    match ← trailingBlock p with
    | [] => return head.bare
    | block => nodeFrom head.start "call" (head.nodes ++ block)

/-- Whether a name ends in a mark that only the name of a method has. -/
def isMarked (word : List Char) : Bool :=
  word.getLast?.any fun c ↦ c = '?' || c = '!'

/-- A name that begins a phrase. -/
def namedPhrase (p : Phrases) (position : Position) : Reader Node := do
  let start ← get
  let word := methodWordOf (← rest)
  if word = [] then failure
  let name ← leaf (nameKind word) word.length
  let nodes := [name.as "method"]
  let bare ← if isMarked word then nodeFrom start "call" nodes else pure name
  complete p position ⟨start, nodes, bare⟩

/-- A call of the method that the method being defined overrides. -/
def superPhrase (p : Phrases) (position : Position) : Reader Node := do
  let start ← get
  let name ← leaf "super" "super".length
  complete p position ⟨start, [name.as "method"], name⟩

/-- The name of a method that is called on something: any word, or an operator. -/
def calledName : Reader Node := do
  let text ← rest
  let word := methodWordOf text
  if word ≠ [] then leaf (nameKind word) word.length
  else match operatorName? text with
    | some operator => leaf "operator" operator.length
    | none => failure

/-- A call of a method by name on what was read so far. -/
def callOn (p : Phrases) (position : Position) (start : Cursor) (receiver : Node) :
    Reader Node := do
  let name ← calledName
  let nodes := [receiver.as "receiver", name.as "method"]
  let bare ← nodeFrom start "call" nodes
  complete p position ⟨start, nodes, bare⟩

/-- What follows two colons: a constant of what was read so far, or a call on it. -/
def scopedPhrase (p : Phrases) (position : Position) (start : Cursor) (scope : Node) :
    Reader Node := do
  let text ← rest
  let word := methodWordOf text
  if word.head?.any Char.isUpper && !isMarked word && (text.drop word.length).head? ≠ some '(' then
    let name ← leaf "constant" word.length
    nodeFrom start "scope_resolution" [scope.as "scope", name.as "name"]
  else callOn p position start scope

/-- A constant of the outermost scope. -/
def outermostConstant : Reader Node := do
  let start ← get
  expect "::"
  let word := wordOf (← rest)
  if !word.head?.any Char.isUpper then failure
  let name ← leaf "constant" word.length
  nodeFrom start "scope_resolution" [name.as "name"]

/-- Whether a text begins with a point that calls a method. -/
def beginsCall (text : List Char) : Bool :=
  match text with
  | '.' :: c :: _ => c ≠ '.'
  | '&' :: '.' :: _ => true
  | _ => false

/-- One link of a chain: an index, a scope, or a call on what was read so far. -/
def link (p : Phrases) (position : Position) (start : Cursor) (inner : Node) :
    Reader (Option Node) := do
  let before ← get
  let text ← rest
  if text.head? = some '[' then return some (← elementReference p start inner)
  if "::".toList.isPrefixOf text then
    skip 2
    return some (← scopedPhrase p position start inner)
  skipLines
  if beginsCall (← rest) then
    let _ ← accept "&"
    expect "."
    skipLines
    if ← sees "(" then
      let list ← argumentList p
      let block ← trailingBlock p
      return some (← nodeFrom start "call" ([inner.as "receiver", list.as "arguments"] ++ block))
    return some (← callOn p position start inner)
  set before
  return none

/-- What was read so far with everything that is called on it. -/
def chain (p : Phrases) (position : Position) (start : Cursor) (first : Node) : Reader Node :=
  extended (link p position start) first

end CallBinding.Grammar
