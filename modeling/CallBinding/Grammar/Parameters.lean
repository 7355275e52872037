import CallBinding.Grammar.Phrases

/-!
Parameters, one at a time and in lists: of methods, with parentheses or without, of blocks between
bars, and of lambdas. A list has no comma at its end, except that of a block.
-/

set_option autoImplicit false
set_option relaxedAutoImplicit false

namespace CallBinding.Grammar

/-- The name of a parameter. Any word can be one that does not begin as a constant does. -/
def parameterName : Reader Node := do
  let word := wordOf (← rest)
  if word = [] || word.head?.any Char.isUpper then failure
  leaf "identifier" word.length

/-- A parameter of a kind whose sign is read already, with the name that it may have. -/
def splatted (start : Cursor) (kind : String) : Reader Node := do
  let name ← attempt parameterName
  nodeFrom start kind ((name.map (Node.as · "name")).toList)

/-- Whether a keyword has no default here: the list goes on or ends. -/
def endsParameter (text : List Char) : Bool :=
  match text with
  | [] => true
  | c :: _ => c = ',' || c = ')' || c = '|' || c = ';' || c = '\n'

/-- A parameter whose name is read already. -/
def namedParameter (p : Phrases) (power : Nat) (start : Cursor) (name : Node) : Reader Node := do
  let text ← rest
  if text.head? = some ':' && (text.drop 1).head? ≠ some ':' then
    skip 1
    let after ← get
    skipBlanks
    if endsParameter (← rest) then
      set after
      nodeFrom start "keyword_parameter" [name.as "name"]
    else
      let value ← p.operand .plain power
      nodeFrom start "keyword_parameter" [name.as "name", value.as "value"]
  else
    let after ← get
    skipBlanks
    if assigns (← rest) then
      skip 1
      skipLines
      let value ← p.operand .plain power
      nodeFrom start "optional_parameter" [name.as "name", value.as "value"]
    else
      set after
      return name

/-- Parameters separated by commas. -/
def parameterList (p : Phrases) (power : Nat) : Reader (List Node) :=
  separated (p.parameter power)

/-- Parameters between parentheses. -/
def parenthesized (p : Phrases) (kind : String) : Reader Node := do
  let start ← get
  expect "("
  within false false do
    skipBlanks
    let parameters ← if ← sees ")" then pure [] else parameterList p 0
    skipBlanks
    expect ")"
    nodeFrom start kind parameters

/-- A parameter whose default has operators of at least a strength. -/
def parameter (p : Phrases) (power : Nat) : Reader Node := do
  let start ← get
  if ← accept "..." then nodeFrom start "forward_parameter" []
  else if ← accept "**" then
    if ← acceptWord "nil" then nodeFrom start "hash_splat_nil" []
    else splatted start "hash_splat_parameter"
  else if ← accept "*" then splatted start "splat_parameter"
  else if ← accept "&" then splatted start "block_parameter"
  else if ← sees "(" then parenthesized p "destructured_parameter"
  else
    let name ← parameterName
    namedParameter p power start name

/-- The strength above the bar that closes the parameters of a block. -/
def powerInsideBars : Nat := 51

/-- The local variables that a block declares besides its parameters. -/
def blockLocals : Reader (List Node) := do
  skipBlanks
  if ← accept ";" then
    skipBlanks
    separated (return (← parameterName).as "locals")
  else return []

/-- Whether the parameters of a block end here. -/
def endsBlockParameters (text : List Char) : Bool :=
  text.head? = some '|' || text.head? = some ';'

/-- The parameters of a block between bars, with its local variables. A comma may end them. -/
def blockParameters (p : Phrases) : Reader Node := do
  let start ← get
  expect "|"
  within false false do
    let next : Reader (Option Node) := do
      skipBlanks
      if endsBlockParameters (← rest) then return none
      let node ← p.parameter powerInsideBars
      skipBlanks
      if !(← accept ",") then
        if !endsBlockParameters (← rest) then failure
      return some node
    let parameters ← repeated next
    let locals ← blockLocals
    skipBlanks
    expect "|"
    nodeFrom start "block_parameters" (parameters ++ locals)

/-- The parameters of a lambda, with parentheses or without. -/
def lambdaParameters (p : Phrases) : Reader (Option Node) := do
  let before ← get
  skipBlanks
  if ← sees "(" then return some (← parenthesized p "lambda_parameters")
  if (← sees "\x7b") || (← seesWord "do") then
    set before
    return none
  let start ← get
  let parameters ← parameterList p 0
  return some (← nodeFrom start "lambda_parameters" parameters)

/-- The parameters of a method, with parentheses, without, or none. -/
def methodParameters (p : Phrases) : Reader (Option Node) := do
  let before ← get
  skipBlanks
  let text ← rest
  if text.head? = some '(' then return some (← parenthesized p "method_parameters")
  if endsParameter text || text.head? = some '=' then
    set before
    return none
  let start ← get
  let parameters ← parameterList p 0
  return some (← nodeFrom start "method_parameters" parameters)

end CallBinding.Grammar
