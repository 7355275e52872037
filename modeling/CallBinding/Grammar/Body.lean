import CallBinding.Grammar.Arguments
import CallBinding.Grammar.Parameters

/-!
Bodies: statements up to the word or the brace that closes them, with what is done when they fail,
and the blocks that are passed to a call. A line break ends a statement in a body, wherever the body
stands.
-/

set_option autoImplicit false
set_option relaxedAutoImplicit false

namespace CallBinding.Grammar

/-- The node in the role of a body that some nodes form, when there are any. -/
def bodyOf (kind : String) (nodes : Reader (List Node)) : Reader (List Node) := do
  skipLines
  let start ← get
  match ← nodes with
  | [] => return []
  | found => return [(← nodeFrom start kind found).as "body"]

/-- The break between a phrase and its body, when it is there: a line break, which stays, or a
semicolon. -/
def acceptBreak : Reader Bool := do
  skipBlanks
  if ← sees "\n" then return true
  accept ";"

/-- What a condition leads to: statements after a break, the word `then` or both. -/
def consequence (p : Phrases) (role : String) : Reader (List Node) := do
  skipBlanks
  let start ← get
  let broken ← acceptBreak
  if broken then skipLines
  let word ← acceptWord "then"
  if !broken && !word then failure
  let statements ← p.statements
  if statements.isEmpty && !word then return []
  return [(← nodeFrom start "then" statements).as role]

/-- The statements after a word, in a node of its name. -/
def clause (p : Phrases) (word : String) : Reader (Option Node) := do
  skipLines
  let start ← get
  if ← acceptWord word then
    let statements ← p.statements
    return some (← nodeFrom start word statements)
  return none

/-- What is done about some exceptions, or about any when none is named. -/
def rescueClause (p : Phrases) : Reader (Option Node) := do
  skipLines
  let start ← get
  if ← acceptWord "rescue" then
    skipBlanks
    let first ← get
    let text ← rest
    let exceptions ←
      if endsItem text || startsWithWord "then" text || "=>".toList.isPrefixOf text then pure []
      else
        let nodes ← separated (valueOrSpread p (p.operand .plain 0))
        pure [(← nodeFrom first "exceptions" nodes).as "exceptions"]
    skipBlanks
    let arrow ← get
    let named ←
      if ← accept "=>" then
        skipBlanks
        let target ← p.target
        pure [(← nodeFrom arrow "exception_variable" [target]).as "variable"]
      else pure []
    let body ← consequence p "body"
    return some (← nodeFrom start "rescue" (exceptions ++ named ++ body))
  return none

/-- Statements, with what is done when they fail, when they do not, and in either case. -/
def guardedStatements (p : Phrases) : Reader (List Node) := do
  let statements ← p.statements
  let rescues ← repeated (rescueClause p)
  let otherwise ← clause p "else"
  let ensured ← clause p "ensure"
  return statements ++ rescues ++ otherwise.toList ++ ensured.toList

/-- Reads up to and with the word that closes a body. -/
def expectEnd : Reader Unit := do
  skipLines
  expectWord "end"

/-- The parameters of a block, when it has any. -/
def parametersOfBlock (p : Phrases) : Reader (List Node) := do
  skipLines
  if ← sees "|" then return [(← blockParameters p).as "parameters"] else return []

/-- A block between braces. -/
def braceBlock (p : Phrases) : Reader Node := do
  let start ← get
  expect "\x7b"
  within true false do
    let parameters ← parametersOfBlock p
    let body ← bodyOf "block_body" p.statements
    skipLines
    expect "\x7d"
    nodeFrom start "block" (parameters ++ body)

/-- A block between `do` and `end`. -/
def doBlock (p : Phrases) : Reader Node := do
  let start ← get
  expectWord "do"
  within true false do
    let _ ← acceptBreak
    let parameters ← parametersOfBlock p
    let _ ← acceptBreak
    let body ← bodyOf "body_statement" (guardedStatements p)
    expectEnd
    nodeFrom start "do_block" (parameters ++ body)

/-- The block between `do` and `end` that may follow here. -/
def trailingDoBlock (p : Phrases) : Reader (List Node) := do
  let before ← get
  skipBlanks
  if !before.doTaken && (← seesWord "do") then return [(← doBlock p).as "block"]
  set before
  return []

/-- The block that may follow here. -/
def trailingBlock (p : Phrases) : Reader (List Node) := do
  let before ← get
  skipBlanks
  if ← sees "\x7b" then return [(← braceBlock p).as "block"]
  set before
  trailingDoBlock p

/-- Statements between parentheses. -/
def parenthesizedStatements (p : Phrases) : Reader Node := do
  let start ← get
  expect "("
  within true false do
    let statements ← p.statements
    skipLines
    expect ")"
    nodeFrom start "parenthesized_statements" statements

/-- A lambda. -/
def lambda (p : Phrases) : Reader Node := do
  let start ← get
  expect "->"
  let parameters ← lambdaParameters p
  skipBlanks
  let body ← if ← sees "\x7b" then braceBlock p else doBlock p
  nodeFrom start "lambda" ((parameters.map (Node.as · "parameters")).toList ++ [body.as "body"])

end CallBinding.Grammar
