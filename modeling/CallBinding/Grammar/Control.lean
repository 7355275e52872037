import CallBinding.Grammar.Pattern

/-!
Phrases that decide what is run: conditions, loops, choices, guarded statements, and the ways to
leave a method, a block or a loop. Each of them begins with a word of its own.
-/

set_option autoImplicit false
set_option relaxedAutoImplicit false

namespace CallBinding.Grammar

/-! ### Conditions -/

/-- What is run when no condition holds. -/
def otherwise (p : Phrases) : Reader (List Node) := do
  return ((← clause p "else").map (Node.as · "alternative")).toList

/-- A further condition, of which `limit` bounds how many may follow. -/
def elsif (p : Phrases) : Nat → Reader (List Node)
  | 0 => failure
  | limit + 1 => do
    skipLines
    let start ← get
    if ← acceptWord "elsif" then
      skipBlanks
      let condition ← p.statement
      let body ← consequence p "consequence"
      let more ← elsif p limit
      let node ← nodeFrom start "elsif" ([condition.as "condition"] ++ body ++ more)
      return [node.as "alternative"]
    else otherwise p

/-- A phrase that is run when a condition holds, or when it does not. -/
def conditional (p : Phrases) (word : String) : Reader Node := do
  let start ← get
  expectWord word
  within true false do
    skipBlanks
    let condition ← p.statement
    let body ← consequence p "consequence"
    let more ← elsif p ((← rest).length + 1)
    expectEnd
    nodeFrom start word ([condition.as "condition"] ++ body ++ more)

/-! ### Loops -/

/-- The body of a loop, after a break, the word `do` or both. -/
def loopBody (p : Phrases) : Reader Node := do
  skipBlanks
  let start ← get
  let word ← acceptWord "do"
  if !word then
    if !(← acceptBreak) then failure
  let statements ← p.statements
  expectEnd
  nodeFrom start "do" statements

/-- A loop that runs while a condition holds, or until it does. -/
def loop (p : Phrases) (word : String) : Reader Node := do
  let start ← get
  expectWord word
  within true false do
    skipBlanks
    let condition ← within true true p.statement
    let body ← loopBody p
    nodeFrom start word [condition.as "condition", body.as "body"]

/-- The targets of an assignment to several, or the one target that there is. -/
def targets (p : Phrases) : Reader Node := do
  let start ← get
  match ← separated p.target with
  | [target] => return target
  | list => nodeFrom start "left_assignment_list" list

/-- A loop over the elements of a collection. -/
def forLoop (p : Phrases) : Reader Node := do
  let start ← get
  expectWord "for"
  within true false do
    skipBlanks
    let pattern ← targets p
    skipBlanks
    let word ← get
    expectWord "in"
    skipBlanks
    let collection ← within true true p.statement
    let value ← nodeFrom word "in" [collection]
    let body ← loopBody p
    nodeFrom start "for" [pattern.as "pattern", value.as "value", body.as "body"]

/-! ### Choices -/

/-- One alternative of a choice: its patterns and what is run when one of them matches. -/
def alternative (p : Phrases) : Reader (Option Node) := do
  skipLines
  let start ← get
  if ← acceptWord "when" then
    skipBlanks
    let pattern : Reader Node := do
      let first ← get
      let node ← valueOrSpread p (p.operand .plain 0)
      return (← nodeFrom first "pattern" [node]).as "pattern"
    let patterns ← separated pattern
    let body ← consequence p "body"
    return some (← nodeFrom start "when" (patterns ++ body))
  return none

/-- The condition that a value has to meet besides matching a pattern. -/
def guard (p : Phrases) : Reader (List Node) := do
  skipBlanks
  let start ← get
  let word := String.ofList (wordOf (← rest))
  if ["if", "unless"].contains word then
    skip word.length
    skipBlanks
    let condition ← p.expression .argument
    return [(← nodeFrom start (word ++ "_guard") [condition.as "condition"]).as "guard"]
  return []

/-- One alternative of a choice by patterns: its pattern and what is run when that matches. -/
def inClause (p : Phrases) : Reader (Option Node) := do
  skipLines
  let start ← get
  if ← acceptWord "in" then
    skipBlanks
    let pattern ← outermostPattern p
    let condition ← guard p
    let body ← consequence p "body"
    let node ← nodeFrom start "in_clause" ([pattern.as "pattern"] ++ condition ++ body)
    return some (node.as "clauses")
  return none

/-- A choice between alternatives, by equality or by patterns. -/
def choice (p : Phrases) : Reader Node := do
  let start ← get
  expectWord "case"
  within true false do
    skipBlanks
    let value ← if ← acceptBreak then pure [] else pure [(← p.statement).as "value"]
    let _ ← acceptBreak
    let alternatives ← repeated (alternative p)
    let clauses ← repeated (inClause p)
    let otherwise ← clause p "else"
    expectEnd
    nodeFrom start (if clauses.isEmpty then "case" else "case_match")
      (value ++ alternatives ++ clauses ++ otherwise.toList)

/-! ### Guarded statements -/

/-- Statements between `begin` and `end`. -/
def beginPhrase (p : Phrases) : Reader Node := do
  let start ← get
  expectWord "begin"
  within true false do
    let _ ← acceptBreak
    let nodes ← guardedStatements p
    expectEnd
    nodeFrom start "begin" nodes

/-! ### Ways to leave -/

/-- A word that passes arguments on, to wherever control goes. -/
def jump (p : Phrases) (position : Position) (word : String) : Reader Node := do
  let start ← get
  expectWord word
  let text ← rest
  let braced := (text.drop (leadingSpace text)).head? = some '\x7b'
  if text.head? = some '(' then
    let list ← argumentList p
    nodeFrom start word [list]
  else if position ≠ .plain && (beginsArgument text || braced) then
    skipBlanks
    let list ← bareArguments p
    nodeFrom start word [list]
  else nodeFrom start word []

/-! ### Signs that are words -/

/-- A word that stands before its only operand. -/
def wordOperator (p : Phrases) (position : Position) (word : String) (power : Nat) :
    Reader Node := do
  let start ← get
  skip word.length
  skipBlanks
  let operand ← p.operand position power
  nodeFrom start "unary" [operand.as "operand"]

end CallBinding.Grammar
