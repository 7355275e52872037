import CallBinding.Grammar.Declaration

/-!
Operands: what a phrase begins with, the signs and operators around it, and assignments. An
assignment takes all that follows, whatever stands before it; every other operator takes an operand
on its right in which all operators bind more strongly. As a statement an assignment can have
several targets and several values.
-/

set_option autoImplicit false
set_option relaxedAutoImplicit false

namespace CallBinding.Grammar

/-! ### Primary phrases -/

/-- A phrase that begins with a word. -/
def wordPhrase (p : Phrases) (position : Position) : Reader Node := do
  let word := String.ofList (methodWordOf (← rest))
  match word with
  | "nil" | "true" | "false" | "self" | "redo" | "retry" => leaf word word.length
  | "if" | "unless" => conditional p word
  | "while" | "until" => loop p word
  | "for" => forLoop p
  | "case" => choice p
  | "begin" => beginPhrase p
  | "def" => methodPhrase p
  | "class" => classPhrase p
  | "module" => modulePhrase p
  | "return" | "break" | "next" | "yield" => jump p position word
  | "super" => superPhrase p position
  | _ => if closingWords.contains word then failure else namedPhrase p position

/-- A phrase without the operators around it. -/
def primary (p : Phrases) (position : Position) : Reader Node := do
  let text ← rest
  match text with
  | '"' :: _ | '\'' :: _ => strings p
  | '\x60' :: _ => quotedNode p "subshell" 1 ⟨none, some '\x60', true, true⟩
  | '%' :: more => if opensPercent more then percentLiteral p else failure
  | ':' :: ':' :: _ => outermostConstant
  | ':' :: _ => symbol p
  | '/' :: _ => regex p
  | '?' :: _ => charLiteral
  | '[' :: _ => array p
  | '\x7b' :: _ => hash p
  | '(' :: _ => parenthesizedStatements p
  | '-' :: '>' :: _ => lambda p
  | '-' :: _ | '+' :: _ => signedNumber
  | '<' :: '<' :: more => if opensHeredoc more then heredoc else failure
  | '@' :: _ | '$' :: _ => sigilVariable
  | c :: _ => if c.isDigit then number else wordPhrase p position
  | [] => failure

/-- A phrase with what is called on it. -/
def chained (p : Phrases) (position : Position) : Reader Node := do
  let start ← get
  let first ← primary p position
  chain p position start first

/-! ### Assignments -/

/-- Kinds that can always be assigned to. -/
def assignableKinds : List String :=
  ["identifier", "constant", "instance_variable", "class_variable", "global_variable",
    "element_reference", "scope_resolution"]

/-- Whether a node can be assigned to: a variable, a constant, an element, or an attribute. -/
def isAssignable (n : Node) : Bool :=
  assignableKinds.contains n.kind
    || n.kind = "call" && (n.child? "receiver").isSome && (n.child? "arguments").isNone
      && (n.child? "block").isNone

/-- What can be assigned to: a variable, a constant, an element or an attribute, the rest of a list
after a star, or a list in parentheses. -/
def target (p : Phrases) : Reader Node := do
  let start ← get
  if ← accept "*" then
    match ← attempt p.target with
    | some inner => nodeFrom start "rest_assignment" [inner]
    | none => nodeFrom start "rest_assignment" []
  else if ← accept "(" then
    within false false do
      skipBlanks
      let list ← separated p.target
      skipBlanks
      expect ")"
      nodeFrom start "destructured_left_assignment" list
  else
    let node ← chained p .plain
    if isAssignable node then return node else failure

/-- The values that are assigned, one or as a statement several, and what stands for them when they
fail. -/
def assignedValue (p : Phrases) (position : Position) : Reader Node := do
  skipLines
  let start ← get
  let inner : Position := if position = .plain then .plain else .argument
  let value ←
    if position = .statement then
      match ← separated (valueOrSpread p (p.operand inner 0)) with
      | [one] => pure one
      | several => nodeFrom start "right_assignment_list" several
    else p.operand inner 0
  let after ← get
  skipBlanks
  if position ≠ .plain && startsWithWord "rescue" (← rest) then
    skip "rescue".length
    skipBlanks
    let handler ← p.operand inner 0
    nodeFrom start "rescue_modifier" [value.as "body", handler.as "handler"]
  else
    set after
    return value

/-- An assignment to several targets, of which the first ones are read already. -/
def listAssignment (p : Phrases) (start : Cursor) (first : Node) : Reader Node := do
  let next : Reader (Option Node) := do
    let before ← get
    skipBlanks
    if ← accept "," then
      let after ← get
      skipBlanks
      if !assigns (← rest) then return some (← p.target)
      set after
    else set before
    return none
  let more ← repeated next
  let left ← nodeFrom start "left_assignment_list" (first :: more)
  skipBlanks
  if !assigns (← rest) then failure
  skip 1
  let right ← assignedValue p .statement
  nodeFrom start "assignment" [left.as "left", right.as "right"]

/-- The assignment to what was read so far, when there is one. -/
def assignment (p : Phrases) (position : Position) (start : Cursor) (left : Node) :
    Reader Node := do
  if !isAssignable left then return left
  let after ← get
  skipBlanks
  let text ← rest
  if assigns text then
    skip 1
    let right ← assignedValue p position
    nodeFrom start "assignment" [left.as "left", right.as "right"]
  else match assigningOperator? text with
    | some sign =>
      skip (sign.length + 1)
      let right ← assignedValue p position
      nodeFrom start "operator_assignment" [left.as "left", right.as "right"]
    | none =>
      if position = .statement && text.head? = some ',' then listAssignment p start left
      else
        set after
        return left

/-- What follows the parenthesis that closes the one a text begins with. -/
def afterParenthesis (depth : Nat) : List Char → List Char
  | [] => []
  | c :: more =>
    if c = '(' then afterParenthesis (depth + 1) more
    else if c = ')' then if depth ≤ 1 then more else afterParenthesis (depth - 1) more
    else afterParenthesis depth more

/-- Whether a text begins with a list of targets, to be told by its first sign or by what follows
its first parenthesis. -/
def beginsTargets (text : List Char) : Bool :=
  match text with
  | '*' :: _ => true
  | '(' :: _ =>
    let after := (afterParenthesis 0 text).dropWhile isSpace
    after.head? = some ',' || assigns after
  | _ => false

/-! ### Operators -/

/-- A sign before its only operand. -/
def signOperator (p : Phrases) (position : Position) (power : Nat) : Reader Node := do
  let start ← get
  skip 1
  skipBlanks
  let operand ← p.operand position power
  nodeFrom start "unary" [operand.as "operand"]

/-- A range without a beginning. -/
def beginlessRange (p : Phrases) (length : Nat) : Reader Node := do
  let start ← get
  skip length
  skipBlanks
  let last ← p.operand .plain (powerOfRange + 1)
  nodeFrom start "range" [last.as "end"]

/-- What an operand begins with: signs, or a phrase with what is called on it and assigned to it. -/
def leading (p : Phrases) (position : Position) : Reader Node := do
  let start ← get
  let text ← rest
  let inner : Position := if position = .plain then .plain else .argument
  if position = .statement && beginsTargets text then
    listAssignment p start (← target p)
  else if "...".toList.isPrefixOf text then beginlessRange p 3
  else if "..".toList.isPrefixOf text then beginlessRange p 2
  else if startsWithWord "not" text then wordOperator p inner "not" powerOfNot
  else if "defined?".toList.isPrefixOf text then wordOperator p .plain "defined?" powerOfDefined
  else match text with
    | '!' :: _ => signOperator p inner powerOfSign
    | '~' :: _ => signOperator p .plain powerOfSign
    | '-' :: c :: _ =>
      if c.isDigit || c = '>' then chained p position
      else signOperator p .plain powerOfMinus
    | '+' :: c :: _ => if c.isDigit then chained p position else signOperator p .plain powerOfSign
    | _ => assignment p position start (← chained p position)

/-- Whether a range ends here without an end of its own. -/
def endsRange (text : List Char) : Bool :=
  endsItem text || closingWords.contains (String.ofList (wordOf text))
    || modifierWords.contains (String.ofList (wordOf text))

/-- An operator and its right side, after the left one. -/
def binary (p : Phrases) (o : Operator) (start : Cursor) (left : Node) : Reader Node := do
  skip o.sign.length
  let after ← get
  skipBlanks
  if o.kind = "range" && endsRange (← rest) then
    set after
    nodeFrom start o.kind [left.as "begin"]
  else
    skipLines
    let right ← p.operand .plain o.right
    let (first, second) := if o.kind = "range" then ("begin", "end") else ("left", "right")
    nodeFrom start o.kind [left.as first, right.as second]

/-- The two outcomes of a condition that is read already. -/
def ternary (p : Phrases) (start : Cursor) (condition : Node) : Reader Node := do
  expect "?"
  skipLines
  let yes ← p.operand .plain 0
  skipLines
  expect ":"
  skipLines
  let no ← p.operand .plain powerOfConditional
  nodeFrom start "conditional"
    [condition.as "condition", yes.as "consequence", no.as "alternative"]

/-- An operator that binds at least so strongly, with its right side. -/
def operation (p : Phrases) (power : Nat) (start : Cursor) (left : Node) :
    Reader (Option Node) := do
  let before ← get
  skipBlanks
  let text ← rest
  match operator? text with
  | some o =>
    if power ≤ o.power then return some (← binary p o start left)
  | none =>
    if text.head? = some '?' && power ≤ powerOfConditional then
      return some (← ternary p start left)
  set before
  return none

/-- An operand in which every operator binds at least so strongly. -/
def operand (p : Phrases) (position : Position) (power : Nat) : Reader Node := do
  let start ← get
  extended (operation p power start) (← leading p position)

/-- A value with the pattern that it is matched against, when there is one: after `in` the match is
a condition, and after an arrow it has to succeed. -/
def matched (p : Phrases) (start : Cursor) (value : Node) : Reader Node := do
  let before ← get
  skipBlanks
  let text ← rest
  let found :=
    if startsWithWord "in" text then some ("in", "test_pattern")
    else if "=>".toList.isPrefixOf text then some ("=>", "match_pattern")
    else none
  match found with
  | some (sign, kind) =>
    skip sign.length
    skipBlanks
    let pattern ← outermostPattern p
    nodeFrom start kind [value.as "value", pattern.as "pattern"]
  | none =>
    set before
    return value

/-- Operands joined by `and` and `or`. -/
def expression (p : Phrases) (position : Position) : Reader Node := do
  let start ← get
  let next (left : Node) : Reader (Option Node) := do
    let before ← get
    skipBlanks
    let word := wordOf (← rest)
    if ["and", "or"].contains (String.ofList word) then
      skip word.length
      skipLines
      let right ← p.operand .argument 0
      return some (← nodeFrom start "binary" [left.as "left", right.as "right"])
    set before
    return none
  let first ← operand p position 0
  extended next (← if position = .statement then matched p start first else pure first)

end CallBinding.Grammar
