import CallBinding.Grammar.Operand

/-!
Statements with their modifiers, and lists of statements. Breaks separate the statements of a list;
a semicolon that ends none is a statement of its own. `nextStatement` stops at whatever closes the
list, and leaves it there.
-/

set_option autoImplicit false
set_option relaxedAutoImplicit false

namespace CallBinding.Grammar

/-! ### Statements -/

/-- The name of a method or a variable where only its name is meant. -/
def mentionedName (p : Phrases) : Reader Node := do
  match ← rest with
  | ':' :: _ => symbol p
  | '$' :: _ => sigilVariable
  | _ => methodName

/-- A second name for a method or a variable. -/
def aliasStatement (p : Phrases) : Reader Node := do
  let start ← get
  expectWord "alias"
  skipBlanks
  let name ← mentionedName p
  skipBlanks
  let other ← mentionedName p
  nodeFrom start "alias" [name.as "name", other.as "alias"]

/-- The names of methods that are taken back. -/
def undefStatement (p : Phrases) : Reader Node := do
  let start ← get
  expectWord "undef"
  skipBlanks
  let names ← separated (mentionedName p)
  nodeFrom start "undef" names

/-- Statements that are run before or after all others. -/
def programBlock (p : Phrases) (word kind : String) : Reader Node := do
  let start ← get
  expectWord word
  skipBlanks
  expect "\x7b"
  within true false do
    let statements ← p.statements
    skipLines
    expect "\x7d"
    nodeFrom start kind statements

/-- A statement without its modifiers. -/
def plainStatement (p : Phrases) : Reader Node := do
  match String.ofList (methodWordOf (← rest)) with
  | "alias" => aliasStatement p
  | "undef" => undefStatement p
  | "BEGIN" => programBlock p "BEGIN" "begin_block"
  | "END" => programBlock p "END" "end_block"
  | _ => expression p .statement

/-- A modifier after a statement. -/
def modifier (p : Phrases) (start : Cursor) (body : Node) : Reader (Option Node) := do
  let before ← get
  skipBlanks
  let word := String.ofList (methodWordOf (← rest))
  if modifierWords.contains word then
    skip word.length
    skipBlanks
    let other ← p.expression .argument
    let role := if word = "rescue" then "handler" else "condition"
    return some (← nodeFrom start (word ++ "_modifier") [body.as "body", other.as role])
  set before
  return none

/-- A statement with its modifiers. -/
def statement (p : Phrases) : Reader Node := do
  let start ← get
  extended (modifier p start) (← plainStatement p)

/-! ### Lists of statements -/

/-- Whether a text begins with what closes a list of statements. -/
def closes (text : List Char) : Bool :=
  match text with
  | [] => true
  | c :: _ =>
    c = '\x7d' || c = ')' || c = ']' || closingWords.contains (String.ofList (methodWordOf text))

/-- Reads past the semicolon that ends a statement. A statement that neither a break nor a text that
`ends` the list follows breaks the grammar, and `broken` says what comes of it. -/
def endStatement (ends : List Char → Bool) (broken : Reader Unit) : Reader Unit := do
  skipBlanks
  let text ← rest
  if text.head? = some ';' then skip 1
  else if text.head? = some '\n' || ends text then return ()
  else broken

/-- The next nodes of a list of statements, of which `one` reads a single one; nothing where a text
comes that `ends` the list. -/
def nextStatement (p : Phrases) (ends : List Char → Bool) (broken : Reader Unit)
    (one : Reader Node) : Reader (Option (List Node)) := do
  let before ← get
  skipLines
  let passed ← heredocBodies p
  if ← sees ";" then return some (passed ++ [← leaf "empty_statement" 1])
  if ends (← rest) then
    if !passed.isEmpty then return some passed
    set before
    return none
  let node ← one
  endStatement ends broken
  return some (passed ++ [node])

/-- The statements up to whatever closes their list. -/
def statements (p : Phrases) : Reader (List Node) := do
  return (← repeated (nextStatement p closes failure (statement p))).flatten

/-! ### The grammar -/

/-- The phrases whose inner phrases are given. -/
def phrases (p : Phrases) : Phrases where
  statements := statements p
  statement := statement p
  expression := expression p
  operand := operand p
  target := target p
  pattern := pattern p
  parameter := parameter p

/-- The phrases that are nested at most so deep. -/
def Phrases.upTo : Nat → Phrases
  | 0 => .none
  | depth + 1 => phrases (upTo depth)

end CallBinding.Grammar
