import CallBinding.Grammar.Phrases

/-!
Literals: numbers, symbols, and everything that stands between quotes. What is quoted is a list of
parts: plain content, escapes, and interpolations that hold statements.
-/

set_option autoImplicit false
set_option relaxedAutoImplicit false

namespace CallBinding.Grammar

/-! ### Numbers -/

/-- The digits that a text begins with, between which low lines may stand. -/
def digitsOf (text : List Char) : List Char :=
  text.takeWhile fun c ↦ c.isDigit || c = '_'

/-- The length of the exponent that a text begins with. -/
def exponentLength (text : List Char) : Nat :=
  match text with
  | e :: text =>
    if e = 'e' || e = 'E' then
      let sign := if text.head?.any fun c ↦ c = '+' || c = '-' then 1 else 0
      let digits := (digitsOf (text.drop sign)).length
      if digits = 0 then 0 else 1 + sign + digits
    else 0
  | [] => 0

/-- The length of the fraction that a text begins with. -/
def fractionLength (text : List Char) : Nat :=
  match text with
  | '.' :: c :: _ => if c.isDigit then 1 + (digitsOf (text.drop 1)).length else 0
  | _ => 0

/-- The length of the number that a text begins with, and its kind. -/
def numberOf (text : List Char) : Nat × String :=
  match text with
  | '0' :: base :: _ =>
    if base.isAlpha && "xXbBoOdD".toList.contains base then
      (2 + ((text.drop 2).takeWhile fun c ↦ c.isAlphanum || c = '_').length, "integer")
    else decimal text
  | _ => decimal text
where
  /-- The same for a number in base ten. -/
  decimal (text : List Char) : Nat × String :=
    let whole := (digitsOf text).length
    let fraction := fractionLength (text.drop whole)
    let exponent := exponentLength (text.drop (whole + fraction))
    (whole + fraction + exponent, if fraction + exponent = 0 then "integer" else "float")

/-- Wraps a number in the kind that a letter after it makes of it. -/
def suffixed (start : Cursor) (letter kind : String) (number : Node) : Reader Node := do
  if ← accept letter then nodeFrom start kind [number] else return number

/-- A number without a sign. -/
def number : Reader Node := do
  let start ← get
  let (length, kind) := numberOf (← rest)
  if length = 0 then failure
  let plain ← leaf kind length
  suffixed start "i" "complex" (← suffixed start "r" "rational" plain)

/-- A number whose sign is part of it. -/
def signedNumber : Reader Node := do
  let start ← get
  match ← rest with
  | sign :: digit :: _ =>
    if (sign = '-' || sign = '+') && digit.isDigit then
      skip 1
      let operand ← number
      nodeFrom start "unary" [operand.as "operand"]
    else failure
  | _ => failure

/-! ### Quoted text -/

/-- How quoted text is read. It goes on to the end of the text when no quote closes it, and a quote
that opens with a bracket nests. -/
structure Quoting where
  opener : Option Char := none
  closer : Option Char
  interpolates : Bool
  escapes : Bool

/-- The quoting of a percent literal that opens with a sign. -/
def Quoting.ofSign (sign : Char) (interpolates escapes : Bool) : Quoting :=
  let pairs := [('(', ')'), ('[', ']'), ('\x7b', '\x7d'), ('<', '>')]
  match pairs.find? fun pair ↦ pair.1 = sign with
  | some (opener, closer) => ⟨some opener, some closer, interpolates, escapes⟩
  | none => ⟨none, some sign, interpolates, escapes⟩

/-- The length of the escape that a text begins with, its backslash counted. -/
def escapeLength (text : List Char) : Nat :=
  match text with
  | '\\' :: 'u' :: '\x7b' :: more => 3 + (more.takeWhile (· ≠ '\x7d')).length + 1
  | '\\' :: 'u' :: more => 2 + ((more.take 4).takeWhile Char.isAlphanum).length
  | '\\' :: 'x' :: more => 2 + ((more.take 2).takeWhile Char.isAlphanum).length
  | '\\' :: c :: more =>
    if c.isDigit then 1 + ((c :: more).take 3 |>.takeWhile Char.isDigit).length
    else 2 + (more.takeWhile fun d ↦ 0x80 ≤ c.toNat && 0x80 ≤ d.toNat && d.toNat < 0xc0).length
  | _ => 1

/-- The length of the plain content that a text begins with inside quotes that are open `depth`
times within each other, and how often they are open after it. The quote that ends the text is no
content. -/
def contentLength (q : Quoting) (depth : Nat) : List Char → Nat × Nat
  | [] => (0, depth)
  | '\\' :: _ :: more =>
    if q.escapes then (0, depth)
    else
      let (n, depth) := contentLength q depth more
      (n + 2, depth)
  | c :: more =>
    if c = '\\' && q.escapes then (0, depth)
    else if q.closer = some c then
      match depth with
      | 0 => (0, 0)
      | depth + 1 =>
        let (n, depth) := contentLength q depth more
        (n + 1, depth)
    else if c = '#' && q.interpolates && more.head?.any (fun d ↦ d = '\x7b' || d = '@' || d = '$')
    then (0, depth)
    else
      let (n, depth) := contentLength q (if q.opener = some c then depth + 1 else depth) more
      (n + 1, depth)

/-- The name of a global variable that a text begins with. -/
def globalLength (text : List Char) : Nat :=
  match text with
  | '$' :: more =>
    let word := more.takeWhile isWordChar
    if word ≠ [] then 1 + word.length
    else match more with
      | '-' :: c :: _ => if isWordChar c then 3 else 2
      | c :: _ => if goesOn [c] then 2 else 0
      | [] => 0
  | _ => 0

/-- The name of a variable that belongs to an object, a class or the program. -/
def sigilVariable : Reader Node := do
  let text ← rest
  let named (signs : Nat) : Nat :=
    let word := wordOf (text.drop signs)
    if word = [] then 0 else signs + word.length
  let (kind, length) := match text with
    | '@' :: '@' :: _ => ("class_variable", named 2)
    | '@' :: _ => ("instance_variable", named 1)
    | _ => ("global_variable", globalLength text)
  if length = 0 then failure else leaf kind length

/-- An interpolation: statements in braces, or a variable with its sign. -/
def interpolation (p : Phrases) : Reader Node := do
  let start ← get
  expect "#"
  if ← accept "\x7b" then
    let statements ← within true false p.statements
    skipLines
    expect "\x7d"
    nodeFrom start "interpolation" statements
  else
    let named ← sigilVariable
    nodeFrom start "interpolation" [named]

/-- One part of a quoted text, and how often its quotes are open after it; nothing at the quote that
ends it. -/
def quotedPart (p : Phrases) (q : Quoting) (depth : Nat) : Reader (Option (Node × Nat)) := do
  let text ← rest
  let (length, after) := contentLength q depth text
  if 0 < length then
    return some (← leaf "string_content" length, after)
  match text with
  | '\\' :: _ => return some (← leaf "escape_sequence" (escapeLength text), depth)
  | '#' :: _ =>
    if q.closer = some '#' then return none
    match ← attempt (interpolation p) with
    | some part => return some (part, depth)
    | none =>
      if (text.drop 1).head? = some '\x7b' then failure
      return some (← leaf "string_content" 1, depth)
  | _ => return none

/-- The parts of a quoted text up to and with the quote that closes it. -/
def quotedParts (p : Phrases) (q : Quoting) : Reader (List Node) := do
  let step (state : List Node × Nat) : Reader (Option (List Node × Nat)) := do
    match ← quotedPart p q state.2 with
    | some (part, depth) => return some (part :: state.1, depth)
    | none => return none
  let (parts, _) ← extended step ([], 0)
  expect (String.ofList q.closer.toList)
  return parts.reverse

/-- A quoted text of a kind, whose opening signs are `signs` characters. -/
def quotedNode (p : Phrases) (kind : String) (signs : Nat) (q : Quoting) : Reader Node := do
  let start ← get
  skip signs
  let parts ← quotedParts p q
  nodeFrom start kind parts

/-- A percent literal. -/
def percentLiteral (p : Phrases) : Reader Node := do
  let ofKind (kind : String) (signs : Nat) (sign : Char) (interpolates escapes : Bool) :
      Reader Node :=
    quotedNode p kind signs (Quoting.ofSign sign interpolates escapes)
  match ← rest with
  | '%' :: letter :: sign :: _ =>
    match letter with
    | 'w' => ofKind "string_array" 3 sign false false
    | 'W' => ofKind "string_array" 3 sign true true
    | 'i' => ofKind "symbol_array" 3 sign false false
    | 'I' => ofKind "symbol_array" 3 sign true true
    | 'q' => ofKind "string" 3 sign false false
    | 'Q' => ofKind "string" 3 sign true true
    | 'x' => ofKind "subshell" 3 sign true true
    | 's' => ofKind "delimited_symbol" 3 sign false false
    | 'r' => do
      let start ← get
      let regex ← ofKind "regex" 3 sign true true
      modify (Cursor.skipWhile Char.isAlpha)
      nodeFrom start "regex" regex.children
    | _ => ofKind "string" 2 letter true true
  | _ => failure

/-- A string between single or double quotes, or a percent literal that is a string. -/
def string (p : Phrases) : Reader Node := do
  match ← rest with
  | '"' :: _ => quotedNode p "string" 1 ⟨none, some '"', true, true⟩
  | '\'' :: _ => quotedNode p "string" 1 ⟨none, some '\'', false, false⟩
  | '%' :: _ => percentLiteral p
  | _ => failure

/-- Whether a text begins with a string that can be chained to another. -/
def beginsString (text : List Char) : Bool :=
  text.head?.any fun c ↦ c = '"' || c = '\''

/-- A string, or several that stand next to each other. -/
def strings (p : Phrases) : Reader Node := do
  let start ← get
  let first ← string p
  let next : Reader (Option Node) := do
    let before ← get
    skipBlanks
    if beginsString (← rest) then return some (← string p)
    set before
    return none
  match ← repeated next with
  | [] => return first
  | more => nodeFrom start "chained_string" (first :: more)

/-- A regular expression between slashes, with its flags. -/
def regex (p : Phrases) : Reader Node := do
  let start ← get
  let body ← quotedNode p "regex" 1 ⟨none, some '/', true, true⟩
  modify (Cursor.skipWhile Char.isAlpha)
  nodeFrom start "regex" body.children

/-- The length of the symbol whose colon a text begins with, when it is not quoted. -/
def symbolLength (text : List Char) : Nat :=
  let name := text.drop 1
  match name with
  | '@' :: '@' :: _ => 3 + (wordOf (name.drop 2)).length
  | '@' :: _ => 2 + (wordOf (name.drop 1)).length
  | '$' :: _ => 1 + globalLength name
  | _ =>
    let word := methodWordOf name
    if word ≠ [] then
      let after := name.drop word.length
      let setter := word.getLast?.any isWordChar && assigns after
      1 + word.length + (if setter then 1 else 0)
    else match operatorName? name with
      | some operator => 1 + operator.length
      | none => 0

/-- A symbol. -/
def symbol (p : Phrases) : Reader Node := do
  match ← rest with
  | ':' :: '"' :: _ => quotedNode p "delimited_symbol" 2 ⟨none, some '"', true, true⟩
  | ':' :: '\'' :: _ => quotedNode p "delimited_symbol" 2 ⟨none, some '\'', false, false⟩
  | text =>
    let length := symbolLength text
    if length = 0 then failure else leaf "simple_symbol" length

/-- A character that a question mark makes a literal. -/
def charLiteral : Reader Node := do
  let text ← rest
  if !isCharLiteral text then failure
  match text.drop 1 with
  | '\\' :: _ => leaf "character" (1 + escapeLength (text.drop 1))
  | c :: more =>
    let tail := (more.takeWhile fun d ↦ 0xc0 ≤ c.toNat && 0x80 ≤ d.toNat && d.toNat < 0xc0).length
    leaf "character" (2 + tail)
  | [] => failure

/-- The sign that opens a heredoc. Its body is passed at the end of the line. -/
def heredoc : Reader Node := do
  let start ← get
  expect "<<"
  let indented ← do
    if ← accept "~" then pure true else accept "-"
  let text ← rest
  let quote := text.head?.filter fun c ↦ c = '"' || c = '\'' || c = '\x60'
  let word := match quote with
    | some quote => (text.drop 1).takeWhile (· ≠ quote)
    | none => wordOf text
  if word = [] then failure
  skip (if quote.isSome then word.length + 2 else word.length)
  modify fun c ↦ { c with heredocs := c.heredocs ++ [⟨word, indented, quote ≠ some '\''⟩] }
  nodeFrom start "heredoc_beginning" []

/-- The node of the body of a heredoc. It starts at the line break before it. -/
def HeredocBody.node (p : Phrases) (body : HeredocBody) : Node :=
  let start : Cursor := { rest := body.text, offset := body.start, row := body.row }
  let parts := (quotedParts p ⟨none, none, body.interpolates, body.interpolates⟩).run start
  { kind := "heredoc_body", start := body.start - 1, stop := body.start + body.text.length
    row := body.row - 1, children := (parts.map Prod.fst).getD [] }

/-- The nodes of the bodies of heredocs that were passed since they were last asked for. -/
def heredocBodies (p : Phrases) : Reader (List Node) := do
  return (← takeBodies).map (HeredocBody.node p)

end CallBinding.Grammar
