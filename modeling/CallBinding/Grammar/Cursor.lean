import CallBinding.Tree

/-!
Places in a Ruby text, and readers that move over them. A text is a list of bytes, each held as the
character of its value, so that a byte above the ASCII range is a character like any other and an
offset counts bytes. Blanks separate words; comments are blanks; a line break is a blank unless it
may end a statement.
-/

set_option autoImplicit false
set_option relaxedAutoImplicit false

namespace CallBinding.Grammar

/-- A heredoc that has been opened on the line being read: the word that ends it, whether blanks may
stand before that word, and whether its body interpolates. -/
structure Heredoc where
  word : List Char
  indented : Bool
  interpolates : Bool

/-- The body of a heredoc that was passed, and where it stands. -/
structure HeredocBody where
  text : List Char
  start : Nat
  row : Nat
  interpolates : Bool

/-- A place in a text. `breaks` says that a line break may end a statement here, and `doTaken` that
a `do` here belongs to a phrase further out. `bodies` holds the bodies of heredocs that were passed
on the way, and `faulty` says that the text broke the grammar in a way that was mended. -/
structure Cursor where
  rest : List Char
  offset : Nat := 0
  row : Nat := 0
  breaks : Bool := true
  doTaken : Bool := false
  heredocs : List Heredoc := []
  bodies : List HeredocBody := []
  faulty : Bool := false

/-- A reader moves the cursor and gives a value, or finds no phrase of its kind. -/
abbrev Reader := StateT Cursor Option

namespace Cursor

/-- The place after the next character. -/
def step (c : Cursor) : Cursor :=
  match c.rest with
  | [] => c
  | ch :: rest =>
    { c with rest := rest, offset := c.offset + 1, row := if ch = '\n' then c.row + 1 else c.row }

/-- The place after the next `n` characters. -/
def skip : Nat → Cursor → Cursor
  | 0, c => c
  | n + 1, c => skip n c.step

/-- The place after the characters that satisfy a test. -/
def skipWhile (test : Char → Bool) (c : Cursor) : Cursor :=
  c.skip (c.rest.takeWhile test).length

/-- The place at the end of the line. -/
def toLineEnd (c : Cursor) : Cursor :=
  c.skipWhile (· ≠ '\n')

end Cursor

/-- Blanks inside a line. -/
def isSpace (c : Char) : Bool :=
  c = ' ' || c = '\t' || c = '\r' || c = '\x0b' || c = '\x0c'

/-- Letters and the low line, and every byte above the ASCII range. -/
def isWordStart (c : Char) : Bool :=
  c.isAlpha || c = '_' || 0x80 ≤ c.toNat

def isWordChar (c : Char) : Bool :=
  isWordStart c || c.isDigit

/-- Whether a text begins with a word, and the word ends there. -/
def startsWithWord (word : String) (text : List Char) : Bool :=
  word.toList.isPrefixOf text && !(text.drop word.length).head?.any isWordChar

namespace Cursor

/-- The place after the body of a heredoc, at the start of whose lines the cursor stands. -/
def skipHeredoc (h : Heredoc) : Nat → Cursor → Cursor
  | 0, c => c
  | limit + 1, c =>
    let line := c.rest.takeWhile (· ≠ '\n')
    let last := if h.indented then line.dropWhile isSpace else line
    if c.rest = [] || last.filter (· ≠ '\r') = h.word then c.toLineEnd
    else skipHeredoc h limit c.toLineEnd.step

/-- The place after the bodies of the heredocs that were opened on the line before. -/
def passHeredocs (c : Cursor) : Cursor :=
  c.heredocs.foldl (fun c h ↦
    let after := c.skipHeredoc h (c.rest.length + 1)
    let body : HeredocBody :=
      ⟨c.rest.take (after.offset - c.offset), c.offset, c.row, h.interpolates⟩
    { after with bodies := after.bodies ++ [body] }) { c with heredocs := [] }

/-- The place after the lines of a comment that begins here, up to the line that ends it. -/
def skipBlockComment : Nat → Cursor → Cursor
  | 0, c => c
  | limit + 1, c =>
    if c.rest = [] || startsWithWord "=end" c.rest then c.toLineEnd
    else skipBlockComment limit c.toLineEnd.step

/-- The place after the comment of whole lines that may begin at the start of a line. -/
def passBlockComment (c : Cursor) : Cursor :=
  if startsWithWord "=begin" c.rest then c.skipBlockComment (c.rest.length + 1) else c

/-- The place after a line break and what belongs to it. -/
def passBreak (c : Cursor) : Cursor :=
  c.step.passHeredocs.passBlockComment

/-- The place after blanks and comments, of which at most `limit` are passed. -/
def passBlanks : Nat → Cursor → Cursor
  | 0, c => c
  | limit + 1, c =>
    match c.rest with
    | '\\' :: '\n' :: _ => passBlanks limit (c.skip 2)
    | '\\' :: '\r' :: '\n' :: _ => passBlanks limit (c.skip 3)
    | '#' :: _ => passBlanks limit c.toLineEnd
    | '\n' :: _ => if c.breaks then c else passBlanks limit c.passBreak
    | ch :: _ => if isSpace ch then passBlanks limit c.step else c
    | [] => c

/-- The place after blanks and comments. -/
def blanks (c : Cursor) : Cursor :=
  c.passBlanks (c.rest.length + 1)

/-- The place after blanks, comments and line breaks. -/
def lines (c : Cursor) : Cursor :=
  { ({ c with breaks := false } : Cursor).blanks with breaks := c.breaks }

end Cursor

/-! ### Readers -/

variable {α : Type}

/-- The text that is still to be read. -/
def rest : Reader (List Char) := do
  return (← get).rest

def skip (n : Nat) : Reader Unit :=
  modify (Cursor.skip n)

def skipBlanks : Reader Unit :=
  modify Cursor.blanks

def skipLines : Reader Unit :=
  modify Cursor.lines

/-- Whether the text goes on with a sign. -/
def sees (sign : String) : Reader Bool := do
  return sign.toList.isPrefixOf (← rest)

/-- Whether the text goes on with a whole word. -/
def seesWord (word : String) : Reader Bool := do
  return startsWithWord word (← rest)

/-- Reads a sign if it is there. -/
def accept (sign : String) : Reader Bool := do
  if ← sees sign then
    skip sign.length
    return true
  return false

/-- Reads a whole word if it is there. -/
def acceptWord (word : String) : Reader Bool := do
  if ← seesWord word then
    skip word.length
    return true
  return false

/-- Reads a sign that has to be there. -/
def expect (sign : String) : Reader Unit := do
  if ← accept sign then return () else failure

/-- Reads a whole word that has to be there. -/
def expectWord (word : String) : Reader Unit := do
  if ← acceptWord word then return () else failure

/-- Reads a phrase if it is there, and otherwise stays where it is. -/
def attempt (r : Reader α) : Reader (Option α) := fun c ↦
  match r c with
  | some (a, c) => some (some a, c)
  | none => some (none, c)

/-- Reads with line breaks and `do` as given, and leaves both as they were. -/
def within (breaks doTaken : Bool) (r : Reader α) : Reader α := do
  let before ← get
  set { before with breaks := breaks, doTaken := doTaken }
  let a ← r
  modify fun c ↦ { c with breaks := before.breaks, doTaken := before.doTaken }
  return a

/-- Repeats a step until it gives nothing, at most `limit` times. -/
def repeatUpTo (step : Reader (Option α)) : Nat → Reader (List α)
  | 0 => return []
  | limit + 1 => do
    match ← step with
    | some a => return a :: (← repeatUpTo step limit)
    | none => return []

/-- Repeats a step until it gives nothing. -/
def repeated (step : Reader (Option α)) : Reader (List α) := do
  repeatUpTo step ((← rest).length + 1)

/-- Extends a value by a step until the step gives nothing, at most `limit` times. -/
def extendUpTo (step : α → Reader (Option α)) : Nat → α → Reader α
  | 0, a => return a
  | limit + 1, a => do
    match ← step a with
    | some b => extendUpTo step limit b
    | none => return a

/-- Extends a value by a step until the step gives nothing. -/
def extended (step : α → Reader (Option α)) (a : α) : Reader α := do
  extendUpTo step ((← rest).length + 1) a

/-- Phrases separated by commas, at least one. A line may end after a comma. -/
def separated (item : Reader α) : Reader (List α) := do
  let first ← item
  let next : Reader (Option α) := do
    let before ← get
    skipBlanks
    if ← accept "," then
      skipLines
      return some (← item)
    set before
    return none
  return first :: (← repeated next)

/-- A node from a place up to the cursor. -/
def nodeFrom (start : Cursor) (kind : String) (children : List Node) : Reader Node := do
  return {
    kind := kind, start := start.offset, stop := (← get).offset, row := start.row
    children := children }

/-- The node of the next `n` characters. -/
def leaf (kind : String) (n : Nat) : Reader Node := do
  let start ← get
  skip n
  nodeFrom start kind []

/-- The bodies of heredocs that were passed since they were last asked for. -/
def takeBodies : Reader (List HeredocBody) := do
  let c ← get
  set { c with bodies := [] }
  return c.bodies

/-- Marks the text as faulty. -/
def noteFault : Reader Unit :=
  modify fun c ↦ { c with faulty := true }

end CallBinding.Grammar

namespace CallBinding.Node

/-- The node in a role of its parent. -/
def as (n : Node) (role : String) : Node :=
  { n with role := some role }

end CallBinding.Node
