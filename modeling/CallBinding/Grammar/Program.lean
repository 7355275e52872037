import CallBinding.Grammar.Statement

/-!
Reading of whole programs. Every phrase inside another begins after the first character of the
other, so no phrase is nested deeper than the text is long, and `Phrases.upTo` that length finds
every phrase that the grammar has. A word that closes nothing is a name, as far as the outermost
statements go. Where no statement can be read the program is broken, and the statements before that
place are all that is kept.
-/

set_option autoImplicit false
set_option relaxedAutoImplicit false

namespace CallBinding.Grammar

/-- A statement of a program: one of the grammar, a word that closes nothing, or what stands after
the word that ends all programs. -/
def outerStatement (p : Phrases) : Reader Node := do
  let text ← rest
  let word := methodWordOf text
  if String.ofList word = "__END__" then
    skip word.length
    leaf "uninterpreted" (← rest).length
  else if closingWords.contains (String.ofList word) then leaf "identifier" word.length
  else statement p

/-- The nodes of a program. -/
def programNodes (p : Phrases) : Reader (List Node) := do
  let next : Reader (Option (List Node)) := do
    match ← attempt (nextStatement p List.isEmpty noteFault (outerStatement p)) with
    | some nodes => return nodes
    | none =>
      noteFault
      return none
  let nodes ← repeated next
  skipLines
  return nodes.flatten

/-- The bytes that mark a text as UTF-8, as characters. -/
def byteOrderMark : List Char :=
  [0xef, 0xbb, 0xbf].map Char.ofNat

/-- The place where a program begins: after the mark of its encoding and the comment of whole lines
that it may begin with. -/
def Cursor.ofText (text : List Char) : Cursor :=
  let marked := byteOrderMark.isPrefixOf text
  let start : Cursor := { rest := text }
  let start := if marked then start.skip byteOrderMark.length else start
  start.passBlockComment

/-- The tree of a program text. -/
def read (bytes : List UInt8) : Tree :=
  let text := bytes.map fun b ↦ Char.ofNat b.toNat
  match (programNodes (Phrases.upTo (text.length + 1))).run (Cursor.ofText text) with
  | some (nodes, c) =>
    { root := { kind := "program", stop := c.offset, children := nodes }, broken := c.faulty }
  | none => { root := { kind := "program" }, broken := true }

end CallBinding.Grammar
