import CallBinding.Grammar.Lexeme

/-!
The phrases of Ruby that occur inside other phrases. A production is a function of the readers for
the phrases inside it, so that no production is recursive by itself; the grammar is tied together
once, at a depth of nesting that the length of the text bounds.
-/

set_option autoImplicit false
set_option relaxedAutoImplicit false

namespace CallBinding.Grammar

/-- Where an operand stands. As a statement it may assign to a list, as a statement or an argument
it may be a call without parentheses, and elsewhere it is plain. -/
inductive Position
  | statement
  | argument
  | plain
  deriving DecidableEq

/-- The readers of the phrases that occur inside other phrases. -/
structure Phrases where
  /-- Statements up to whatever closes them. -/
  statements : Reader (List Node)
  /-- A statement with its modifiers. -/
  statement : Reader Node
  /-- Operands joined by `and` and `or`. -/
  expression : Position → Reader Node
  /-- An operand in which every operator binds at least so strongly. -/
  operand : Position → Nat → Reader Node
  /-- What can be assigned to. -/
  target : Reader Node
  /-- What a value is matched against. -/
  pattern : Reader Node
  /-- A parameter whose default has operators of at least that strength. -/
  parameter : Nat → Reader Node

/-- Readers that find nothing. -/
def Phrases.none : Phrases :=
  ⟨failure, failure, fun _ ↦ failure, fun _ _ ↦ failure, failure, failure, fun _ ↦ failure⟩

end CallBinding.Grammar
