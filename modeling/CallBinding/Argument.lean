/-!
What binding looks at in one argument of a call. The facts are independent of each other: a caller
may state any combination of them. Its text and its labels may have to be read first, which is done
when binding asks for them (`AskedArgument`).
-/

set_option autoImplicit false
set_option relaxedAutoImplicit false

namespace CallBinding

/-- The facts that decide whether an argument can stand for the keywords of a call. -/
structure ArgumentFacts where
  source : String := ""
  isHash : Bool := false
  isLiteral : Bool := false
  labels : List String := []
  hasSplat : Bool := false
  deriving DecidableEq

/-- An argument whose text and labels are obtained by actions. -/
structure AskedArgument (m : Type → Type) where
  source : m String
  isHash : Bool
  isLiteral : Bool
  labels : m (List String)
  hasSplat : Bool

/-- An argument that states its facts. -/
def ArgumentFacts.asked {m : Type → Type} [Monad m] (a : ArgumentFacts) : AskedArgument m where
  source := pure a.source
  isHash := a.isHash
  isLiteral := a.isLiteral
  labels := pure a.labels
  hasSplat := a.hasSplat

end CallBinding
