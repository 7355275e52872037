import CallBinding.Argument
import CallBinding.HashKey
import CallBinding.Scope
import CallBinding.Text.Quoted

/-!
The calls of a program text. `Node.arguments` groups what stands between the parentheses of a call:
pairs and double splats form one hash that is passed last, wherever they stand, and block arguments
and comments are passed over. `Tree.callSites` lists the calls in the order of the text.
-/

set_option autoImplicit false
set_option relaxedAutoImplicit false

namespace CallBinding

/-- Kinds that are literals whatever they hold. -/
def literalKinds : List String :=
  ["integer", "float", "rational", "complex", "string", "chained_string", "character",
    "heredoc_beginning", "subshell", "simple_symbol", "delimited_symbol", "regex", "array",
    "string_array", "symbol_array", "hash", "range", "true", "false", "nil"]

/-- Kinds that stay literals under a sign. -/
def numericKinds : List String :=
  ["integer", "float", "rational", "complex"]

/-- Kinds that bare keyword arguments are made of. -/
def keywordKinds : List String :=
  ["pair", "hash_splat_argument"]

/-- Kinds in an argument list that are not passed to the method. -/
def passedOverKinds : List String :=
  ["block_argument", "comment"]

/-- Whether a node is a literal, or a number under a sign. -/
def Node.isLiteral (n : Node) : Bool :=
  literalKinds.contains n.kind
    || n.kind = "unary" && (n.child? "operand").any fun m ↦ numericKinds.contains m.kind

/-- An argument of a call: one node, or the nodes of the hash that bare keywords form. -/
structure Argument where
  first : Node
  more : List Node := []
  implicitHash : Bool := false

namespace Argument

/-- An argument made of some nodes, of which there is at least one. -/
def ofNodes? (implicitHash : Bool) : List Node → Option Argument
  | [] => none
  | first :: more => some ⟨first, more, implicitHash⟩

def nodes (a : Argument) : List Node :=
  a.first :: a.more

def kind (a : Argument) : String :=
  if a.implicitHash then "hash" else a.first.kind

/-- The text from the start of the first node to the end of the last. -/
def text (src : Source) (a : Argument) : String :=
  src.span a.first.start ((a.more.getLast?.getD a.first).stop)

def isHash (a : Argument) : Bool :=
  a.kind = "hash"

def isLiteral (a : Argument) : Bool :=
  a.implicitHash || a.first.isLiteral

/-- The entries of an argument that is a hash. -/
def entries (a : Argument) : List Node :=
  if a.implicitHash then a.nodes
  else if a.isHash then a.first.namedChildren
  else []

/-- The labels of the symbol keys in a hash. -/
def labels (src : Source) (a : Argument) : List String :=
  (a.entries.filter fun e ↦ e.kind = "pair").filterMap src.pairLabel?

def hasSplat (a : Argument) : Bool :=
  a.entries.any fun e ↦ e.kind = "hash_splat_argument"

/-- What binding looks at in an argument. -/
def facts (src : Source) (a : Argument) : ArgumentFacts :=
  ⟨a.text src, a.isHash, a.isLiteral, a.labels src, a.hasSplat⟩

/-- What is said when an argument is asked for and no node is given. -/
def emptyMessage : String :=
  "an argument needs at least one node"

/-- An argument with some text as it is shown to a reader of diagnostics. -/
def shown (text : String) : String :=
  "RubyArgument(" ++ Text.quoted text ++ ")"

end Argument

/-- The entries of an argument list that have been read, sorted into arguments of their own and
entries of the hash. -/
structure Grouping where
  positional : List Argument := []
  keywords : List Node := []

/-- Sorts one more entry. -/
def Grouping.add (g : Grouping) (entry : Node) : Grouping :=
  if passedOverKinds.contains entry.kind then g
  else if keywordKinds.contains entry.kind then { g with keywords := g.keywords ++ [entry] }
  else { g with positional := g.positional ++ [⟨entry, [], false⟩] }

/-- The arguments that a grouping comes to: the hash goes last. -/
def Grouping.arguments (g : Grouping) : List Argument :=
  g.positional ++ (Argument.ofNodes? true g.keywords).toList

/-- The arguments among the entries of an argument list. -/
def groupArguments (entries : List Node) : List Argument :=
  (entries.foldl Grouping.add {}).arguments

/-- The arguments of a call. -/
def Node.arguments (call : Node) : List Argument :=
  match call.child? "arguments" with
  | none => []
  | some list => groupArguments list.namedChildren

/-- An argument as it is reported: its kind and the facts that bind it. -/
structure PassedArgument where
  kind : String
  facts : ArgumentFacts
  deriving DecidableEq

/-- A call that is seen in a program text. Lines count from one. -/
structure CallSite where
  name : String
  args : List PassedArgument := []
  line : Nat
  source : String
  deriving DecidableEq

/-- The facts by which the arguments of a call bind. -/
def CallSite.argumentFacts (c : CallSite) : List ArgumentFacts :=
  c.args.map PassedArgument.facts

/-- What is reported of an argument. -/
def Argument.passed (src : Source) (a : Argument) : PassedArgument :=
  ⟨a.kind, a.facts src⟩

/-- The call that a node is, if it is one: an identifier that stands for a call, or a call that
names its method. -/
def Occurrence.callSite? (src : Source) (o : Occurrence) : Option CallSite :=
  if o.node.kind = "identifier" then
    if o.isBareCall src then
      some { name := src.text o.node, line := o.node.row + 1, source := src.text o.node }
    else none
  else if o.node.kind = "call" then
    (o.node.child? "method").map fun method ↦
      { name := src.text method
        args := o.node.arguments.map (Argument.passed src)
        line := o.node.row + 1
        source := src.text o.node }
  else none

/-- A call that is seen in a program text and whose arguments have not been read. -/
structure SeenCall where
  name : String
  args : List Argument := []
  line : Nat
  source : String

/-- A call with its arguments read from a text. -/
def SeenCall.site (src : Source) (c : SeenCall) : CallSite :=
  ⟨c.name, c.args.map (Argument.passed src), c.line, c.source⟩

namespace Encoded

/-- The text from the start of the first node of an argument to the end of the last. -/
def argumentText (e : Encoded) (a : Argument) : Except Failure String :=
  e.span a.first.start ((a.more.getLast?.getD a.first).stop)

/-- The labels of the symbol keys in a hash. -/
def labels (e : Encoded) (a : Argument) : Except Failure (List String) :=
  return (← (a.entries.filter fun n ↦ n.kind = "pair").mapM e.pairLabel?).filterMap id

/-- An argument that is read from the text when it is asked. -/
def asked (e : Encoded) (a : Argument) : AskedArgument (Except Failure) where
  source := e.argumentText a
  isHash := a.isHash
  isLiteral := a.isLiteral
  labels := e.labels a
  hasSplat := a.hasSplat

/-- What is reported of an argument, all of which is read. -/
def passed (e : Encoded) (a : Argument) : Except Failure PassedArgument :=
  return ⟨a.kind, ⟨← e.argumentText a, a.isHash, a.isLiteral, ← e.labels a, a.hasSplat⟩⟩

/-- The call that a node is, if it is one. -/
def seenCall? (e : Encoded) (o : Occurrence) : Except Failure (Option SeenCall) := do
  if o.node.kind = "identifier" then
    if ← e.isBareCall o then
      let text ← e.text o.node
      return some { name := text, line := o.node.row + 1, source := text }
    else return none
  else if o.node.kind = "call" then
    match o.node.child? "method" with
    | none => return none
    | some method =>
      return some {
        name := ← e.text method
        args := o.node.arguments
        line := o.node.row + 1
        source := ← e.text o.node }
  else return none

/-- The calls of a program text, in the order of its tree. -/
def seenCalls (e : Encoded) (t : Tree) : Except Failure (List SeenCall) :=
  return (← t.occurrences.mapM e.seenCall?).filterMap id

/-- The calls of a program text with their arguments, all of which are read. -/
def callSites (e : Encoded) (t : Tree) : Except Failure (List CallSite) := do
  (← e.seenCalls t).mapM fun call ↦
    return ⟨call.name, ← call.args.mapM e.passed, call.line, call.source⟩

end Encoded

/-- The calls of a program text, in the order of its tree. -/
def Tree.callSites (src : Source) (t : Tree) : List CallSite :=
  t.occurrences.filterMap (Occurrence.callSite? src)

end CallBinding
