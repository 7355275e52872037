import CallBinding.Source

/-!
Which identifiers are calls. A name that stands alone as a statement or as an argument is a call
without arguments, unless a parameter or an earlier assignment of an enclosing scope makes it a
local variable. Scopes end at the nearest method, class or module; the blocks on the way there see
the variables around them.
-/

set_option autoImplicit false
set_option relaxedAutoImplicit false

namespace CallBinding

/-- Kinds under which a lone identifier is a statement or an argument. -/
def standingKinds : List String :=
  ["program", "body_statement", "block_body", "then", "else", "begin", "ensure",
    "parenthesized_statements", "argument_list", "return"]

/-- Kinds at which the scope of a local variable ends. -/
def scopeKinds : List String :=
  ["program", "method", "singleton_method", "class", "singleton_class", "module"]

/-- Kinds that have parameters of their own and see the variables around them. -/
def blockKinds : List String :=
  ["block", "do_block", "lambda"]

def assignmentKinds : List String :=
  ["assignment", "operator_assignment"]

namespace Node

def isScope (n : Node) : Bool :=
  scopeKinds.contains n.kind

def isBlock (n : Node) : Bool :=
  blockKinds.contains n.kind

def isAssignment (n : Node) : Bool :=
  assignmentKinds.contains n.kind

/-- Whether a node that is found is met by a search through the nodes on a stack and the named nodes
below them. A node that is skipped is passed over with all that stands below it. -/
def search (skips found : Node → Bool) : List Node → Bool
  | [] => false
  | n :: stack =>
    if skips n then search skips found stack
    else found n || search skips found (n.namedChildren.reverse ++ stack)
termination_by stack => sizeOf stack
decreasing_by
  · rw [List.cons.sizeOf_spec]
    omega
  · have hbelow := sizeOf_namedChildren_lt n
    have happend := sizeOf_append n.namedChildren.reverse stack
    rw [sizeOf_reverse] at happend
    rw [List.cons.sizeOf_spec]
    omega

/-- Whether an identifier with a text stands at or below a node. -/
def mentions (src : Source) (name : String) (n : Node) : Bool :=
  search (fun _ ↦ false) (fun m ↦ m.kind = "identifier" && src.text m = name) [n]

/-- Whether the child in a role mentions a name. -/
def mentionsIn (src : Source) (role name : String) (n : Node) : Bool :=
  (n.child? role).any (mentions src name)

/-- Whether an assignment to a name stands below a node and is reached without entering another
scope and without going past `limit`. -/
def assigns (src : Source) (name : String) (limit : Nat) (n : Node) : Bool :=
  search (fun m ↦ limit ≤ m.start || m.isScope)
    (fun m ↦ m.isAssignment && m.mentionsIn src "left" name) n.namedChildren.reverse

/-- Whether a scope or a block makes a name a local variable before `limit`: by a parameter, or by
an assignment that starts earlier. -/
def declares (src : Source) (name : String) (limit : Nat) (n : Node) : Bool :=
  n.mentionsIn src "parameters" name || n.assigns src name limit

/-- The nodes that such a search meets, in its order. -/
def met (skips : Node → Bool) : List Node → List Node
  | [] => []
  | n :: stack =>
    if skips n then met skips stack
    else n :: met skips (n.namedChildren.reverse ++ stack)
termination_by stack => sizeOf stack
decreasing_by
  · rw [List.cons.sizeOf_spec]
    omega
  · have hbelow := sizeOf_namedChildren_lt n
    have happend := sizeOf_append n.namedChildren.reverse stack
    rw [sizeOf_reverse] at happend
    rw [List.cons.sizeOf_spec]
    omega

end Node

/-- The scopes and blocks among some ancestors, up to the nearest scope. -/
def enclosing : List Node → List Node
  | [] => []
  | n :: above =>
    if n.isScope then [n]
    else if n.isBlock then n :: enclosing above
    else enclosing above

namespace Occurrence

/-- Whether a node stands as a statement, as an argument, or as the whole right side of an
assignment. -/
def stands (o : Occurrence) : Bool :=
  match o.parent? with
  | none => false
  | some parent =>
    if parent.kind = "assignment" then
      (parent.child? "right").any fun right ↦ right.start = o.node.start
    else standingKinds.contains parent.kind

/-- Whether an identifier is a call without arguments. -/
def isBareCall (src : Source) (o : Occurrence) : Bool :=
  o.node.kind = "identifier" && o.stands
    && !(enclosing o.ancestors).any fun n ↦ n.declares src (src.text o.node) o.node.start

end Occurrence

namespace Encoded

/-- Whether an identifier with a text stands at or below a node. All identifiers there are read. -/
def mentions (e : Encoded) (name : String) (n : Node) : Except Failure Bool := do
  let identifiers := (Node.met (fun _ ↦ false) [n]).filter fun m ↦ m.kind = "identifier"
  return (← identifiers.mapM e.text).contains name

/-- Whether the child in a role mentions a name. -/
def mentionsIn (e : Encoded) (role name : String) (n : Node) : Except Failure Bool :=
  match n.child? role with
  | none => return false
  | some child => e.mentions name child

/-- Whether an assignment to a name stands below a node and is reached without entering another
scope and without going past `limit`. Nothing is read behind the first such assignment. -/
def assigns (e : Encoded) (name : String) (limit : Nat) (n : Node) : Except Failure Bool :=
  (Node.met (fun m ↦ limit ≤ m.start || m.isScope) n.namedChildren.reverse).anyM fun m ↦
    if m.isAssignment then e.mentionsIn "left" name m else return false

/-- Whether a scope or a block makes a name a local variable before `limit`. -/
def declares (e : Encoded) (name : String) (limit : Nat) (n : Node) : Except Failure Bool := do
  if ← e.mentionsIn "parameters" name n then return true
  e.assigns name limit n

/-- Whether an identifier is a call without arguments. -/
def isBareCall (e : Encoded) (o : Occurrence) : Except Failure Bool :=
  if o.node.kind = "identifier" && o.stands then do
    let name ← e.text o.node
    return !(← (enclosing o.ancestors).anyM (e.declares name o.node.start))
  else return false

end Encoded

end CallBinding
