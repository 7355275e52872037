/-!
Syntax trees of program text. A node knows its kind, the role it plays in its parent, and the bytes
it spans; its parent is known only to whoever came down to it, so a place in a tree is a node with
its ancestors (`Occurrence`). The occurrences of a tree are listed by a walk over its named nodes
that keeps the nodes to visit on a stack (`Occurrence.walk`).
-/

set_option autoImplicit false
set_option relaxedAutoImplicit false

namespace CallBinding

/-- A node of a syntax tree. The span is half open and counts bytes; `row` counts the line breaks
before it. A node that is not named is a token of the punctuation. -/
structure Node where
  kind : String
  role : Option String := none
  named : Bool := true
  start : Nat := 0
  stop : Nat := 0
  row : Nat := 0
  children : List Node := []

/-- What reading a text gives: a tree, and whether the text breaks the grammar. -/
structure Tree where
  root : Node
  broken : Bool := false

/-- A reader of program text. -/
abbrev Parse := List UInt8 → Tree

/-- A node together with its ancestors, the nearest first. -/
structure Occurrence where
  node : Node
  ancestors : List Node := []

namespace Node

def namedChildren (n : Node) : List Node :=
  n.children.filter Node.named

/-- The first child that plays a role. -/
def child? (n : Node) (role : String) : Option Node :=
  n.children.find? fun c ↦ c.role = some role

theorem sizeOf_append (a b : List Node) : sizeOf (a ++ b) + 1 = sizeOf a + sizeOf b := by
  induction a with
  | nil =>
    simp only [List.nil_append, List.nil.sizeOf_spec]
    omega
  | cons n rest ih =>
    simp only [List.cons_append, List.cons.sizeOf_spec]
    omega

theorem sizeOf_reverse (nodes : List Node) : sizeOf nodes.reverse = sizeOf nodes := by
  induction nodes with
  | nil => rfl
  | cons n rest ih =>
    have happend := sizeOf_append rest.reverse [n]
    rw [List.reverse_cons]
    simp only [List.cons.sizeOf_spec, List.nil.sizeOf_spec] at happend ⊢
    omega

theorem sizeOf_filter_le (keep : Node → Bool) (nodes : List Node) :
    sizeOf (nodes.filter keep) ≤ sizeOf nodes := by
  induction nodes with
  | nil => exact Nat.le_refl _
  | cons n rest ih =>
    rw [List.filter_cons]
    split
    · simp only [List.cons.sizeOf_spec]
      omega
    · simp only [List.cons.sizeOf_spec]
      omega

theorem sizeOf_namedChildren_lt (n : Node) : sizeOf n.namedChildren < sizeOf n := by
  have hkept := sizeOf_filter_le Node.named n.children
  have hnode : sizeOf n.children < sizeOf n := by
    cases n
    simp only [Node.mk.sizeOf_spec]
    omega
  unfold namedChildren
  omega

end Node

namespace Occurrence

def parent? (o : Occurrence) : Option Node :=
  o.ancestors.head?

/-- The named nodes right below an occurrence. -/
def children (o : Occurrence) : List Occurrence :=
  o.node.namedChildren.map fun c ↦ ⟨c, o.node :: o.ancestors⟩

/-- Visits the top of a stack, and puts the nodes right below it on the stack in its place. -/
def walk : List Occurrence → List Occurrence
  | [] => []
  | o :: stack => o :: walk (o.children ++ stack)
termination_by stack => sizeOf (stack.map Occurrence.node)
decreasing_by
  have hbelow := Node.sizeOf_namedChildren_lt o.node
  have happend := Node.sizeOf_append o.node.namedChildren (stack.map Occurrence.node)
  have hnodes : o.children.map Occurrence.node = o.node.namedChildren := by
    rw [children, List.map_map]
    exact List.map_id' _
  rw [List.map_append, hnodes, List.map_cons, List.cons.sizeOf_spec]
  omega

/-- The occurrence that a path of child positions leads to. -/
def descend? (o : Occurrence) : List Nat → Option Occurrence
  | [] => some o
  | i :: path =>
    match o.node.children[i]? with
    | some c => (Occurrence.mk c (o.node :: o.ancestors)).descend? path
    | none => none

end Occurrence

/-- The occurrences of all named nodes of a tree, in the order in which a walk from the root visits
them. -/
def Tree.occurrences (t : Tree) : List Occurrence :=
  Occurrence.walk [⟨t.root, []⟩]

end CallBinding
