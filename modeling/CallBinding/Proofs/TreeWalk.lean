import CallBinding.Tree
import Mathlib.Data.List.Basic
import Mathlib.Tactic.SplitIfs

/-!
The walk over a tree. A place in a tree is given by the path of child positions that leads to it
through named nodes (`Occurrence.Reaches`), and one place comes before another in the text when its
path comes first in the lexicographic order, so that a node comes before all that stands below it.
The walk keeps its nodes on a stack; `occurrences_eq_map_located` shows that it visits what the
recursion over the tree lists (`Node.located`), and the list holds every place once
(`mem_located_iff`) and in order (`pairwise_located`).
-/

set_option autoImplicit false
set_option relaxedAutoImplicit false

namespace CallBinding

/-- A path of child positions leads from one occurrence to another, and every step of it to a named
node. -/
inductive Occurrence.Reaches : Occurrence → List Nat → Occurrence → Prop
  | here (o : Occurrence) : Reaches o [] o
  | step {o target : Occurrence} {c : Node} {i : Nat} {path : List Nat}
      (hchild : o.node.children[i]? = some c) (hnamed : c.named = true)
      (hrest : Reaches ⟨c, o.node :: o.ancestors⟩ path target) : Reaches o (i :: path) target

namespace Node

mutual

/-- The places at a node and below it in preorder, each with the path that leads to it. -/
def located (above : List Node) : Node → List (List Nat × Occurrence)
  | n@⟨_, _, _, _, _, _, children⟩ => ([], ⟨n, above⟩) :: locatedAll (n :: above) 0 children

/-- The places at and below the named nodes among some siblings, of which the first is at position
`i`. -/
def locatedAll (above : List Node) (i : Nat) : List Node → List (List Nat × Occurrence)
  | [] => []
  | c :: rest =>
    (if c.named then (c.located above).map fun place ↦ (i :: place.1, place.2) else [])
      ++ locatedAll above (i + 1) rest

end

variable {above : List Node} {i : Nat} {path : List Nat} {o : Occurrence}

theorem located_eq_cons (above : List Node) (n : Node) :
    n.located above = ([], ⟨n, above⟩) :: locatedAll (n :: above) 0 n.children := by
  cases n
  rw [located]

/-! ### The walk lists the places -/

theorem map_snd_locatedAll (above : List Node) (i : Nat) (nodes : List Node) :
    (locatedAll above i nodes).map Prod.snd =
      (nodes.filter Node.named).flatMap fun c ↦ (c.located above).map Prod.snd := by
  induction nodes generalizing i with
  | nil => rw [locatedAll, List.map_nil, List.filter_nil, List.flatMap_nil]
  | cons c rest ih =>
    rw [locatedAll, List.map_append, ih]
    cases hnamed : c.named with
    | false => simp [hnamed]
    | true => simp [hnamed]

theorem map_snd_located (o : Occurrence) : (o.node.located o.ancestors).map Prod.snd =
    o :: o.children.flatMap fun c ↦ (c.node.located c.ancestors).map Prod.snd := by
  rw [located_eq_cons, List.map_cons, map_snd_locatedAll]
  simp only [Occurrence.children, List.flatMap_map, namedChildren]

/-- A walk from a stack lists what stands at and below each of its occurrences, one after the
other. -/
theorem walk_eq_flatMap (stack : List Occurrence) :
    Occurrence.walk stack = stack.flatMap fun o ↦ (o.node.located o.ancestors).map Prod.snd := by
  induction stack using Occurrence.walk.induct with
  | case1 => rw [Occurrence.walk, List.flatMap_nil]
  | case2 o stack ih =>
    rw [Occurrence.walk, ih, List.flatMap_append, List.flatMap_cons, map_snd_located,
      List.cons_append]

/-- The occurrences of a tree are its places without their paths. -/
theorem occurrences_eq_map_located (t : Tree) :
    t.occurrences = (t.root.located []).map Prod.snd := by
  rw [Tree.occurrences, walk_eq_flatMap, List.flatMap_singleton]

/-! ### Every place once -/

theorem mem_locatedAll_iff {nodes : List Node} : (path, o) ∈ locatedAll above i nodes ↔
    ∃ j c rest, path = (i + j) :: rest ∧ nodes[j]? = some c ∧ c.named = true ∧
      (rest, o) ∈ c.located above := by
  induction nodes generalizing i with
  | nil => simp [locatedAll]
  | cons first later ih =>
    rw [locatedAll, List.mem_append, ih]
    constructor
    · rintro (hfirst | ⟨j, c, rest, rfl, hchild, hnamed, hrest⟩)
      · split_ifs at hfirst with hnamed
        · obtain ⟨⟨rest, _⟩, hrest, hplace⟩ := List.mem_map.mp hfirst
          injection hplace with hpath ho
          subst hpath ho
          exact ⟨0, first, rest, rfl, rfl, hnamed, hrest⟩
        · exact absurd hfirst List.not_mem_nil
      · exact ⟨j + 1, c, rest, by rw [Nat.add_right_comm, Nat.add_assoc], hchild, hnamed, hrest⟩
    · rintro ⟨j, c, rest, rfl, hchild, hnamed, hrest⟩
      cases j with
      | zero =>
        injection hchild with hchild
        subst hchild
        refine Or.inl ?_
        rw [if_pos hnamed]
        exact List.mem_map.mpr ⟨(rest, o), hrest, rfl⟩
      | succ j =>
        exact Or.inr ⟨j, c, rest, by rw [Nat.add_right_comm, Nat.add_assoc], hchild, hnamed, hrest⟩

/-- The places of a node are those that a path through named nodes leads to. -/
theorem mem_located_iff {n : Node} : (path, o) ∈ n.located above ↔
    Occurrence.Reaches ⟨n, above⟩ path o := by
  induction path generalizing n above with
  | nil =>
    rw [located_eq_cons, List.mem_cons, mem_locatedAll_iff]
    constructor
    · rintro (hhere | ⟨j, c, rest, hpath, -⟩)
      · injection hhere with _ ho
        rw [ho]
        exact .here _
      · exact absurd hpath nofun
    · rintro ⟨⟩
      exact Or.inl rfl
  | cons i path ih =>
    rw [located_eq_cons, List.mem_cons, mem_locatedAll_iff]
    constructor
    · rintro (hhere | ⟨j, c, rest, hpath, hchild, hnamed, hrest⟩)
      · exact absurd hhere nofun
      · rw [Nat.zero_add] at hpath
        injection hpath with hi hpath
        subst hi hpath
        exact .step hchild hnamed (ih.mp hrest)
    · intro hreaches
      cases hreaches with
      | step hchild hnamed hrest =>
        exact Or.inr ⟨i, _, path, by rw [Nat.zero_add], hchild, hnamed, ih.mpr hrest⟩

/-! ### In the order of the text -/

mutual

theorem pairwise_located (above : List Node) : (n : Node) →
    (n.located above).Pairwise fun a b ↦ List.Lex (· < ·) a.1 b.1
  | ⟨kind, role, named, start, stop, row, children⟩ => by
    rw [located, List.pairwise_cons]
    refine ⟨?_, pairwise_locatedAll _ 0 children⟩
    rintro ⟨path, o⟩ hplace
    obtain ⟨j, c, rest, rfl, -⟩ := mem_locatedAll_iff.mp hplace
    exact .nil

theorem pairwise_locatedAll (above : List Node) (i : Nat) : (nodes : List Node) →
    (locatedAll above i nodes).Pairwise fun a b ↦ List.Lex (· < ·) a.1 b.1
  | [] => by
    rw [locatedAll]
    exact .nil
  | c :: rest => by
    rw [locatedAll, List.pairwise_append]
    refine ⟨?_, pairwise_locatedAll above (i + 1) rest, ?_⟩
    · split_ifs
      · rw [List.pairwise_map]
        exact (pairwise_located above c).imp fun hlex ↦ .cons hlex
      · exact .nil
    · -- the places of a sibling all come before those of the siblings after it
      intro a ha b hb
      split_ifs at ha
      · obtain ⟨place, -, rfl⟩ := List.mem_map.mp ha
        obtain ⟨j, d, path, hb, -⟩ := mem_locatedAll_iff.mp hb
        rw [hb]
        exact .rel (by omega)
      · exact absurd ha List.not_mem_nil

end

end Node

end CallBinding
