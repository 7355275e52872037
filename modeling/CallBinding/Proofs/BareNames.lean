import CallBinding.Proofs.NamesInScope
import Mathlib.Data.List.Perm.Basic

/-!
When a bare name is a call. A name is looked up in two kinds of places: the parameters of a scope or
a block, from which all identifiers are collected, and the assignments below it, for which the nodes
below it are searched. Both take nodes from a stack. `Node.Searches` and `Node.Collects` leave open
which node is taken next and where the nodes below it are put; every run of them comes to an end
(`wellFounded_proceeds`), and all runs have the result of the one that is carried out
(`searches_iff`, `mem_iff_of_collects`).

`isBareCall_iff_undeclared` gives the whole test in terms of paths, for a node with any ancestors:
the position in which a name has to stand, the scopes and blocks that are open above it
(`Occurrence.OpenAbove`), and what none of these may declare.
-/

set_option autoImplicit false
set_option relaxedAutoImplicit false

namespace CallBinding

/-! ### Searches in any order -/

namespace Node

variable {skips found : Node → Bool} {n : Node} {stack stack' next : List Node} {answer : Bool}

/-- A search takes any node from its stack, and goes on. A node that is skipped is dropped, and in
the place of one that is not what is looked for the named nodes below it are put on the stack. -/
inductive Proceeds (skips found : Node → Bool) : List Node → List Node → Prop
  | skip {stack rest : List Node} {n : Node} (htaken : stack.Perm (n :: rest))
      (hskip : skips n = true) : Proceeds skips found stack rest
  | pass {stack rest next : List Node} {n : Node} (htaken : stack.Perm (n :: rest))
      (hkept : skips n = false) (hother : found n = false)
      (hnext : next.Perm (n.namedChildren ++ rest)) : Proceeds skips found stack next

/-- A search may end with an answer: it finds what it looks for, or nothing is left to be taken. -/
inductive Searches (skips found : Node → Bool) : List Node → Bool → Prop
  | exhausted : Searches skips found [] false
  | hit {stack : List Node} {n : Node} (htaken : n ∈ stack) (hkept : skips n = false)
      (hfound : found n = true) : Searches skips found stack true
  | proceed {stack next : List Node} {answer : Bool} (hstep : Proceeds skips found stack next)
      (hrest : Searches skips found next answer) : Searches skips found stack answer

theorem sizeOf_eq_of_perm (h : stack.Perm stack') : sizeOf stack = sizeOf stack' := by
  induction h with
  | nil => rfl
  | cons _ _ ih => rw [List.cons.sizeOf_spec, List.cons.sizeOf_spec, ih]
  | swap _ _ _ =>
    simp only [List.cons.sizeOf_spec]
    omega
  | trans _ _ ih ih' => exact ih.trans ih'

theorem Proceeds.sizeOf_lt (h : Proceeds skips found stack next) : sizeOf next < sizeOf stack := by
  cases h with
  | @skip _ n htaken _ =>
    rw [sizeOf_eq_of_perm htaken, List.cons.sizeOf_spec]
    omega
  | @pass rest _ n htaken _ _ hnext =>
    have hbelow := sizeOf_namedChildren_lt n
    have happend := sizeOf_append n.namedChildren rest
    rw [sizeOf_eq_of_perm htaken, sizeOf_eq_of_perm hnext, List.cons.sizeOf_spec]
    omega

/-- No search goes on for ever. -/
theorem wellFounded_proceeds (skips found : Node → Bool) :
    WellFounded fun next stack ↦ Proceeds skips found stack next :=
  Subrelation.wf Proceeds.sizeOf_lt (InvImage.wf sizeOf Nat.lt_wfRel.wf)

theorem search_eq_of_perm (h : stack.Perm stack') :
    search skips found stack = search skips found stack' := by
  rw [Bool.eq_iff_iff, search_iff, search_iff]
  simp only [h.mem_iff]

/-- A step changes nothing about what is still to be found. -/
theorem Proceeds.search_eq (h : Proceeds skips found stack next) :
    search skips found stack = search skips found next := by
  cases h with
  | skip htaken hskip => rw [search_eq_of_perm htaken, search, if_pos hskip]
  | @pass rest _ n htaken hkept hother hnext =>
    have hbelow : (n.namedChildren.reverse ++ rest).Perm next :=
      ((List.reverse_perm _).append_right rest).trans hnext.symm
    rw [search_eq_of_perm htaken, search, if_neg (Bool.eq_false_iff.mp hkept), hother,
      Bool.false_or, search_eq_of_perm hbelow]

/-- The search that takes the top of its stack is one of the searches. -/
theorem searches_search (skips found : Node → Bool) (stack : List Node) :
    Searches skips found stack (search skips found stack) := by
  induction stack using search.induct skips with
  | case1 =>
    rw [search]
    exact .exhausted
  | case2 n stack hskip ih =>
    rw [search, if_pos hskip]
    exact .proceed (.skip (List.Perm.refl _) hskip) ih
  | case3 n stack hskip ih =>
    have hkept : skips n = false := Bool.eq_false_iff.mpr hskip
    rw [search, if_neg hskip]
    cases hfound : found n with
    | true => exact .hit List.mem_cons_self hkept hfound
    | false =>
      rw [Bool.false_or]
      exact .proceed (.pass (List.Perm.refl _) hkept hfound
        ((List.reverse_perm _).append_right stack)) ih

/-- All searches of a stack have one answer. -/
theorem searches_iff : Searches skips found stack answer ↔ search skips found stack = answer := by
  constructor
  · intro h
    induction h with
    | exhausted => rw [search]
    | @hit stack n htaken hkept hfound =>
      exact search_iff.mpr ⟨n, htaken, n, .here hkept, hfound⟩
    | proceed hstep _ ih => rw [hstep.search_eq, ih]
  · rintro rfl
    exact searches_search skips found stack

/-- The names of some nodes and of all named nodes below them may be collected as a list, when the
nodes are taken from a stack in any order. -/
inductive Collects (src : Source) : List Node → List String → Prop
  | exhausted : Collects src [] []
  | take {stack rest next : List Node} {n : Node} {names : List String}
      (htaken : stack.Perm (n :: rest)) (hnext : next.Perm (n.namedChildren ++ rest))
      (hrest : Collects src next names) :
      Collects src stack ((if n.kind = "identifier" then [src.text n] else []) ++ names)

/-- Whatever the order, all names are collected that the nodes mention, and no others. -/
theorem mem_iff_of_collects {src : Source} {names : List String} {name : String}
    (h : Collects src stack names) : name ∈ names ↔
      search (fun _ ↦ false) (fun m ↦ m.kind = "identifier" && src.text m = name) stack = true := by
  induction h with
  | exhausted => simp [search]
  | @take stack rest next n names htaken hnext _ ih =>
    have hbelow : (n.namedChildren.reverse ++ rest).Perm next :=
      ((List.reverse_perm _).append_right rest).trans hnext.symm
    rw [search_eq_of_perm htaken, search, if_neg Bool.false_ne_true, search_eq_of_perm hbelow,
      Bool.or_eq_true, ← ih, List.mem_append]
    refine or_congr_left ?_
    split_ifs with hkind
    · simp [hkind, eq_comm]
    · simp [hkind]

/-- The names can be collected. -/
theorem exists_collects (src : Source) (stack : List Node) : ∃ names, Collects src stack names := by
  induction stack using search.induct fun _ ↦ false with
  | case1 => exact ⟨[], .exhausted⟩
  | case2 n stack hskip _ => exact absurd hskip Bool.false_ne_true
  | case3 n stack _ ih =>
    obtain ⟨names, hnames⟩ := ih
    exact ⟨_, .take (List.Perm.refl _) ((List.reverse_perm _).append_right stack) hnames⟩

end Node

/-! ### What is open above a name -/

/-- What encloses a name is each scope and each block among its ancestors that no scope shuts
out. -/
theorem mem_enclosing_iff_append {n : Node} {above : List Node} : n ∈ enclosing above ↔
    ∃ inner outer, above = inner ++ n :: outer ∧ (∀ m ∈ inner, m.isScope = false) ∧
      (n.isScope = true ∨ n.isBlock = true) := by
  induction above with
  | nil => simp [enclosing]
  | cons m above ih =>
    rw [Occurrence.mem_enclosing_cons_iff, ih]
    constructor
    · rintro (⟨hopen, rfl⟩ | ⟨hm, inner, outer, rfl, hinner, hopen⟩)
      · exact ⟨[], above, rfl, fun _ hmem ↦ absurd hmem List.not_mem_nil, hopen⟩
      · exact ⟨m :: inner, outer, rfl, List.forall_mem_cons.mpr ⟨hm, hinner⟩, hopen⟩
    · rintro ⟨inner, outer, hsplit, hinner, hopen⟩
      cases inner with
      | nil =>
        injection hsplit with hm _
        subst hm
        exact Or.inl ⟨hopen, rfl⟩
      | cons k inner =>
        injection hsplit with hm habove
        subst hm
        obtain ⟨hm, hinner⟩ := List.forall_mem_cons.mp hinner
        exact Or.inr ⟨hm, inner, outer, habove, hinner, hopen⟩

namespace Occurrence

variable {src : Source} {x : Occurrence}

/-- A scope or a block stands above a name, and no scope stands between the two. -/
def OpenAbove (s x : Occurrence) : Prop :=
  ∃ inner, x.ancestors = inner ++ s.node :: s.ancestors ∧ (∀ n ∈ inner, n.isScope = false) ∧
    (s.node.isScope = true ∨ s.node.isBlock = true)

/-- A node has a parent of a kind under which calls stand alone, or it starts where the right side
of the assignment does that is its parent. -/
def StandsForCall (x : Occurrence) : Prop :=
  ∃ parent, x.parent? = some parent ∧ (parent.kind ∈ standingKinds ∨
    parent.kind = "assignment" ∧
      ∃ right, parent.child? "right" = some right ∧ right.start = x.node.start)

theorem stands_iff : x.stands = true ↔ x.StandsForCall := by
  have hassignment : "assignment" ∉ standingKinds := by decide
  unfold stands StandsForCall
  cases x.parent? with
  | none => simp
  | some parent =>
    by_cases hkind : parent.kind = "assignment"
    · simp [hkind, hassignment, Option.any_eq_true]
    · simp [hkind]

theorem isBareCall_iff_of_openAbove : x.isBareCall src = true ↔
    x.node.kind = "identifier" ∧ x.StandsForCall ∧ ∀ s : Occurrence, s.OpenAbove x →
      ¬ s.node.declares src (src.text x.node) x.node.start = true := by
  rw [isBareCall, Bool.and_eq_true, Bool.and_eq_true, decide_eq_true_eq, stands_iff, and_assoc,
    Bool.not_eq_true', List.any_eq_false]
  refine and_congr_right fun _ ↦ and_congr_right fun _ ↦ ?_
  simp only [mem_enclosing_iff_append]
  constructor
  · rintro hnone s ⟨inner, habove, hinner, hopen⟩
    exact hnone s.node ⟨inner, s.ancestors, habove, hinner, hopen⟩
  · rintro hnone n ⟨inner, outer, habove, hinner, hopen⟩
    exact hnone ⟨n, outer⟩ ⟨inner, habove, hinner, hopen⟩

/-- A node is a call without arguments exactly when it is an identifier that stands where a call
can, and none of the scopes and blocks that are open above it has its text among the identifiers of
its parameters, or on the left side of an assignment that is reached from it through nodes that
start before the name and are no scopes. Both lookups come to an end in whatever order the nodes are
taken from the stack, and the order makes no difference to what they find. -/
theorem isBareCall_iff_undeclared (src : Source) :
    (∀ x : Occurrence, x.isBareCall src = true ↔
      x.node.kind = "identifier" ∧ x.StandsForCall ∧ ∀ s : Occurrence, s.OpenAbove x →
        (∀ params, s.node.child? "parameters" = some params →
          ¬ params.Names src (src.text x.node)) ∧
        ∀ path left, ¬ s.HasAssignment src (src.text x.node) x.node.start path left) ∧
    (∀ skips found, WellFounded fun next stack ↦ Node.Proceeds skips found stack next) ∧
    (∀ n : Node, (∃ names, Node.Collects src [n] names) ∧
      ∀ names, Node.Collects src [n] names →
        ∀ name, name ∈ names ↔ n.mentions src name = true) ∧
    ∀ (n : Node) (name : String) (limit : Nat) (answer : Bool),
      Node.Searches (fun m ↦ limit ≤ m.start || m.isScope)
          (fun m ↦ m.isAssignment && m.mentionsIn src "left" name) n.namedChildren answer ↔
        n.assigns src name limit = answer := by
  refine ⟨fun x ↦ ?_, Node.wellFounded_proceeds, fun n ↦ ⟨Node.exists_collects src [n], ?_⟩, ?_⟩
  · rw [isBareCall_iff_of_openAbove]
    refine and_congr_right fun _ ↦ and_congr_right fun _ ↦ forall_congr' fun s ↦
      imp_congr_right fun _ ↦ ?_
    rw [declares_iff, not_or]
    simp only [not_exists, not_and]
  · intro names hnames name
    rw [Node.mem_iff_of_collects hnames]
    rfl
  · intro n name limit answer
    rw [Node.searches_iff, Node.assigns, Node.search_eq_of_perm (List.reverse_perm _)]

end Occurrence

/-! ### A parameter of a block -/

namespace Tree.BlockParameter

def text : Source :=
  Text.Codec.utf8.source "g { |k| k }".toUTF8.toList

def declared : Node :=
  { kind := "identifier", start := 5, stop := 6 }

def parameters : Node where
  kind := "block_parameters"
  role := some "parameters"
  start := 4
  stop := 7
  children := [declared]

def body : Node where
  kind := "block_body"
  role := some "body"
  start := 8
  stop := 9
  children := [{ kind := "identifier", start := 8, stop := 9 }]

def block : Occurrence where
  node :=
    { kind := "block"
      role := some "block"
      start := 2
      stop := 11
      children := [parameters, body] }
  ancestors := [{ kind := "call", stop := 11 }, { kind := "program", stop := 11 }]

/-- The name in the body of the block. -/
def name : Occurrence where
  node := { kind := "identifier", start := 8, stop := 9 }
  ancestors := body :: block.node :: block.ancestors

end Tree.BlockParameter

open Tree.BlockParameter

/-- The name of a parameter is collected from the parameters of its block, and is no call in the
block, though it stands where a call can. -/
theorem Occurrence.isBareCall_iff_undeclared_of_block_parameter :
    name.StandsForCall ∧ block.OpenAbove name ∧ Node.Collects text [parameters] ["k"] ∧
      parameters.mentions text "k" = true ∧ name.isBareCall text = false := by
  have hstands : name.StandsForCall := ⟨body, rfl, Or.inl (by decide)⟩
  have hopen : block.OpenAbove name := ⟨[body], rfl, by decide, Or.inr (by decide)⟩
  have hdeclared : text.text declared = "k" := by decide +kernel
  have hused : text.text name.node = "k" := by decide +kernel
  have hcollects : Node.Collects text [parameters] ["k"] := by
    rw [← hdeclared]
    exact .take (List.Perm.refl _) (List.Perm.refl _)
      (.take (List.Perm.refl [declared]) (List.Perm.refl []) .exhausted)
  obtain ⟨hcall, -, hnames, -⟩ := isBareCall_iff_undeclared text
  have hmentions : parameters.mentions text "k" = true :=
    ((hnames parameters).2 ["k"] hcollects "k").mp (List.mem_singleton_self "k")
  refine ⟨hstands, hopen, hcollects, hmentions, ?_⟩
  rw [Bool.eq_false_iff, Ne, hcall]
  rintro ⟨-, -, hnone⟩
  refine (hnone block hopen).1 parameters rfl ?_
  rw [hused]
  exact Node.mentions_iff.mp hmentions

end CallBinding
