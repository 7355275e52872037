import CallBinding.Proofs.ScopeIsolation

/-!
What is in scope at a name. A scope or a block is open at a place below it when no scope stands in
between (`Tree.OpenAt`). The parameters of all that is open are in scope (`Tree.ParametersAt`), and
so are the assignments below it that are reached through nodes that start before the name and are no
scopes (`Tree.AssignedBefore`). Names are taken from all identifiers of a parameter list
(`Tree.NamedInParameters`) and of the left side of an assignment.

Whether a name is a variable is decided by climbing to the nearest scope and by searching with a
stack of nodes below all that is open on the way. `search_iff` and `Reaches.mem_enclosing_iff`
relate the search and the climb to paths, and with them `Tree.NameStands.isBareCall_iff` shows that
a name that stands alone is a call exactly when no parameter list and no assignment in scope
mentions it.
-/

set_option autoImplicit false
set_option relaxedAutoImplicit false

namespace CallBinding

/-! ### Paths whose nodes keep a condition -/

/-- A path leads from one occurrence to another, and every node that it comes to is named and keeps
a condition. -/
inductive Occurrence.ReachesThrough (keeps : Node → Prop) :
    Occurrence → List Nat → Occurrence → Prop
  | here (o : Occurrence) : ReachesThrough keeps o [] o
  | step {o target : Occurrence} {c : Node} {i : Nat} {path : List Nat}
      (hchild : o.node.children[i]? = some c) (hnamed : c.named = true) (hkeeps : keeps c)
      (hrest : ReachesThrough keeps ⟨c, o.node :: o.ancestors⟩ path target) :
      ReachesThrough keeps o (i :: path) target

namespace Occurrence

variable {o a b target : Occurrence} {c : Node} {i : Nat} {path : List Nat} {keeps : Node → Prop}

theorem reaches_cons_iff (hchild : o.node.children[i]? = some c) :
    o.Reaches (i :: path) target ↔
      c.named = true ∧ (Occurrence.mk c (o.node :: o.ancestors)).Reaches path target := by
  constructor
  · intro h
    cases h with
    | step hchild' hnamed hrest =>
      rw [hchild] at hchild'
      injection hchild' with hsame
      subst hsame
      exact ⟨hnamed, hrest⟩
  · rintro ⟨hnamed, hrest⟩
    exact .step hchild hnamed hrest

theorem reachesThrough_cons_iff (hchild : o.node.children[i]? = some c) :
    o.ReachesThrough keeps (i :: path) target ↔ c.named = true ∧ keeps c ∧
      (Occurrence.mk c (o.node :: o.ancestors)).ReachesThrough keeps path target := by
  constructor
  · intro h
    cases h with
    | step hchild' hnamed hkeeps hrest =>
      rw [hchild] at hchild'
      injection hchild' with hsame
      subst hsame
      exact ⟨hnamed, hkeeps, hrest⟩
  · rintro ⟨hnamed, hkeeps, hrest⟩
    exact .step hchild hnamed hkeeps hrest

theorem Reaches.unique (ha : o.Reaches path a) (hb : o.Reaches path b) : a = b := by
  induction ha with
  | here o =>
    cases hb with
    | here => rfl
  | step hchild _ _ ih => exact ih ((reaches_cons_iff hchild).mp hb).2

theorem ReachesThrough.reaches (h : o.ReachesThrough keeps path target) :
    o.Reaches path target := by
  induction h with
  | here o => exact .here o
  | step hchild hnamed _ _ ih => exact .step hchild hnamed ih

theorem Reaches.through (h : o.Reaches path target) (hkeeps : ∀ n, keeps n) :
    o.ReachesThrough keeps path target := by
  induction h with
  | here o => exact .here o
  | step hchild hnamed _ ih => exact .step hchild hnamed (hkeeps _) ih

theorem Reaches.append {later : List Nat} (h : o.Reaches path a) (h' : a.Reaches later target) :
    o.Reaches (path ++ later) target := by
  induction h with
  | here o => exact h'
  | step hchild hnamed _ ih => exact .step hchild hnamed (ih h')

end Occurrence

/-! ### Searching -/

namespace Node

variable {skips found : Node → Bool} {n m c : Node} {stack : List Node}

theorem mem_namedChildren_iff :
    c ∈ n.namedChildren ↔ ∃ i : Nat, n.children[i]? = some c ∧ c.named = true := by
  rw [namedChildren, List.mem_filter, List.mem_iff_getElem?, exists_and_right]

/-- A search that takes up one node comes to another one: the two and all nodes between them are
named and not skipped. -/
inductive Meets (skips : Node → Bool) : Node → Node → Prop
  | here {n : Node} (hkept : skips n = false) : Meets skips n n
  | child {n c m : Node} (hkept : skips n = false) (hchild : c ∈ n.namedChildren)
      (hmeets : Meets skips c m) : Meets skips n m

/-- A search finds what it comes to from the nodes on its stack, in whatever order it takes
them. -/
theorem search_iff : search skips found stack = true ↔
    ∃ n ∈ stack, ∃ m, Meets skips n m ∧ found m = true := by
  induction stack using search.induct skips with
  | case1 => simp [search]
  | case2 n stack hskip ih =>
    rw [search, if_pos hskip, ih]
    constructor
    · rintro ⟨k, hk, hfinds⟩
      exact ⟨k, List.mem_cons_of_mem _ hk, hfinds⟩
    · rintro ⟨k, hk, m, hmeets, hfound⟩
      rcases List.mem_cons.mp hk with rfl | hk
      · have hkept : skips k = false := by cases hmeets <;> assumption
        exact absurd (hskip.symm.trans hkept) (by decide)
      · exact ⟨k, hk, m, hmeets, hfound⟩
  | case3 n stack hskip ih =>
    have hkept : skips n = false := Bool.eq_false_iff.mpr hskip
    rw [search, if_neg hskip, Bool.or_eq_true, ih]
    constructor
    · rintro (hfound | ⟨k, hk, m, hmeets, hfound⟩)
      · exact ⟨n, List.mem_cons_self, n, .here hkept, hfound⟩
      · rcases List.mem_append.mp hk with hchild | hk
        · exact ⟨n, List.mem_cons_self, m, .child hkept (List.mem_reverse.mp hchild) hmeets, hfound⟩
        · exact ⟨k, List.mem_cons_of_mem _ hk, m, hmeets, hfound⟩
    · rintro ⟨k, hk, m, hmeets, hfound⟩
      rcases List.mem_cons.mp hk with rfl | hk
      · cases hmeets with
        | here => exact Or.inl hfound
        | child _ hchild hmeets =>
          refine Or.inr ⟨_, ?_, m, hmeets, hfound⟩
          exact List.mem_append_left _ (List.mem_reverse.mpr hchild)
      · exact Or.inr ⟨k, List.mem_append_right _ hk, m, hmeets, hfound⟩

theorem meets_of_reachesThrough {o target : Occurrence} {path : List Nat}
    (h : o.ReachesThrough (fun k ↦ skips k = false) path target) (hkept : skips o.node = false) :
    Meets skips o.node target.node := by
  induction h with
  | here o => exact .here hkept
  | step hchild hnamed hkept' _ ih =>
    exact .child hkept (mem_namedChildren_iff.mpr ⟨_, hchild, hnamed⟩) (ih hkept')

/-- A search from a node comes to what paths lead to whose nodes are not skipped. -/
theorem meets_iff (above : List Node) : Meets skips n m ↔ skips n = false ∧
    ∃ path o, (Occurrence.mk n above).ReachesThrough (fun k ↦ skips k = false) path o ∧
      o.node = m := by
  constructor
  · intro hmeets
    induction hmeets generalizing above with
    | here hkept => exact ⟨hkept, [], _, .here _, rfl⟩
    | @child n c m hkept hchild _ ih =>
      obtain ⟨hkept', path, o, hpath, ho⟩ := ih (n :: above)
      obtain ⟨i, hchild, hnamed⟩ := mem_namedChildren_iff.mp hchild
      exact ⟨hkept, i :: path, o, .step hchild hnamed hkept' hpath, ho⟩
  · rintro ⟨hkept, path, o, hpath, rfl⟩
    exact meets_of_reachesThrough hpath hkept

/-- An identifier with a text stands at a path below a node. -/
def NamedAt (src : Source) (name : String) (path : List Nat) (n : Node) : Prop :=
  ∃ o, Occurrence.Reaches ⟨n, []⟩ path o ∧ o.node.kind = "identifier" ∧ src.text o.node = name

/-- An identifier with a text stands at or below a node. -/
def Names (src : Source) (name : String) (n : Node) : Prop :=
  ∃ path, n.NamedAt src name path

theorem mentions_iff {src : Source} {name : String} :
    n.mentions src name = true ↔ n.Names src name := by
  rw [mentions, search_iff]
  constructor
  · rintro ⟨k, hk, m, hmeets, hfound⟩
    rw [List.mem_singleton.mp hk] at hmeets
    obtain ⟨-, path, o, hpath, rfl⟩ := (meets_iff []).mp hmeets
    exact ⟨path, o, hpath.reaches, by simpa using hfound⟩
  · rintro ⟨path, o, hpath, hidentifier⟩
    refine ⟨n, List.mem_singleton_self n, o.node, (meets_iff []).mpr ⟨rfl, path, o, ?_, rfl⟩, ?_⟩
    · exact hpath.through fun _ ↦ rfl
    · simpa using hidentifier

theorem mentionsIn_iff {src : Source} {role name : String} :
    n.mentionsIn src role name = true ↔ ∃ c, n.child? role = some c ∧ c.Names src name := by
  simp only [mentionsIn, Option.any_eq_true, mentions_iff]

end Node

/-! ### Assignments below an occurrence -/

namespace Occurrence

variable {src : Source} {name : String} {limit : Nat} {o x : Occurrence}

/-- An assignment whose left side mentions a name is reached from an occurrence by a path, through
nodes that start before `limit` and are no scopes. -/
def HasAssignment (src : Source) (name : String) (limit : Nat) (o : Occurrence) (path : List Nat)
    (left : Node) : Prop :=
  path ≠ [] ∧ ∃ a, o.ReachesThrough (fun n ↦ n.start < limit ∧ n.isScope = false) path a ∧
    a.node.isAssignment = true ∧ a.node.child? "left" = some left ∧ left.Names src name

theorem assigns_iff : o.node.assigns src name limit = true ↔
    ∃ path left, o.HasAssignment src name limit path left := by
  have hkeeps : ∀ n : Node, (limit ≤ n.start || n.isScope) = false ↔
      n.start < limit ∧ n.isScope = false := by simp
  have hfound : ∀ n : Node, (n.isAssignment && n.mentionsIn src "left" name) = true ↔
      n.isAssignment = true ∧ ∃ left, n.child? "left" = some left ∧ left.Names src name := by
    simp [Node.mentionsIn_iff]
  simp only [Node.assigns, Node.search_iff, List.mem_reverse, hfound,
    Node.meets_iff (o.node :: o.ancestors), hkeeps]
  constructor
  · rintro ⟨c, hchild, _, ⟨hkept, path, a, hpath, rfl⟩, hassignment, left, hleft, hnames⟩
    obtain ⟨i, hchild, hnamed⟩ := Node.mem_namedChildren_iff.mp hchild
    exact ⟨i :: path, left, List.cons_ne_nil _ _, a, .step hchild hnamed hkept hpath, hassignment,
      hleft, hnames⟩
  · rintro ⟨path, left, hne, a, hpath, hassignment, hleft, hnames⟩
    cases hpath with
    | here => exact absurd rfl hne
    | step hchild hnamed hkept hrest =>
      exact ⟨_, Node.mem_namedChildren_iff.mpr ⟨_, hchild, hnamed⟩, a.node,
        ⟨hkept, _, a, hrest, rfl⟩, hassignment, left, hleft, hnames⟩

theorem declares_iff : o.node.declares src name limit = true ↔
    (∃ params, o.node.child? "parameters" = some params ∧ params.Names src name) ∨
      ∃ path left, o.HasAssignment src name limit path left := by
  rw [Node.declares, Bool.or_eq_true, Node.mentionsIn_iff, assigns_iff]

/-! ### Open scopes and blocks -/

/-- A scope or a block stands above an occurrence, and no scope stands in between. -/
def Encloses (o : Occurrence) (path : List Nat) (x : Occurrence) : Prop :=
  path ≠ [] ∧ (o.node.isScope = true ∨ o.node.isBlock = true) ∧
    o.ReachesThrough (fun n ↦ n.isScope = false) path x

theorem mem_enclosing_cons_iff {n m : Node} {above : List Node} : m ∈ enclosing (n :: above) ↔
    (n.isScope = true ∨ n.isBlock = true) ∧ m = n ∨ n.isScope = false ∧ m ∈ enclosing above := by
  rw [enclosing]
  split_ifs with hscope hblock
  · simp [hscope]
  · simp [hscope, hblock]
  · simp [hscope, hblock]

/-- What encloses a place is what is open on the way to it, and before that what encloses the start
of the way when no scope shuts it out. -/
theorem Reaches.mem_enclosing_iff {path : List Nat} {m : Node} (h : o.Reaches path x)
    (hx : x.node.isScope = false) : m ∈ enclosing x.ancestors ↔
      (∃ outer inner b, path = outer ++ inner ∧ o.Reaches outer b ∧ b.Encloses inner x ∧
        b.node = m) ∨
      (o.node.isScope = false ∧ o.ReachesThrough (fun n ↦ n.isScope = false) path x ∧
        m ∈ enclosing o.ancestors) := by
  induction h with
  | here o =>
    constructor
    · exact fun hm ↦ Or.inr ⟨hx, .here o, hm⟩
    · rintro (⟨outer, inner, b, hpath, -, ⟨hne, -⟩, -⟩ | ⟨-, -, hm⟩)
      · exact absurd (List.append_eq_nil_iff.mp hpath.symm).2 hne
      · exact hm
  | @step o x c i path hchild hnamed hrest ih =>
    rw [ih hx, mem_enclosing_cons_iff, reachesThrough_cons_iff hchild]
    constructor
    · rintro (⟨outer, inner, b, rfl, hb, hencloses, rfl⟩ |
        ⟨hc, hthrough, ⟨hopen, rfl⟩ | ⟨ho, hm⟩⟩)
      · exact Or.inl ⟨i :: outer, inner, b, rfl, .step hchild hnamed hb, hencloses, rfl⟩
      · exact Or.inl ⟨[], i :: path, o, rfl, .here o,
          ⟨List.cons_ne_nil _ _, hopen, .step hchild hnamed hc hthrough⟩, rfl⟩
      · exact Or.inr ⟨ho, ⟨hnamed, hc, hthrough⟩, hm⟩
    · rintro (⟨outer, inner, b, hpath, hb, hencloses, rfl⟩ | ⟨ho, ⟨-, hc, hthrough⟩, hm⟩)
      · -- what is open is the start of the way, or stands behind its first step
        cases outer with
        | nil =>
          cases hb with
          | here =>
            obtain ⟨-, hopen, hthrough⟩ := hencloses
            rw [List.nil_append] at hpath
            rw [← hpath, reachesThrough_cons_iff hchild] at hthrough
            exact Or.inr ⟨hthrough.2.1, hthrough.2.2, Or.inl ⟨hopen, rfl⟩⟩
        | cons j outer =>
          injection hpath with hj hpath
          rw [← hj, reaches_cons_iff hchild] at hb
          exact Or.inl ⟨outer, inner, b, hpath, hb.2, hencloses, rfl⟩
      · exact Or.inr ⟨hc, hthrough, Or.inr ⟨ho, hm⟩⟩

end Occurrence

/-! ### Names in a tree -/

/-- The call that a name is when it is one. -/
def Occurrence.nameSite (src : Source) (x : Occurrence) : CallSite where
  name := src.text x.node
  line := x.node.row + 1
  source := src.text x.node

namespace Tree

variable {src : Source} {t : Tree} {path : List Nat} {x : Occurrence}

/-- A name stands alone at a place of a tree, as a statement or as an argument. -/
structure NameStands (t : Tree) (path : List Nat) (x : Occurrence) : Prop where
  reaches : Occurrence.Reaches ⟨t.root, []⟩ path x
  kind_eq : x.node.kind = "identifier"
  parent_mem : ∃ parent, x.parent? = some parent ∧ parent.kind ∈ standingKinds

/-- A scope or a block of a tree, found at the path `outer`, is open at a place below it. -/
def OpenAt (t : Tree) (outer : List Nat) (o : Occurrence) (path : List Nat) (x : Occurrence) :
    Prop :=
  Occurrence.Reaches ⟨t.root, []⟩ outer o ∧ ∃ inner, path = outer ++ inner ∧ o.Encloses inner x

/-- A parameter list belongs to a scope or a block that is open at a place. -/
def ParametersAt (t : Tree) (path : List Nat) (x : Occurrence) (params : Node) : Prop :=
  ∃ outer o, t.OpenAt outer o path x ∧ o.node.child? "parameters" = some params

/-- An identifier with the text of a name stands at the path `inner` below a parameter list that is
in scope at the name. -/
def NamedInParameters (src : Source) (t : Tree) (path : List Nat) (x : Occurrence) (params : Node)
    (inner : List Nat) : Prop :=
  t.ParametersAt path x params ∧ params.NamedAt src (src.text x.node) inner

/-- An assignment that is in scope at a name and starts before it mentions the name on its left
side. -/
def AssignedBefore (src : Source) (t : Tree) (path : List Nat) (x : Occurrence) (place : List Nat)
    (left : Node) : Prop :=
  ∃ outer o inner, t.OpenAt outer o path x ∧ place = outer ++ inner ∧
    o.HasAssignment src (src.text x.node) x.node.start inner left

/-- The places of a tree at which an assignment mentions a name on its left side. -/
def assignments (src : Source) (name : String) (t : Tree) : List (List Nat × Occurrence) :=
  (t.root.located []).filter fun place ↦
    place.2.node.isAssignment && place.2.node.mentionsIn src "left" name

theorem AssignedBefore.exists_mem_assignments {place : List Nat} {left : Node}
    (h : t.AssignedBefore src path x place left) :
    ∃ a, (place, a) ∈ t.assignments src (src.text x.node) ∧ a.node.child? "left" = some left := by
  obtain ⟨outer, o, inner, ⟨houter, -⟩, rfl, -, a, hinner, hassignment, hleft, hnames⟩ := h
  refine ⟨a, List.mem_filter.mpr ⟨?_, ?_⟩, hleft⟩
  · exact Node.mem_located_iff.mpr (houter.append hinner.reaches)
  · rw [Bool.and_eq_true]
    exact ⟨hassignment, Node.mentionsIn_iff.mpr ⟨left, hleft, hnames⟩⟩

theorem not_assignedBefore (hnil : t.assignments src (src.text x.node) = []) (place : List Nat)
    (left : Node) : ¬ t.AssignedBefore src path x place left := by
  intro hassigned
  obtain ⟨a, ha, -⟩ := hassigned.exists_mem_assignments
  rw [hnil] at ha
  exact absurd ha List.not_mem_nil

/-- Exactly under a condition, a name is a call and is reported as one at its place, where nothing
else is ever reported. -/
structure CallIff (src : Source) (t : Tree) (path : List Nat) (x : Occurrence) (condition : Prop) :
    Prop where
  isBareCall_iff : x.isBareCall src = true ↔ condition
  mem_callSites_iff : ∀ site,
    (path, site) ∈ t.placedCallSites src ↔ condition ∧ site = x.nameSite src

theorem mem_placedCallSites_iff {site : CallSite} (h : Occurrence.Reaches ⟨t.root, []⟩ path x) :
    (path, site) ∈ t.placedCallSites src ↔ x.callSite? src = some site := by
  rw [placedCallSites, sitesAt, List.mem_filterMap]
  constructor
  · rintro ⟨⟨path', o⟩, hplace, hsite⟩
    obtain ⟨call, hcall, hpair⟩ := Option.map_eq_some_iff.mp hsite
    injection hpair with hpath hcallSite
    dsimp only at hpath hcall
    rw [hpath] at hplace
    rw [h.unique (Node.mem_located_iff.mp hplace), hcall, hcallSite]
  · intro hsite
    refine ⟨(path, x), Node.mem_located_iff.mpr h, ?_⟩
    rw [hsite]
    rfl

theorem mem_enclosing_iff {n : Node} (h : Occurrence.Reaches ⟨t.root, []⟩ path x)
    (hx : x.node.isScope = false) :
    n ∈ enclosing x.ancestors ↔ ∃ outer o, t.OpenAt outer o path x ∧ o.node = n := by
  rw [h.mem_enclosing_iff hx]
  constructor
  · rintro (⟨outer, inner, o, hpath, ho, hencloses, rfl⟩ | ⟨-, -, hroot⟩)
    · exact ⟨outer, o, ⟨ho, inner, hpath, hencloses⟩, rfl⟩
    · exact absurd hroot List.not_mem_nil
  · rintro ⟨outer, o, ⟨ho, inner, hpath, hencloses⟩, rfl⟩
    exact Or.inl ⟨outer, inner, o, hpath, ho, hencloses, rfl⟩

theorem parametersAt_iff {params : Node} (h : Occurrence.Reaches ⟨t.root, []⟩ path x)
    (hx : x.node.isScope = false) : t.ParametersAt path x params ↔
      ∃ n ∈ enclosing x.ancestors, n.child? "parameters" = some params := by
  simp only [mem_enclosing_iff h hx, ParametersAt]
  constructor
  · rintro ⟨outer, o, hopen, hparams⟩
    exact ⟨o.node, ⟨outer, o, hopen, rfl⟩, hparams⟩
  · rintro ⟨_, ⟨outer, o, hopen, rfl⟩, hparams⟩
    exact ⟨outer, o, hopen, hparams⟩

theorem not_namedInParameters_of_enclosing (h : Occurrence.Reaches ⟨t.root, []⟩ path x)
    (hx : x.node.isScope = false)
    (hnone : ∀ n ∈ enclosing x.ancestors, n.child? "parameters" = none)
    (params : Node) (inner : List Nat) : ¬ t.NamedInParameters src path x params inner := by
  rintro ⟨hparams, -⟩
  obtain ⟨n, hn, hchild⟩ := (parametersAt_iff h hx).mp hparams
  rw [hnone n hn] at hchild
  exact absurd hchild nofun

/-- Wherever an identifier stands, it is reported when it is a call. -/
theorem callIff_of_identifier {condition : Prop} (h : Occurrence.Reaches ⟨t.root, []⟩ path x)
    (hkind : x.node.kind = "identifier") (hcall : x.isBareCall src = true ↔ condition) :
    t.CallIff src path x condition where
  isBareCall_iff := hcall
  mem_callSites_iff site := by
    have hsite : x.callSite? src = if x.isBareCall src then some (x.nameSite src) else none := by
      rw [Occurrence.callSite?, if_pos hkind]
      rfl
    rw [mem_placedCallSites_iff h, hsite, ← hcall]
    split_ifs with hbare
    · simp only [hbare, true_and, Option.some_inj, eq_comm]
    · simp [hbare]

namespace NameStands

theorem isScope_eq (h : t.NameStands path x) : x.node.isScope = false := by
  rw [Node.isScope, h.kind_eq]
  decide

theorem stands (h : t.NameStands path x) : x.stands = true := by
  obtain ⟨parent, hparent, hmem⟩ := h.parent_mem
  have hother : parent.kind ≠ "assignment" := by
    intro hkind
    rw [hkind] at hmem
    exact absurd hmem (by decide)
  simp only [Occurrence.stands, hparent, if_neg hother, List.contains_iff_mem, hmem]

/-- A name that stands alone is a call when nothing that is open there declares it. -/
theorem isBareCall_iff (h : t.NameStands path x) : x.isBareCall src = true ↔
    (∀ params inner, ¬ t.NamedInParameters src path x params inner) ∧
      ∀ place left, ¬ t.AssignedBefore src path x place left := by
  have hdeclares : x.isBareCall src = true ↔ ∀ outer o, t.OpenAt outer o path x →
      ¬ o.node.declares src (src.text x.node) x.node.start = true := by
    simp only [Occurrence.isBareCall, h.kind_eq, h.stands, decide_true, Bool.true_and,
      Bool.not_eq_true', List.any_eq_false, mem_enclosing_iff h.reaches h.isScope_eq]
    constructor
    · exact fun hnone outer o hopen ↦ hnone o.node ⟨outer, o, hopen, rfl⟩
    · rintro hnone _ ⟨outer, o, hopen, rfl⟩
      exact hnone outer o hopen
  rw [hdeclares]
  simp only [Occurrence.declares_iff, not_or]
  constructor
  · intro hnone
    refine ⟨?_, ?_⟩
    · rintro params inner ⟨⟨outer, o, hopen, hparams⟩, hnamed⟩
      exact (hnone outer o hopen).1 ⟨params, hparams, inner, hnamed⟩
    · rintro place left ⟨outer, o, inner, hopen, -, hassigned⟩
      exact (hnone outer o hopen).2 ⟨inner, left, hassigned⟩
  · rintro ⟨hparams, hassigned⟩ outer o hopen
    refine ⟨?_, ?_⟩
    · rintro ⟨params, hchild, inner, hnamed⟩
      exact hparams params inner ⟨⟨outer, o, hopen, hchild⟩, hnamed⟩
    · rintro ⟨inner, left, hleft⟩
      exact hassigned (outer ++ inner) left ⟨outer, o, inner, hopen, rfl, hleft⟩

theorem not_namedInParameters (h : t.NameStands path x)
    (hnone : ∀ n ∈ enclosing x.ancestors, n.child? "parameters" = none) (params : Node)
    (inner : List Nat) : ¬ t.NamedInParameters src path x params inner :=
  not_namedInParameters_of_enclosing h.reaches h.isScope_eq hnone params inner

/-- A name is reported when it is a call. -/
theorem callIff {condition : Prop} (h : t.NameStands path x)
    (hcall : x.isBareCall src = true ↔ condition) : t.CallIff src path x condition :=
  callIff_of_identifier h.reaches h.kind_eq hcall

end NameStands

end Tree

end CallBinding
