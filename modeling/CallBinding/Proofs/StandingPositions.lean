import CallBinding.Proofs.HiddenCalls

/-!
Positions at which a name can be a call. A name may stand as a statement, in a body or a branch, in
parentheses or in a loop, and as an argument, by itself or behind the label of a bare keyword. What
a name is there depends on the variables in scope: a variable is declared by a parameter, outside of
the default values, and by an earlier assignment that has the name as a target and does not stand in
a block that has ended (`Tree.Declared`). Other mentions of the name in a parameter list or on the
left side of an assignment count as declarations too (`Tree.Mentioned`).

`call_iff_position_is_known` says at which of these positions a name that is no variable is seen as
a call. Those right below the body of a loop and those behind a label are overlooked, whatever is in
scope (`Occurrence.Overlooked`), and the program at the end has one name at each of them.
-/

set_option autoImplicit false
set_option relaxedAutoImplicit false

namespace CallBinding

/-! ### Statements and arguments -/

/-- Kinds whose children are statements. -/
def statementKinds : List String :=
  ["program", "body_statement", "block_body", "then", "else", "begin", "ensure",
    "parenthesized_statements"]

/-- Kinds of loops. -/
def loopKinds : List String :=
  ["while", "until", "for"]

namespace Occurrence

/-- A place is right below the body of a loop. -/
def IsLoopStatement (x : Occurrence) : Prop :=
  ∃ body loop above, x.ancestors = body :: loop :: above ∧ body.kind = "do" ∧ loop.kind ∈ loopKinds

/-- A place is the value of a bare keyword in an argument list. -/
def IsKeywordValue (x : Occurrence) : Prop :=
  x.node.role = some "value" ∧ ∃ pair list above, x.ancestors = pair :: list :: above ∧
    pair.kind = "pair" ∧ list.kind = "argument_list"

/-- A place is one of a statement. -/
def IsStatement (x : Occurrence) : Prop :=
  (∃ parent, x.parent? = some parent ∧ parent.kind ∈ statementKinds) ∨ x.IsLoopStatement

/-- A place is one of an argument. -/
def IsArgument (x : Occurrence) : Prop :=
  (∃ parent, x.parent? = some parent ∧ parent.kind = "argument_list") ∨ x.IsKeywordValue

/-- A place is one of the statements and arguments whose names are never seen as calls. -/
def Overlooked (x : Occurrence) : Prop :=
  x.IsLoopStatement ∨ x.IsKeywordValue

theorem not_stands_of_parent {x : Occurrence} {parent : Node} {above : List Node}
    (hancestors : x.ancestors = parent :: above) (hkind : parent.kind ∈ ["do", "pair"]) :
    x.stands = false := by
  have hother : ∀ kind ∈ ["do", "pair"],
      kind ≠ "assignment" ∧ standingKinds.contains kind = false := by
    decide
  obtain ⟨hassignment, hunknown⟩ := hother _ hkind
  simp only [stands, parent?, hancestors, List.head?_cons, if_neg hassignment, hunknown]

/-- A name that is overlooked does not count as standing alone. -/
theorem Overlooked.stands_eq {x : Occurrence} (h : x.Overlooked) : x.stands = false := by
  rcases h with ⟨body, loop, above, hancestors, hbody, -⟩ |
    ⟨-, pair, list, above, hancestors, hpair, -⟩
  · exact not_stands_of_parent hancestors (by rw [hbody]; decide)
  · exact not_stands_of_parent hancestors (by rw [hpair]; decide)

end Occurrence

/-! ### Variables and other mentions -/

/-- An identifier with a text is a target on the left side of an assignment: it belongs to no
attribute and to no entry of an object. -/
def Node.Targets (src : Source) (name : String) (left : Node) : Prop :=
  left.kind ∉ fieldTargetKinds ∧ ∃ path o,
    Occurrence.ReachesThrough (fun n ↦ n.kind ∉ fieldTargetKinds) ⟨left, []⟩ path o ∧
      o.node.kind = "identifier" ∧ src.text o.node = name

namespace Tree

variable {src : Source} {t : Tree} {path : List Nat} {x : Occurrence}

/-- An identifier stands as a statement or as an argument at a place of a tree. -/
structure NameOccurs (t : Tree) (path : List Nat) (x : Occurrence) : Prop where
  reaches : Occurrence.Reaches ⟨t.root, []⟩ path x
  kind_eq : x.node.kind = "identifier"
  position : x.IsStatement ∨ x.IsArgument

/-- A parameter or an earlier assignment that is in scope declares a name. -/
def Declared (src : Source) (t : Tree) (path : List Nat) (x : Occurrence) : Prop :=
  (∃ params inner, t.NamedInParameters src path x params inner ∧ ¬ params.InDefaultValue inner) ∨
    ∃ place left, t.AssignedBefore src path x place left ∧ ¬ t.InFinishedBlock path place ∧
      left.Targets src (src.text x.node)

/-- A parameter list in scope mentions a name, or an earlier assignment in scope does on its left
side. -/
def Mentioned (src : Source) (t : Tree) (path : List Nat) (x : Occurrence) : Prop :=
  (∃ params inner, t.NamedInParameters src path x params inner) ∨
    ∃ place left, t.AssignedBefore src path x place left

theorem Declared.mentioned (h : t.Declared src path x) : t.Mentioned src path x := by
  rcases h with ⟨params, inner, hnamed, -⟩ | ⟨place, left, hassigned, -⟩
  · exact Or.inl ⟨params, inner, hnamed⟩
  · exact Or.inr ⟨place, left, hassigned⟩

theorem not_mentioned_iff : ¬ t.Mentioned src path x ↔
    (∀ params inner, ¬ t.NamedInParameters src path x params inner) ∧
      ∀ place left, ¬ t.AssignedBefore src path x place left := by
  simp only [Mentioned, not_or, not_exists]

/-- Nothing mentions a name where no open node has parameters and no assignment of the tree mentions
the name. -/
theorem not_mentioned_of_nil (h : t.NameOccurs path x)
    (hparams : ∀ n ∈ enclosing x.ancestors, n.child? "parameters" = none)
    (hnil : t.assignments src (src.text x.node) = []) : ¬ t.Mentioned src path x := by
  have hscope : x.node.isScope = false := by
    rw [Node.isScope, h.kind_eq]
    decide
  exact not_mentioned_iff.mpr ⟨not_namedInParameters_of_enclosing h.reaches hscope hparams,
    not_assignedBefore hnil⟩

/-- A name that is not overlooked stands alone. -/
theorem NameOccurs.nameStands (h : t.NameOccurs path x) (hknown : ¬ x.Overlooked) :
    t.NameStands path x := by
  refine ⟨h.reaches, h.kind_eq, ?_⟩
  rcases h.position with (⟨parent, hparent, hmem⟩ | hloop) | (⟨parent, hparent, hlist⟩ | hvalue)
  · have hsubset : ∀ kind ∈ statementKinds, kind ∈ standingKinds := by decide
    exact ⟨parent, hparent, hsubset _ hmem⟩
  · exact absurd (Or.inl hloop) hknown
  · exact ⟨parent, hparent, by rw [hlist]; decide⟩
  · exact absurd (Or.inr hvalue) hknown

/-- A name that stands as a statement or as an argument is a call exactly when nothing in scope
declares it, nothing that only mentions it counts as its declaration, and it stands neither right
below the body of a loop nor behind the label of a bare keyword. -/
theorem call_iff_position_is_known (src : Source) (t : Tree) (path : List Nat) (x : Occurrence)
    (h : t.NameOccurs path x) :
    t.CallIff src path x
      (¬ t.Declared src path x ∧ ¬ (t.Mentioned src path x ∧ ¬ t.Declared src path x) ∧
        ¬ x.Overlooked) := by
  refine callIff_of_identifier h.reaches h.kind_eq ?_
  by_cases hoverlooked : x.Overlooked
  · have hcall : x.isBareCall src = false := by
      rw [Occurrence.isBareCall, hoverlooked.stands_eq, Bool.and_false, Bool.false_and]
    rw [hcall]
    exact iff_of_false Bool.false_ne_true fun hseen ↦ hseen.2.2 hoverlooked
  · rw [(h.nameStands hoverlooked).isBareCall_iff, ← not_mentioned_iff]
    constructor
    · intro hnone
      exact ⟨fun hdeclared ↦ hnone hdeclared.mentioned, fun hmentioned ↦ hnone hmentioned.1,
        hoverlooked⟩
    · rintro ⟨hdeclared, hmistaken, -⟩ hmentioned
      exact hmistaken ⟨hmentioned, hdeclared⟩

/-! ### A name in a loop and one behind a label -/

namespace LoopAndLabel

def text : Source :=
  Text.Codec.utf8.source "while true\n  f\nend\ng k: f\nf".toUTF8.toList

def body : Node where
  kind := "do"
  role := some "body"
  start := 10
  stop := 18
  children := [letterAt 13 1 none]

def loop : Node where
  kind := "while"
  stop := 18
  children := [{ kind := "true", role := some "condition", start := 6, stop := 10 }, body]

def pair : Node where
  kind := "pair"
  start := 21
  stop := 25
  row := 3
  children := [
    { kind := "hash_key_symbol", role := some "key", start := 21, stop := 22, row := 3 },
    { kind := ":", named := false, start := 22, stop := 23, row := 3 },
    letterAt 24 3 (some "value")]

def list : Node where
  kind := "argument_list"
  role := some "arguments"
  start := 21
  stop := 25
  row := 3
  children := [pair]

def call : Node where
  kind := "call"
  start := 19
  stop := 25
  row := 3
  children := [letterAt 19 3 (some "method"), list]

/-- A loop, a call with a keyword, and behind them a name on a line of its own. -/
def program : Tree where
  root := { kind := "program", stop := 27, children := [loop, call, letterAt 26 4 none] }

def inLoop : Occurrence :=
  ⟨letterAt 13 1 none, [body, loop, program.root]⟩

def behindLabel : Occurrence :=
  ⟨letterAt 24 3 (some "value"), [pair, list, call, program.root]⟩

def onItsOwn : Occurrence :=
  ⟨letterAt 26 4 none, [program.root]⟩

theorem nameOccurs_inLoop : program.NameOccurs [0, 1, 0] inLoop where
  reaches := .step rfl rfl (.step rfl rfl (.step rfl rfl (.here _)))
  kind_eq := rfl
  position := Or.inl (Or.inr ⟨body, loop, _, rfl, rfl, by decide⟩)

theorem nameOccurs_behindLabel : program.NameOccurs [1, 1, 0, 2] behindLabel where
  reaches := .step rfl rfl (.step rfl rfl (.step rfl rfl (.step rfl rfl (.here _))))
  kind_eq := rfl
  position := Or.inr (Or.inr ⟨rfl, pair, list, _, rfl, rfl, rfl⟩)

theorem nameOccurs_onItsOwn : program.NameOccurs [2] onItsOwn where
  reaches := .step rfl rfl (.here _)
  kind_eq := rfl
  position := Or.inl (Or.inl ⟨_, rfl, by decide⟩)

/-- In the program nothing mentions a name that occurs. -/
theorem not_mentioned {path : List Nat} {x : Occurrence} (h : program.NameOccurs path x)
    (henclosing : enclosing x.ancestors = [program.root])
    (hnil : (program.assignments text (text.text x.node)).isEmpty = true) :
    ¬ program.Mentioned text path x := by
  refine not_mentioned_of_nil h ?_ (List.isEmpty_iff.mp hnil)
  intro n hn
  rw [henclosing] at hn
  rw [List.mem_singleton.mp hn]
  rfl

/-- In a loop and behind a label a name is not seen as a call, although nothing in the program
mentions it but the calls themselves. -/
theorem overlooked_positions_hide_calls :
    program.NameOccurs [0, 1, 0] inLoop ∧ program.NameOccurs [1, 1, 0, 2] behindLabel ∧
      ¬ program.Mentioned text [0, 1, 0] inLoop ∧
      ¬ program.Mentioned text [1, 1, 0, 2] behindLabel ∧
      inLoop.isBareCall text = false ∧ behindLabel.isBareCall text = false ∧
      program.callSites text =
        [⟨"g", [⟨"hash", ⟨"k: f", true, true, ["k:"], false⟩⟩], 4, "g k: f"⟩,
          ⟨"f", [], 5, "f"⟩] := by
  refine ⟨nameOccurs_inLoop, nameOccurs_behindLabel, ?_, ?_, by decide +kernel, by decide +kernel,
    by decide +kernel⟩
  · exact not_mentioned nameOccurs_inLoop rfl (by decide +kernel)
  · exact not_mentioned nameOccurs_behindLabel rfl (by decide +kernel)

/-- The same name on a line of its own is seen as a call. -/
theorem call_iff_position_is_known_of_own_line :
    program.NameOccurs [2] onItsOwn ∧ onItsOwn.isBareCall text = true ∧
      ([2], ⟨"f", [], 5, "f"⟩) ∈ program.placedCallSites text := by
  have hmentioned : ¬ program.Mentioned text [2] onItsOwn :=
    not_mentioned nameOccurs_onItsOwn rfl (by decide +kernel)
  have hknown : ¬ onItsOwn.Overlooked := by
    rintro (⟨_, _, _, hancestors, -⟩ | ⟨hrole, -⟩)
    · exact absurd hancestors nofun
    · exact absurd hrole nofun
  have hcall := call_iff_position_is_known text _ _ _ nameOccurs_onItsOwn
  have hseen : ¬ program.Declared text [2] onItsOwn ∧
      ¬ (program.Mentioned text [2] onItsOwn ∧ ¬ program.Declared text [2] onItsOwn) ∧
        ¬ onItsOwn.Overlooked :=
    ⟨fun hdeclared ↦ hmentioned hdeclared.mentioned, fun h ↦ hmentioned h.1, hknown⟩
  exact ⟨nameOccurs_onItsOwn, hcall.isBareCall_iff.mpr hseen,
    (hcall.mem_callSites_iff _).mpr ⟨hseen, by decide +kernel⟩⟩

end LoopAndLabel

end Tree

end CallBinding
