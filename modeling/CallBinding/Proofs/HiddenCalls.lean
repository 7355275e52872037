import CallBinding.Proofs.NamesInScope

/-!
Calls that are hidden by names that are no variables. What counts as declared at a name is wider
than what the language declares there: an assignment hides later calls even when the block in which
it stands has ended (`call_iff_no_finished_block_assigns`) and when its target is an attribute or an
entry and only mentions the name (`call_iff_no_field_target_mentions`), and a parameter list hides
calls of the names that its default values mention (`call_iff_no_default_value_mentions`).

Each theorem says what it takes for a name to be seen as a call: that no variable of the name is in
scope, and besides that nothing counts as one by mistake. The second part cannot be left out, as a
small program behind each theorem shows.
-/

set_option autoImplicit false
set_option relaxedAutoImplicit false

namespace CallBinding

/-- There is nothing of a kind when there is nothing of it without a property nor with it. -/
theorem forall_not_iff_split {α β : Type} {p q : α → β → Prop} : (∀ a b, ¬ p a b) ↔
    (¬ ∃ a b, p a b ∧ ¬ q a b) ∧ ¬ ∃ a b, p a b ∧ q a b := by
  constructor
  · intro hnone
    refine ⟨?_, ?_⟩
    · rintro ⟨a, b, hp, -⟩
      exact hnone a b hp
    · rintro ⟨a, b, hp, -⟩
      exact hnone a b hp
  · rintro ⟨hwithout, hwith⟩ a b hp
    by_cases hq : q a b
    · exact hwith ⟨a, b, hp, hq⟩
    · exact hwithout ⟨a, b, hp, hq⟩

/-! ### A statement and two names -/

/-- An identifier of one letter. -/
def letterAt (start row : Nat) (role : Option String) : Node :=
  { kind := "identifier", role := role, start := start, stop := start + 1, row := row }

namespace Tree.NamesBehind

variable (statement : Node) (start : Nat)

/-- A program of one statement, and behind it a name of one letter on each of two lines. -/
def program : Tree where
  root :=
    { kind := "program"
      stop := start + 3
      children := [statement, letterAt start 1 none, letterAt (start + 2) 2 none] }

def firstName : Occurrence :=
  ⟨letterAt start 1 none, [(program statement start).root]⟩

def secondName : Occurrence :=
  ⟨letterAt (start + 2) 2 none, [(program statement start).root]⟩

theorem nameStands_firstName :
    (program statement start).NameStands [1] (firstName statement start) where
  reaches := .step rfl rfl (.here _)
  kind_eq := rfl
  parent_mem := ⟨_, rfl, List.mem_cons_self⟩

theorem nameStands_secondName :
    (program statement start).NameStands [2] (secondName statement start) where
  reaches := .step rfl rfl (.here _)
  kind_eq := rfl
  parent_mem := ⟨_, rfl, List.mem_cons_self⟩

variable {statement : Node} {start : Nat}

/-- A program has no parameters. -/
theorem child?_parameters_eq_none (hrole : statement.role = none) :
    ∀ n ∈ enclosing [(program statement start).root], n.child? "parameters" = none := by
  intro n hn
  have henclosing : enclosing [(program statement start).root] =
      [(program statement start).root] := rfl
  rw [henclosing] at hn
  rw [List.mem_singleton.mp hn]
  simp [Node.child?, program, letterAt, hrole]

end Tree.NamesBehind

/-! ### Assignments in blocks that have ended -/

/-- A place lies in a block that another place does not lie in, and that has ended before it when
the place comes first. -/
def Tree.InFinishedBlock (t : Tree) (path place : List Nat) : Prop :=
  ∃ outer block, Occurrence.Reaches ⟨t.root, []⟩ outer block ∧ block.node.isBlock = true ∧
    outer <+: place ∧ ¬ outer <+: path

/-- A name that stands alone is a call exactly when no parameter list in scope mentions it, and no
earlier assignment in scope does, neither outside of blocks that have ended nor, though it could
declare no variable there, inside of one. -/
theorem Tree.call_iff_no_finished_block_assigns (src : Source) (t : Tree) (path : List Nat)
    (x : Occurrence) (h : t.NameStands path x) :
    t.CallIff src path x
      ((∀ params inner, ¬ t.NamedInParameters src path x params inner) ∧
        (¬ ∃ place left,
          t.AssignedBefore src path x place left ∧ ¬ t.InFinishedBlock path place) ∧
        ¬ ∃ place left, t.AssignedBefore src path x place left ∧ t.InFinishedBlock path place) :=
  h.callIff (h.isBareCall_iff.trans (and_congr_right fun _ ↦ forall_not_iff_split))

namespace Tree.AssignedInBlock

open NamesBehind

def text : Source :=
  Text.Codec.utf8.source "g { f = 1 }\nf\nk".toUTF8.toList

def block : Node where
  kind := "block"
  role := some "block"
  start := 2
  stop := 11
  children := [
    { kind := "block_body"
      role := some "body"
      start := 4
      stop := 9
      children := [
        { kind := "assignment"
          start := 4
          stop := 9
          children := [
            letterAt 4 0 (some "left"),
            { kind := "integer", role := some "right", start := 8, stop := 9 }] }] }]

/-- A call with a block that assigns to a name. -/
def statement : Node :=
  { kind := "call", stop := 11, children := [letterAt 0 0 (some "method"), block] }

/-- Behind a block that assigns to a name and has ended, the name is not seen as a call, although no
parameter list mentions it and all assignments that mention it stand in the block. -/
theorem finished_block_hides_call :
    (program statement 12).NameStands [1] (firstName statement 12) ∧
      (∀ params inner,
        ¬ (program statement 12).NamedInParameters text [1] (firstName statement 12) params inner) ∧
      (∀ place left,
        (program statement 12).AssignedBefore text [1] (firstName statement 12) place left →
          (program statement 12).InFinishedBlock [1] place) ∧
      (firstName statement 12).isBareCall text = false ∧
      (program statement 12).callSites text =
        [⟨"g", [], 1, "g { f = 1 }"⟩, ⟨"k", [], 3, "k"⟩] := by
  have hstands := nameStands_firstName statement 12
  refine ⟨hstands, hstands.not_namedInParameters (child?_parameters_eq_none rfl), ?_,
    by decide +kernel, by decide +kernel⟩
  intro place left hassigned
  obtain ⟨a, ha, -⟩ := hassigned.exists_mem_assignments
  have hplaces : ((program statement 12).assignments text
      (text.text (firstName statement 12).node)).map Prod.fst = [[0, 1, 0, 0]] := by
    decide +kernel
  have hplace : place ∈ [[0, 1, 0, 0]] := hplaces ▸ List.mem_map_of_mem ha
  rw [List.mem_singleton.mp hplace]
  exact ⟨[0, 1], _, .step rfl rfl (.step rfl rfl (.here _)), by decide, by decide, by decide⟩

/-- A name that is not mentioned in the block is seen as a call. -/
theorem call_iff_no_finished_block_assigns_of_other_name :
    (program statement 12).NameStands [2] (secondName statement 12) ∧
      (secondName statement 12).isBareCall text = true ∧
      ([2], ⟨"k", [], 3, "k"⟩) ∈ (program statement 12).placedCallSites text := by
  have hstands := nameStands_secondName statement 12
  have hnil : (program statement 12).assignments text
      (text.text (secondName statement 12).node) = [] :=
    List.isEmpty_iff.mp (by decide +kernel)
  have hcall := call_iff_no_finished_block_assigns text _ _ _ hstands
  have hbare : (secondName statement 12).isBareCall text = true :=
    hcall.isBareCall_iff.mpr
      ⟨hstands.not_namedInParameters (child?_parameters_eq_none rfl),
        forall_not_iff_split.mp (not_assignedBefore hnil)⟩
  exact ⟨hstands, hbare,
    (hcall.mem_callSites_iff _).mpr ⟨hcall.isBareCall_iff.mp hbare, by decide +kernel⟩⟩

end Tree.AssignedInBlock

/-! ### Assignments to attributes and entries -/

/-- Kinds of assignment targets that are attributes or entries of an object, and no variables. -/
def fieldTargetKinds : List String :=
  ["call", "element_reference"]

/-- A name that stands alone is a call exactly when no parameter list in scope mentions it, and no
earlier assignment in scope does, neither in a target of another kind nor, though it could declare
no variable there, in an attribute or an entry. -/
theorem Tree.call_iff_no_field_target_mentions (src : Source) (t : Tree) (path : List Nat)
    (x : Occurrence) (h : t.NameStands path x) :
    t.CallIff src path x
      ((∀ params inner, ¬ t.NamedInParameters src path x params inner) ∧
        (¬ ∃ place left,
          t.AssignedBefore src path x place left ∧ ¬ left.kind ∈ fieldTargetKinds) ∧
        ¬ ∃ place left, t.AssignedBefore src path x place left ∧ left.kind ∈ fieldTargetKinds) :=
  h.callIff (h.isBareCall_iff.trans (and_congr_right fun _ ↦ forall_not_iff_split))

namespace Tree.AttributeAssigned

open NamesBehind

def text : Source :=
  Text.Codec.utf8.source "self.f = 1\nf\nk".toUTF8.toList

/-- The attribute that is assigned to. -/
def target : Node where
  kind := "call"
  role := some "left"
  stop := 6
  children := [
    { kind := "self", role := some "receiver", stop := 4 },
    letterAt 5 0 (some "method")]

def statement : Node where
  kind := "assignment"
  stop := 10
  children := [target, { kind := "integer", role := some "right", start := 9, stop := 10 }]

/-- Behind an assignment to an attribute, its name is not seen as a call, although no parameter list
mentions it and all assignments that mention it are to the attribute. -/
theorem attribute_assignment_hides_call :
    (program statement 11).NameStands [1] (firstName statement 11) ∧
      (∀ params inner,
        ¬ (program statement 11).NamedInParameters text [1] (firstName statement 11) params inner) ∧
      (∀ place left,
        (program statement 11).AssignedBefore text [1] (firstName statement 11) place left →
          left.kind ∈ fieldTargetKinds) ∧
      (firstName statement 11).isBareCall text = false ∧
      (program statement 11).callSites text = [⟨"f", [], 1, "self.f"⟩, ⟨"k", [], 3, "k"⟩] := by
  have hstands := nameStands_firstName statement 11
  refine ⟨hstands, hstands.not_namedInParameters (child?_parameters_eq_none rfl), ?_,
    by decide +kernel, by decide +kernel⟩
  intro place left hassigned
  obtain ⟨a, ha, hleft⟩ := hassigned.exists_mem_assignments
  have htargets : (((program statement 11).assignments text
      (text.text (firstName statement 11).node)).map fun place ↦
        (place.2.node.child? "left").map Node.kind) = [some "call"] := by
    decide +kernel
  have htarget : (a.node.child? "left").map Node.kind ∈ [some "call"] :=
    htargets ▸ List.mem_map_of_mem ha
  rw [hleft, List.mem_singleton] at htarget
  injection htarget with hkind
  rw [hkind]
  exact List.mem_cons_self

/-- A name that is not mentioned in the target is seen as a call. -/
theorem call_iff_no_field_target_mentions_of_other_name :
    (program statement 11).NameStands [2] (secondName statement 11) ∧
      (secondName statement 11).isBareCall text = true ∧
      ([2], ⟨"k", [], 3, "k"⟩) ∈ (program statement 11).placedCallSites text := by
  have hstands := nameStands_secondName statement 11
  have hnil : (program statement 11).assignments text
      (text.text (secondName statement 11).node) = [] :=
    List.isEmpty_iff.mp (by decide +kernel)
  have hcall := call_iff_no_field_target_mentions text _ _ _ hstands
  have hbare : (secondName statement 11).isBareCall text = true :=
    hcall.isBareCall_iff.mpr
      ⟨hstands.not_namedInParameters (child?_parameters_eq_none rfl),
        forall_not_iff_split.mp (not_assignedBefore hnil)⟩
  exact ⟨hstands, hbare,
    (hcall.mem_callSites_iff _).mpr ⟨hcall.isBareCall_iff.mp hbare, by decide +kernel⟩⟩

end Tree.AttributeAssigned

/-! ### Default values of parameters -/

/-- Kinds of parameters that can have a default value. -/
def defaultedKinds : List String :=
  ["optional_parameter", "keyword_parameter"]

/-- A path below a parameter list goes into the default value of a parameter. -/
def Node.InDefaultValue (params : Node) (path : List Nat) : Prop :=
  ∃ outer p i value, Occurrence.Reaches ⟨params, []⟩ outer p ∧ p.node.kind ∈ defaultedKinds ∧
    p.node.children[i]? = some value ∧ value.role = some "value" ∧ (outer ++ [i]) <+: path

/-- A name that stands alone is a call exactly when no earlier assignment in scope mentions it, and
no parameter list in scope does, neither outside of the default values nor, though it could declare
no parameter there, inside of one. -/
theorem Tree.call_iff_no_default_value_mentions (src : Source) (t : Tree) (path : List Nat)
    (x : Occurrence) (h : t.NameStands path x) :
    t.CallIff src path x
      ((∀ place left, ¬ t.AssignedBefore src path x place left) ∧
        (¬ ∃ params inner,
          t.NamedInParameters src path x params inner ∧ ¬ params.InDefaultValue inner) ∧
        ¬ ∃ params inner,
          t.NamedInParameters src path x params inner ∧ params.InDefaultValue inner) :=
  h.callIff (h.isBareCall_iff.trans (and_comm.trans (and_congr_right fun _ ↦ forall_not_iff_split)))

namespace Tree.NamedInDefault

def text : Source :=
  Text.Codec.utf8.source "def g(a = f)\n  f\n  k\nend".toUTF8.toList

def parameters : Node where
  kind := "method_parameters"
  role := some "parameters"
  start := 5
  stop := 12
  children := [
    { kind := "optional_parameter"
      start := 6
      stop := 11
      children := [letterAt 6 0 (some "name"), letterAt 10 0 (some "value")] }]

def body : Node where
  kind := "body_statement"
  role := some "body"
  start := 15
  stop := 20
  row := 1
  children := [letterAt 15 1 none, letterAt 19 2 none]

def method : Node where
  kind := "method"
  stop := 24
  children := [letterAt 4 0 (some "name"), parameters, body]

def program : Tree where
  root := { kind := "program", stop := 24, children := [method] }

/-- The name that the default value mentions, in the body. -/
def mentioned : Occurrence :=
  ⟨letterAt 15 1 none, [body, method, program.root]⟩

/-- A name that the body alone mentions. -/
def other : Occurrence :=
  ⟨letterAt 19 2 none, [body, method, program.root]⟩

theorem nameStands_mentioned : program.NameStands [0, 2, 0] mentioned where
  reaches := .step rfl rfl (.step rfl rfl (.step rfl rfl (.here _)))
  kind_eq := rfl
  parent_mem := ⟨_, rfl, by decide⟩

theorem nameStands_other : program.NameStands [0, 2, 1] other where
  reaches := .step rfl rfl (.step rfl rfl (.step rfl rfl (.here _)))
  kind_eq := rfl
  parent_mem := ⟨_, rfl, by decide⟩

/-- The parameters of the method are all that is in scope in its body. -/
theorem eq_parameters {path : List Nat} {x : Occurrence} {params : Node}
    (h : program.NameStands path x) (habove : x.ancestors = [body, method, program.root])
    (hparams : program.ParametersAt path x params) : params = parameters := by
  obtain ⟨n, hn, hchild⟩ := (parametersAt_iff h.reaches h.isScope_eq).mp hparams
  have henclosing : enclosing [body, method, program.root] = [method] := rfl
  rw [habove, henclosing] at hn
  rw [List.mem_singleton.mp hn] at hchild
  exact (Option.some_inj.mp hchild).symm

/-- The places of the identifiers with a text in the parameters of the method. -/
def placesOf (name : String) : List (List Nat × Occurrence) :=
  (parameters.located []).filter fun place ↦
    place.2.node.kind = "identifier" && text.text place.2.node = name

theorem exists_mem_placesOf {name : String} {inner : List Nat}
    (h : parameters.NamedAt text name inner) : ∃ o, (inner, o) ∈ placesOf name := by
  obtain ⟨o, ho, hidentifier⟩ := h
  exact ⟨o, List.mem_filter.mpr ⟨Node.mem_located_iff.mpr ho, by simpa using hidentifier⟩⟩

/-- In a method, a name that a default value of its parameters mentions is not seen as a call,
although no assignment mentions it and no parameter has it. -/
theorem default_value_hides_call :
    program.NameStands [0, 2, 0] mentioned ∧
      (∀ place left, ¬ program.AssignedBefore text [0, 2, 0] mentioned place left) ∧
      (∀ params inner, program.NamedInParameters text [0, 2, 0] mentioned params inner →
        params.InDefaultValue inner) ∧
      mentioned.isBareCall text = false ∧
      program.callSites text = [⟨"k", [], 3, "k"⟩] := by
  have hnil : program.assignments text (text.text mentioned.node) = [] :=
    List.isEmpty_iff.mp (by decide +kernel)
  refine ⟨nameStands_mentioned, not_assignedBefore hnil, ?_, by decide +kernel, by decide +kernel⟩
  rintro params inner ⟨hparams, hnamed⟩
  rw [eq_parameters nameStands_mentioned rfl hparams] at hnamed ⊢
  obtain ⟨o, ho⟩ := exists_mem_placesOf hnamed
  have hplaces : (placesOf (text.text mentioned.node)).map Prod.fst = [[0, 1]] := by
    decide +kernel
  have hinner : inner ∈ [[0, 1]] := hplaces ▸ List.mem_map_of_mem ho
  rw [List.mem_singleton.mp hinner]
  exact ⟨[0], _, 1, letterAt 10 0 (some "value"), .step rfl rfl (.here _), by decide, rfl, rfl,
    by decide⟩

/-- A name that the parameters do not mention is seen as a call. -/
theorem call_iff_no_default_value_mentions_of_other_name :
    program.NameStands [0, 2, 1] other ∧ other.isBareCall text = true ∧
      ([0, 2, 1], ⟨"k", [], 3, "k"⟩) ∈ program.placedCallSites text := by
  have hnil : program.assignments text (text.text other.node) = [] :=
    List.isEmpty_iff.mp (by decide +kernel)
  have hnone : ∀ params inner,
      ¬ program.NamedInParameters text [0, 2, 1] other params inner := by
    rintro params inner ⟨hparams, hnamed⟩
    rw [eq_parameters nameStands_other rfl hparams] at hnamed
    obtain ⟨o, ho⟩ := exists_mem_placesOf hnamed
    have hplaces : placesOf (text.text other.node) = [] :=
      List.isEmpty_iff.mp (by decide +kernel)
    rw [hplaces] at ho
    exact absurd ho List.not_mem_nil
  have hcall := call_iff_no_default_value_mentions text _ _ _ nameStands_other
  have hbare : other.isBareCall text = true :=
    hcall.isBareCall_iff.mpr ⟨not_assignedBefore hnil, forall_not_iff_split.mp hnone⟩
  exact ⟨nameStands_other, hbare,
    (hcall.mem_callSites_iff _).mpr ⟨hcall.isBareCall_iff.mp hbare, by decide +kernel⟩⟩

end Tree.NamedInDefault

end CallBinding
