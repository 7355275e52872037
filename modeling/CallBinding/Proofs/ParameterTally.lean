import CallBinding.Proofs.ArityRule
import CallBinding.Proofs.Declarations
import CallBinding.Proofs.Decoding
import Mathlib.Data.List.Basic

/-!
The arity of a method read off the nodes of its parameter list. Sorting the nodes into slots depends
on their order, because a required parameter goes to the front or to the back according to what
stands before it, and a forwarding parameter fills two slots. The arity does not: it is a tally of
the nodes by kind (`Arity.ofNodes`), to which each node adds its own share when the parameters that
it declares are put into their slots (`arity_foldl_put`), so that sorting a whole list gives the
tally of the list (`arity_foldlM_add`).
-/

set_option autoImplicit false
set_option relaxedAutoImplicit false

namespace CallBinding

namespace Arity

/-- The tally of the nodes of a parameter list, wherever each of them stands. -/
def ofNodes (nodes : List Node) : Arity where
  required := nodes.countP fun n ↦ n.kind = "identifier" || n.kind = "destructured_parameter"
  optional := nodes.countP fun n ↦ n.kind = "optional_parameter"
  splat := nodes.any fun n ↦ n.kind = "splat_parameter" || n.kind = "forward_parameter"
  takesKeywords := nodes.any fun n ↦ n.kind = "keyword_parameter"
    || n.kind = "hash_splat_parameter" || n.kind = "forward_parameter"
  requiresKeywords := nodes.any fun n ↦ n.kind = "keyword_parameter"
    && (n.child? "value").isNone

end Arity

/-- The tally of the parameters of a method definition. -/
def Node.tally (definition : Node) : Arity :=
  Arity.ofNodes definition.parameterNodes

namespace Arity

/-- The arity of two parameter lists together. -/
def join (a b : Arity) : Arity where
  required := a.required + b.required
  optional := a.optional + b.optional
  splat := a.splat || b.splat
  takesKeywords := a.takesKeywords || b.takesKeywords
  requiresKeywords := a.requiresKeywords || b.requiresKeywords

theorem join_assoc (a b c : Arity) : (a.join b).join c = a.join (b.join c) := by
  simp [join, Nat.add_assoc, Bool.or_assoc]

theorem join_ofNodes_nil (a : Arity) : a.join (ofNodes []) = a := by
  simp [join, ofNodes]

theorem ofNodes_cons (n : Node) (nodes : List Node) :
    ofNodes (n :: nodes) = (ofNodes [n]).join (ofNodes nodes) := by
  simp [join, ofNodes, List.countP_cons, Nat.add_comm]

end Arity

namespace ParamsDraft

variable {src : Source} {draft next : ParamsDraft} {n : Node}

/-- The arity of the slots that are collected so far. -/
def arity (d : ParamsDraft) : Arity where
  required := d.normal.length + d.postRest.length
  optional := d.optional.length
  splat := d.rest.isSome
  takesKeywords := !d.keyword.isEmpty || d.keywordRest.isSome
  requiresKeywords := d.keyword.any KeywordParam.required

/-- A required parameter counts the same in front and at the back. -/
theorem arity_addRequired (d : ParamsDraft) (name : String) :
    (d.addRequired name).arity = { d.arity with required := d.arity.required + 1 } := by
  unfold addRequired
  split_ifs
  · simp [arity, Nat.add_assoc]
  · simp [arity, Nat.add_right_comm]

/-- The parameters that a node declares add the tally of that node. -/
theorem arity_foldl_put {params : List Param} (hn : src.Declares n params) :
    (params.foldl put draft).arity = draft.arity.join (Arity.ofNodes [n]) := by
  cases hn with
  | required hkind =>
    rw [List.foldl_cons, List.foldl_nil, put, arity_addRequired]
    obtain hkind | hkind := Node.isRequired_iff.mp hkind
    all_goals simp [Arity.join, Arity.ofNodes, hkind]
  | @keyword k hkind h =>
    obtain ⟨-, -, -, hdefault⟩ := h
    simp [put, arity, Arity.join, Arity.ofNodes, hkind, KeywordParam.required, hdefault]
  | nothing hkind =>
    -- a node of any other kind is passed over, and counts nowhere
    have hnone : Arity.ofNodes [n] = Arity.ofNodes [] := by
      simp [Arity.ofNodes, Node.hasSlot_eq_false_iff.mp hkind]
    rw [hnone, Arity.join_ofNodes_nil]
    rfl
  | _ hkind => simp [put, arity, Arity.join, Arity.ofNodes, hkind]

/-- Sorting a list of nodes adds the tally of the list. -/
theorem arity_foldlM_add {nodes : List Node} (h : nodes.foldlM (add src.reader) draft = .ok next) :
    next.arity = draft.arity.join (Arity.ofNodes nodes) := by
  induction nodes generalizing draft with
  | nil =>
    injection h with h
    rw [← h, Arity.join_ofNodes_nil]
  | cons n rest ih =>
    rw [List.foldlM_cons] at h
    obtain ⟨middle, hfirst, hrest⟩ := bind_eq_ok_iff.mp h
    obtain ⟨params, hn, rfl⟩ := add_eq_ok_iff.mp hfirst
    rw [ih hrest, arity_foldl_put hn, Arity.join_assoc, ← Arity.ofNodes_cons]

theorem arity_finish {d : ParamsDraft} {p : Params} (h : d.finish = .ok p) :
    p.arity = d.arity := by
  unfold finish at h
  split_ifs at h
  injection h with h
  rw [← h]
  rfl

end ParamsDraft

namespace Params

/-- The slots of a parameter list have the arity that is tallied from its nodes. -/
theorem arity_ofNodes {src : Source} {nodes : List Node} {p : Params}
    (h : ofNodes src nodes = .ok p) : p.arity = Arity.ofNodes nodes := by
  obtain ⟨draft, hdraft, hfinish⟩ := bind_eq_ok_iff.mp h
  have htally := ParamsDraft.arity_foldlM_add hdraft
  have hempty : ParamsDraft.arity {} = ⟨0, 0, false, false, false⟩ := rfl
  split at hfinish
  case h_1 params hparams =>
    injection hfinish with hfinish
    rw [← hfinish, ParamsDraft.arity_finish hparams, htally, hempty]
    simp [Arity.join]
  case h_2 => exact absurd hfinish nofun

/-- The required slots taken from the front and from the back in other shares. -/
def redivide (p : Params) (normal postRest : List String) : Params :=
  { p with normal := normal, postRest := postRest }

theorem arity_redivide {p : Params} {normal postRest : List String}
    (h : normal.length + postRest.length = p.normal.length + p.postRest.length) :
    (p.redivide normal postRest).arity = p.arity := by
  simp only [arity, redivide, h]
  rfl

end Params

namespace MethodDef

/-- The arity rule holds from the nodes of a parameter list to the outcome of a call. When a text
defines a method, the tally of its parameter nodes decides which calls by its name bind: `required`
counts the required parameters wherever they stand, and an argument is usable when it passes the
check of the keyword hash. In particular a splat takes any number of further arguments when no
keyword is required, and the division of the required parameters between front and back is of no
consequence. -/
theorem bindable_iff_tally_allows (codecs : Text.Codecs) (settings : Settings) (parse : Parse)
    (text : String) (d : MethodDef) (h : build codecs settings parse text = .ok d) :
    ∃ e definition, settings.encoded codecs (text ++ settings.terminator) = .ok e ∧
      (parse e.bytes).definition = .ok definition ∧
      (∀ args, (d.bind d.name args).bindable = true ↔
        definition.tally.Allows d.params.Usable args) ∧
      (definition.tally.splat = true → definition.tally.requiresKeywords = false →
        ∀ args : List ArgumentFacts, definition.tally.required ≤ args.length →
          (d.bind d.name args).bindable = true) ∧
      ∀ normal postRest : List String,
        normal.length + postRest.length = d.params.normal.length + d.params.postRest.length →
          ∀ args, ({ d with params := d.params.redivide normal postRest }.bind d.name args).bindable
            = (d.bind d.name args).bindable := by
  obtain ⟨e, definition, he, hdefinition, -, hparams⟩ := exists_source_of_build h
  have harity : d.params.arity = definition.tally := Params.arity_ofNodes hparams
  have hbind (args : List ArgumentFacts) : (d.bind d.name args).bindable = true ↔
      d.params.arity.Allows d.params.Usable args := by
    rw [bindable_bind_iff_allows]
    exact and_iff_right rfl
  refine ⟨e, definition, he, hdefinition, ?_, ?_, ?_⟩
  · rw [← harity]
    exact hbind
  · rw [← harity]
    intro hsplat hrequires args hcount
    rw [hbind, Params.arity_allows_iff]
    exact Or.inl ⟨hrequires, hcount, Or.inl hsplat⟩
  · intro normal postRest hsame args
    rw [Bool.eq_iff_iff, hbind, bindable_bind_iff_allows, Params.arity_redivide hsame]
    exact and_iff_right rfl

end MethodDef

/-- The node of the method in `def f(a, *r, z); end`. -/
def splatMethod : Node where
  kind := "method"
  children := [
    { kind := "identifier", role := some "name", start := 4, stop := 5 },
    { kind := "method_parameters"
      role := some "parameters"
      children := [
        { kind := "identifier", start := 6, stop := 7 },
        { kind := "splat_parameter"
          children := [{ kind := "identifier", role := some "name", start := 10, stop := 11 }] },
        { kind := "identifier", start := 13, stop := 14 }] }]

/-- The splat between two required parameters takes the two arguments in the middle. -/
theorem MethodDef.bindable_iff_tally_allows_of_splat :
    build .common {} (fun _ ↦ ⟨{ kind := "program", children := [splatMethod] }, false⟩)
        "def f(a, *r, z)" =
      .ok ⟨"f", { normal := ["a"], rest := some "r", postRest := ["z"] }, "def f(a, *r, z)"⟩ ∧
    ((MethodDef.mk "f" { normal := ["a"], rest := some "r", postRest := ["z"] }
      "def f(a, *r, z)").bind "f" [{}, {}, {}, {}]).bindable = true := by
  have hbuild : build .common {} (fun _ ↦ ⟨{ kind := "program", children := [splatMethod] }, false⟩)
        "def f(a, *r, z)" =
      .ok ⟨"f", { normal := ["a"], rest := some "r", postRest := ["z"] }, "def f(a, *r, z)"⟩ := by
    decide +kernel
  obtain ⟨e, definition, -, hdefinition, -, hsplat, -⟩ :=
    bindable_iff_tally_allows _ _ _ _ _ hbuild
  injection hdefinition with hdefinition
  rw [← hdefinition] at hsplat
  exact ⟨hbuild, hsplat rfl rfl [{}, {}, {}, {}] (by decide)⟩

end CallBinding
