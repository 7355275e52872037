import CallBinding.Proofs.ArgumentDivision
import CallBinding.Proofs.CommonEncodings
import CallBinding.Proofs.Decoding
import CallBinding.Proofs.TreeWalk
import Mathlib.Tactic.SplitIfs

/-!
What a report lists. The calls to a method in a program text are the places of its tree that call it
by name (`Occurrence.CallsTo`), each with the arguments that the call passes: those that stand for
themselves, in order, and behind them the one hash that all bare keywords form
(`Node.passedArguments`). A report checks every such place once, in the order of the text, and its
broken checks are those of the places whose arguments cannot be divided among the slots of the
method (`Report.Lists`). `check_lists_broken_calls` puts together the walk, the sorting of arguments
and the arity rule.
-/

set_option autoImplicit false
set_option relaxedAutoImplicit false

namespace CallBinding

/-! ### Arguments -/

namespace Node

/-- An entry of an argument list that is an argument by itself. -/
def IsPositional (entry : Node) : Prop :=
  entry.kind ∉ passedOverKinds ∧ entry.kind ∉ keywordKinds

/-- An entry of an argument list that belongs to the hash. -/
def IsKeyword (entry : Node) : Prop :=
  entry.kind ∈ keywordKinds

instance (entry : Node) : Decidable entry.IsPositional :=
  inferInstanceAs (Decidable (_ ∧ _))

instance (entry : Node) : Decidable entry.IsKeyword :=
  inferInstanceAs (Decidable (_ ∈ _))

/-- The arguments of a call: the positional ones in order, then one hash of all keyword entries when
there are any. -/
def passedArguments (call : Node) : List Argument :=
  match call.child? "arguments" with
  | none => []
  | some list =>
    (list.namedChildren.filter fun e ↦ e.IsPositional).map (fun e ↦ ⟨e, [], false⟩) ++
      match list.namedChildren.filter fun e ↦ e.IsKeyword with
      | [] => []
      | first :: more => [⟨first, more, true⟩]

end Node

/-- Reading further entries appends the positional ones and the keyword ones. -/
theorem Grouping.foldl_add (entries : List Node) (g : Grouping) :
    entries.foldl Grouping.add g =
      ⟨g.positional ++ (entries.filter fun e ↦ e.IsPositional).map fun e ↦ ⟨e, [], false⟩,
        g.keywords ++ entries.filter fun e ↦ e.IsKeyword⟩ := by
  induction entries generalizing g with
  | nil => simp
  | cons e rest ih =>
    rw [List.foldl_cons, ih]
    by_cases hpassed : e.kind ∈ passedOverKinds
    · have hpositional : ¬ e.IsPositional := fun h ↦ h.1 hpassed
      have hkeyword : ¬ e.IsKeyword := by
        have hdisjoint : ∀ kind ∈ passedOverKinds, kind ∉ keywordKinds := by decide
        exact hdisjoint _ hpassed
      simp [Grouping.add, hpassed, hpositional, hkeyword]
    · by_cases hkeyword : e.kind ∈ keywordKinds
      · have hpositional : ¬ e.IsPositional := fun h ↦ h.2 hkeyword
        have hkeyword' : e.IsKeyword := hkeyword
        simp [Grouping.add, hpassed, hkeyword, hpositional, hkeyword']
      · have hpositional : e.IsPositional := ⟨hpassed, hkeyword⟩
        have hkeyword' : ¬ e.IsKeyword := hkeyword
        simp [Grouping.add, hpassed, hkeyword, hpositional, hkeyword']

/-- The arguments of a call are those that it passes. -/
theorem Node.arguments_eq_passedArguments (call : Node) :
    call.arguments = call.passedArguments := by
  unfold arguments passedArguments
  cases call.child? "arguments" with
  | none => rfl
  | some list =>
    simp only [groupArguments, Grouping.arguments, Grouping.foldl_add, List.nil_append]
    congr 1
    cases list.namedChildren.filter fun e ↦ e.IsKeyword with
    | nil => rfl
    | cons first more => rfl

/-! ### Call sites -/

namespace Occurrence

variable {src : Source} {d : MethodDef}

/-- A place is a call to a method by name: a call that names its method so, or an identifier of
that text that stands for a call. -/
def CallsTo (src : Source) (name : String) (o : Occurrence) : Prop :=
  (o.node.kind = "call" ∧ (o.node.child? "method").map src.text = some name) ∨
    (o.node.kind = "identifier" ∧ src.text o.node = name ∧ o.isBareCall src = true)

instance (src : Source) (name : String) (o : Occurrence) : Decidable (o.CallsTo src name) :=
  inferInstanceAs (Decidable (_ ∨ _))

/-- What a place passes when it is a call. A bare identifier passes nothing. -/
def passed (src : Source) (o : Occurrence) : List PassedArgument :=
  if o.node.kind = "call" then o.node.passedArguments.map (Argument.passed src) else []

/-- The facts by which the arguments at a place bind. -/
def passedFacts (src : Source) (o : Occurrence) : List ArgumentFacts :=
  (o.passed src).map PassedArgument.facts

/-- The call to a method by name at a place. -/
def siteOf (src : Source) (name : String) (o : Occurrence) : CallSite where
  name := name
  args := o.passed src
  line := o.node.row + 1
  source := src.text o.node

/-- The check of the call to a method at a place. -/
def checkOf (src : Source) (d : MethodDef) (o : Occurrence) : CallCheck where
  call := o.siteOf src d.name
  outcome := d.bind d.name (o.passedFacts src)

theorem callSite?_of_callsTo {name : String} {o : Occurrence} (h : o.CallsTo src name) :
    o.callSite? src = some (o.siteOf src name) := by
  unfold callSite? siteOf passed
  rcases h with ⟨hkind, hmethod⟩ | ⟨hkind, htext, hbare⟩
  · obtain ⟨method, hmethod, htext⟩ := Option.map_eq_some_iff.mp hmethod
    rw [if_neg (by rw [hkind]; decide), if_pos hkind, if_pos hkind, hmethod, Option.map_some,
      htext, o.node.arguments_eq_passedArguments]
  · rw [if_pos hkind, if_pos hbare, if_neg (by rw [hkind]; decide), htext]

theorem callsTo_of_callSite? {o : Occurrence} {call : CallSite}
    (h : o.callSite? src = some call) : o.CallsTo src call.name := by
  unfold callSite? at h
  split_ifs at h with hidentifier hbare hcall
  · injection h with h
    rw [← h]
    exact Or.inr ⟨hidentifier, rfl, hbare⟩
  · obtain ⟨method, hmethod, hcallSite⟩ := Option.map_eq_some_iff.mp h
    rw [← hcallSite, CallsTo, hmethod]
    exact Or.inl ⟨hcall, rfl⟩

/-- Of the calls at the places of a tree, those by the name of a method are checked. -/
theorem map_filter_callSite? (src : Source) (d : MethodDef) (o : Occurrence) :
    ((o.callSite? src).filter fun call ↦ call.name = d.name).map
        (fun call ↦ CallCheck.mk call (d.bind call.name call.argumentFacts)) =
      if o.CallsTo src d.name then some (o.checkOf src d) else none := by
  by_cases hcalls : o.CallsTo src d.name
  · have hname : (o.siteOf src d.name).name = d.name := rfl
    rw [if_pos hcalls, callSite?_of_callsTo hcalls, Option.filter_some,
      if_pos (decide_eq_true hname)]
    rfl
  · rw [if_neg hcalls]
    cases hsite : o.callSite? src with
    | none => rfl
    | some call =>
      have hname : call.name ≠ d.name := by
        intro hname
        rw [← hname] at hcalls
        exact hcalls (callsTo_of_callSite? hsite)
      simp [hname]

end Occurrence

/-! ### Mismatched names -/

namespace Params

variable (p : Params)

theorem reason_bindTail_ne (args : List ArgumentFacts) :
    (p.bindTail args).reason ≠ some .nameMismatch := by
  unfold bindTail
  dsimp only
  split_ifs <;> simp [Outcome.ok, Outcome.miscounted]

theorem reason_checkKeywordHash_ne (hash : Option ArgumentFacts) :
    (p.checkKeywordHash hash).reason ≠ some .nameMismatch := by
  cases hash with
  | none => exact nofun
  | some arg =>
    unfold checkKeywordHash
    dsimp only
    split_ifs <;> simp [Outcome.ok, Outcome.misnamed]

theorem reason_bindWithHash_ne (args : List ArgumentFacts) :
    (p.bindWithHash args).reason ≠ some .nameMismatch := by
  unfold bindWithHash
  dsimp only
  split_ifs
  · exact p.reason_bindTail_ne _
  · exact p.reason_checkKeywordHash_ne _

theorem reason_bindRemaining_ne (args : List ArgumentFacts) :
    (p.bindRemaining args).reason ≠ some .nameMismatch := by
  unfold bindRemaining
  split_ifs
  · exact p.reason_bindWithHash_ne args
  · exact p.reason_bindWithHash_ne args
  · exact p.reason_bindTail_ne args

end Params

/-- A call is turned down for its name only when it is by another name. -/
theorem MethodDef.reason_bind_eq_nameMismatch_iff (d : MethodDef) (name : String)
    (args : List ArgumentFacts) :
    (d.bind name args).reason = some .nameMismatch ↔ name ≠ d.name := by
  unfold bind
  by_cases hname : name = d.name
  · refine iff_of_false ?_ (not_not_intro hname)
    rw [if_neg (not_not_intro hname)]
    split_ifs
    · exact nofun
    · exact d.params.reason_bindRemaining_ne _
  · rw [if_pos hname]
    exact iff_of_true rfl hname

/-! ### Reports -/

/-- A report lists the calls to a method that stand at some places, each place once and in the order
of the text, and of these those that are broken. -/
structure Report.Lists (r : Report) (d : MethodDef) (src : Source) (t : Tree)
    (sites : List (List Nat × Occurrence)) : Prop where
  definition_eq : r.definition = d
  ordered : sites.Pairwise fun a b ↦ List.Lex (· < ·) a.1 b.1
  mem_iff : ∀ path o, (path, o) ∈ sites ↔
    Occurrence.Reaches ⟨t.root, []⟩ path o ∧ o.CallsTo src d.name
  checks_eq : r.checks = sites.map fun site ↦ site.2.checkOf src d
  broken_eq : r.broken =
    (sites.filter fun site ↦ ¬ Nonempty (d.params.Division (site.2.passedFacts src))).map
      fun site ↦ site.2.checkOf src d
  success_iff : r.success = true ↔
    ∀ site ∈ sites, Nonempty (d.params.Division (site.2.passedFacts src))
  name_matches : ∀ c ∈ r.checks, c.outcome.reason ≠ some .nameMismatch

namespace Report

variable {src : Source} {d : MethodDef} {t : Tree}

/-- The places of a tree that are calls to a method. -/
def sites (src : Source) (name : String) (t : Tree) : List (List Nat × Occurrence) :=
  (t.root.located []).filter fun place ↦ place.2.CallsTo src name

theorem checks_ofTree (d : MethodDef) (src : Source) (t : Tree) :
    (ofTree d src t).checks = (sites src d.name t).map fun site ↦ site.2.checkOf src d := by
  have hplaces : (ofTree d src t).checks =
      (t.root.located []).filterMap fun place ↦
        if place.2.CallsTo src d.name then some (place.2.checkOf src d) else none := by
    simp only [ofTree, Tree.callSites, Node.occurrences_eq_map_located, List.filterMap_map,
      List.filter_filterMap, List.map_filterMap]
    refine List.filterMap_congr fun place _ ↦ ?_
    exact Occurrence.map_filter_callSite? src d place.2
  rw [hplaces, sites, ← List.filterMap_eq_map, List.filterMap_filter]
  simp only [decide_eq_true_eq, Function.comp_apply]

/-- A check of a call to a method passes when the arguments at its place can be divided among the
slots. -/
theorem bindable_checkOf_iff (src : Source) (d : MethodDef) (o : Occurrence) :
    (o.checkOf src d).bindable = true ↔ Nonempty (d.params.Division (o.passedFacts src)) := by
  rw [CallCheck.bindable, Occurrence.checkOf, MethodDef.bindable_bind_iff_allows,
    Params.nonempty_division_iff_allows]
  exact and_iff_right rfl

theorem broken_ofTree (d : MethodDef) (src : Source) (t : Tree) : (ofTree d src t).broken =
    ((sites src d.name t).filter fun site ↦
      ¬ Nonempty (d.params.Division (site.2.passedFacts src))).map
        fun site ↦ site.2.checkOf src d := by
  rw [broken, checks_ofTree, List.filter_map]
  congr 1
  refine List.filter_congr fun site _ ↦ ?_
  rw [Bool.eq_iff_iff, decide_eq_true_iff, ← bindable_checkOf_iff, Function.comp_apply,
    Bool.not_eq_true', Bool.not_eq_true]

theorem mem_sites_iff {path : List Nat} {o : Occurrence} : (path, o) ∈ sites src d.name t ↔
    Occurrence.Reaches ⟨t.root, []⟩ path o ∧ o.CallsTo src d.name := by
  rw [sites, List.mem_filter, Node.mem_located_iff, decide_eq_true_iff]

/-- The report on a tree lists the calls of the tree. -/
theorem lists_ofTree (d : MethodDef) (src : Source) (t : Tree) :
    (ofTree d src t).Lists d src t (sites src d.name t) where
  definition_eq := rfl
  ordered := (Node.pairwise_located [] t.root).filter _
  mem_iff _ _ := mem_sites_iff
  checks_eq := checks_ofTree d src t
  broken_eq := broken_ofTree d src t
  success_iff := by
    rw [success, List.isEmpty_iff, broken_ofTree, List.map_eq_nil_iff, List.filter_eq_nil_iff]
    simp only [decide_eq_true_eq, not_not]
  name_matches := by
    rw [checks_ofTree]
    intro c hc
    obtain ⟨site, -, rfl⟩ := List.mem_map.mp hc
    exact fun hreason ↦ (d.reason_bind_eq_nameMismatch_iff _ _).mp hreason rfl

end Report

/-- A text that the encoding of the settings can write is reported on, unless the encoding fails to
decode some span of what it wrote. The report lists exactly the calls to the method that stand in
the tree of the text, and as broken those of them whose arguments cannot be divided among the slots
of the method. -/
theorem MethodDef.check_lists_broken_calls (codecs : Text.Codecs) (settings : Settings)
    (parse : Parse) (d : MethodDef) (text : String) (e : Encoded)
    (hencoded : settings.encoded codecs text = .ok e) :
    ∃ r sites, r.Lists d e.source (parse e.bytes) sites ∧
      (d.check codecs settings parse text = .ok r ∨
        ∃ start stop f, e.span start stop = .error f ∧
          d.check codecs settings parse text = .error f) := by
  refine ⟨Report.ofTree d e.source (parse e.bytes), Report.sites e.source d.name (parse e.bytes),
    Report.lists_ofTree d e.source (parse e.bytes), ?_⟩
  exact (d.reads_check parse hencoded).ok_or_failed

/-- The node of the call in `f(1)`. -/
def callNode : Node where
  kind := "call"
  stop := 4
  children := [
    { kind := "identifier", role := some "method", stop := 1 },
    { kind := "argument_list"
      role := some "arguments"
      start := 1
      stop := 4
      children := [{ kind := "integer", start := 2, stop := 3 }] }]

/-- A call that passes one argument to a method without parameters is broken. -/
theorem MethodDef.check_lists_broken_calls_of_one_argument :
    ({} : Settings).encoded .common "f(1)" =
        .ok ⟨[102, 40, 49, 41], Text.Codecs.common.decode "utf-8"⟩ ∧
      ∃ r, (MethodDef.mk "f" {} "").check .common {} (fun _ ↦ ⟨callNode, false⟩) "f(1)" = .ok r ∧
        r.success = false := by
  have hencoded : ({} : Settings).encoded .common "f(1)" =
      .ok ⟨[102, 40, 49, 41], Text.Codecs.common.decode "utf-8"⟩ := rfl
  obtain ⟨r, sites, hlists, hr⟩ := check_lists_broken_calls .common {} (fun _ ↦ ⟨callNode, false⟩)
    (MethodDef.mk "f" {} "") "f(1)" _ hencoded
  obtain hr | ⟨start, stop, f, hspan, -⟩ := hr
  case inr =>
    rw [Encoded.span_common (show Text.Codec.named "utf-8" = .ok .utf8 from rfl)] at hspan
    exact absurd hspan nofun
  refine ⟨hencoded, r, hr, ?_⟩
  rw [Bool.eq_false_iff]
  intro hsuccess
  have hsite : ([], ⟨callNode, []⟩) ∈ sites :=
    (hlists.mem_iff _ _).mpr ⟨.here _, by decide +kernel⟩
  have hallows := Params.nonempty_division_iff_allows.mp (hlists.success_iff.mp hsuccess _ hsite)
  have hfits : (Params.arity {}).Fits 1 := hallows
  obtain ⟨-, hsplat | hcount⟩ := hfits
  · exact Bool.false_ne_true hsplat
  · exact absurd hcount (by decide)

end CallBinding
