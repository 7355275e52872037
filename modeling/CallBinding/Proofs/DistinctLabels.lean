import CallBinding.Proofs.CheckedData
import CallBinding.Proofs.SlotSorting

/-!
Keywords that are declared together. A slot set is made in three ways: from the fields of a record,
from those of a record in the record of a method, and from the nodes of a parameter list. Each of
them first completes the slots and then compares the labels (`ParamsDraft.finish`), so that one
statement about the comparison (`ParamsDraft.settled_finish`) holds of all three.

What is reported of labels that are not distinct is described by the labels alone (`Repeats`), and
there is one list that fits the description (`Repeats.unique`).

In a slot set that was made, names are as distinct as labels. It has required keywords exactly when
it has names of required keywords, so binding looks for missing ones wherever there can be some.
-/

set_option autoImplicit false
set_option relaxedAutoImplicit false

namespace CallBinding

/-! ### Repeated labels -/

theorem nodup_eraseDups {α : Type} [DecidableEq α] : ∀ as : List α, as.eraseDups.Nodup
  | [] => by simp
  | a :: rest => by
    rw [List.eraseDups_cons, List.nodup_cons, List.mem_eraseDups]
    exact ⟨by simp, nodup_eraseDups _⟩
termination_by as => as.length
decreasing_by exact Nat.lt_succ_of_le (List.length_filter_le _ _)

/-- The labels that a list repeats: those that occur in it at least twice, each of them once and in
ascending order. -/
structure Repeats (labels repeated : List String) : Prop where
  mem_iff : ∀ label, label ∈ repeated ↔ 2 ≤ labels.count label
  ascending : repeated.Pairwise (· < ·)

/-- A list repeats its labels in one way. -/
theorem Repeats.unique {labels repeated repeated' : List String} (h : Repeats labels repeated)
    (h' : Repeats labels repeated') : repeated = repeated' := by
  have hnodup {list : List String} (hlist : list.Pairwise (· < ·)) : list.Nodup := by
    refine hlist.imp ?_
    rintro a _ hlt rfl
    exact String.lt_irrefl a hlt
  refine List.Perm.eq_of_pairwise ?_ h.ascending h'.ascending ?_
  · intro a b _ _ hab hba
    exact absurd hba (String.lt_asymm hab)
  · refine (List.perm_ext_iff_of_nodup (hnodup h.ascending) (hnodup h'.ascending)).mpr fun a ↦ ?_
    rw [h.mem_iff, h'.mem_iff]

theorem repeats_repeatedLabels (labels : List String) : Repeats labels (repeatedLabels labels) where
  mem_iff label := by
    rw [repeatedLabels, List.mem_mergeSort, List.mem_eraseDups, List.mem_filter, decide_eq_true_eq]
    constructor
    · exact And.right
    · intro h
      exact ⟨List.count_pos_iff.mp (by omega), h⟩
  ascending := by
    have hle : (repeatedLabels labels).Pairwise fun a b ↦ decide (a ≤ b) = true := by
      refine List.pairwise_mergeSort ?_ ?_ _
      · intro a b c hab hbc
        rw [decide_eq_true_eq] at hab hbc ⊢
        exact String.le_trans hab hbc
      · intro a b
        rw [Bool.or_eq_true, decide_eq_true_eq, decide_eq_true_eq]
        exact String.le_total a b
    have hnodup : (repeatedLabels labels).Nodup :=
      (List.mergeSort_perm _ _).nodup_iff.mpr (nodup_eraseDups _)
    -- the sort alone leaves room for equal neighbours
    refine (hle.and hnodup).imp fun {a b} hab ↦ ?_
    rw [decide_eq_true_eq] at hab
    exact String.not_le.mp fun hba ↦ hab.2 (String.le_antisymm hab.1 hba)

/-! ### Comparing the labels -/

/-- What is answered to keywords that are declared together: slots with these keywords when their
labels are distinct, and the fault that lists the repeated labels when they are not. -/
structure SettledByLabels {ε : Type} (keyword : List KeywordParam) (report : Fault → ε)
    (answer : Except ε Params) : Prop where
  accepted_iff : (∃ p, answer = .ok p) ↔ (keyword.map KeywordParam.label).Nodup
  keyword_eq : ∀ p, answer = .ok p → p.keyword = keyword
  refused_iff : ∀ e, answer = .error e ↔ ¬ (keyword.map KeywordParam.label).Nodup ∧
    ∃ repeated, Repeats (keyword.map KeywordParam.label) repeated ∧
      e = report (.repeatedKeywords repeated)

/-- The comparison of the labels of a draft, whatever its fault is reported as. -/
theorem ParamsDraft.settled_finish {ε : Type} (d : ParamsDraft) (report : Fault → ε) :
    SettledByLabels d.keyword report
      (d.finish.mapError fun labels ↦ report (.repeatedKeywords labels)) := by
  unfold finish
  split_ifs with hnodup
  · refine ⟨iff_of_true ⟨_, rfl⟩ hnodup, ?_, ?_⟩
    · intro p hp
      injection hp with hp
      rw [← hp]
    · intro e
      exact iff_of_false (fun he ↦ by injection he) fun hrefused ↦ hrefused.1 hnodup
  · refine ⟨iff_of_false ?_ hnodup, ?_, ?_⟩
    · rintro ⟨p, hp⟩
      injection hp
    · intro p hp
      injection hp
    · intro e
      constructor
      · intro he
        injection he with he
        exact ⟨hnodup, _, repeats_repeatedLabels _, he.symm⟩
      · rintro ⟨-, repeated, hrepeats, rfl⟩
        rw [hrepeats.unique (repeats_repeatedLabels _)]
        rfl

/-! ### Three ways to a slot set -/

/-- The keyword that a parameter is. -/
def Param.keyword? : Param → Option KeywordParam
  | .keyword k => some k
  | _ => none

theorem ParamsDraft.keyword_foldl_put_eq (params : List Param) (d : ParamsDraft) :
    (params.foldl put d).keyword = d.keyword ++ params.filterMap Param.keyword? := by
  induction params generalizing d with
  | nil => rw [List.foldl_nil, List.filterMap_nil, List.append_nil]
  | cons param rest ih =>
    rw [List.foldl_cons, ih]
    cases param <;> simp [put, addRequired_eq, Param.keyword?, List.filterMap_cons]

namespace Params

variable {fields : List (String × Data)} {draft : ParamsDraft}

theorem ofData_record (h : draftOfFields fields = .ok draft) : ofData (.record fields) =
    draft.finish.mapError fun labels ↦ [⟨[], .repeatedKeywords labels⟩] := by
  rw [ofData, Data.ofRecord, h]
  dsimp only [bind, Except.bind]
  cases draft.finish <;> rfl

theorem ofNodes_of_laysOut {src : Source} {nodes : List Node} {params : List Param}
    (h : src.LaysOut nodes params) : ofNodes src nodes =
      (params.foldl ParamsDraft.put {}).finish.mapError fun labels ↦
        .invalid ⟨model, [⟨[], .repeatedKeywords labels⟩]⟩ := by
  rw [ofNodes, readNodes, ParamsDraft.foldlM_of_laysOut h]
  dsimp only [bind, Except.bind]
  cases (params.foldl ParamsDraft.put {}).finish <;> rfl

/-- Any keywords are read from some fields. -/
theorem exists_draftOfFields_eq (keyword : List KeywordParam) :
    ∃ fields draft, draftOfFields fields = .ok draft ∧ draft.keyword = keyword := by
  refine ⟨[("keyword", .list (keyword.map KeywordParam.toData))], { keyword := keyword }, ?_, rfl⟩
  rw [draftOfFields,
    Data.optional_of_field rfl (Data.toList_map KeywordParam.ofData_toData keyword)]
  rfl

/-- Any keywords are laid out by some nodes. -/
theorem exists_laysOut_keywords (keyword : List KeywordParam) :
    ∃ (src : Source) (nodes : List Node) (params : List Param),
      src.LaysOut nodes params ∧ params.filterMap Param.keyword? = keyword := by
  obtain ⟨src, nodes, hnodes⟩ := Source.exists_laysOut (keyword.map Param.keyword)
  refine ⟨src, nodes, _, hnodes, ?_⟩
  rw [List.filterMap_map]
  exact List.filterMap_some

end Params

/-- The slots of a method are checked as a part of it. -/
theorem MethodDef.map_params_ofData {fields parameters : List (String × Data)}
    {draft : ParamsDraft} {name source : String}
    (hname : Data.required Data.toText fields "name" = .ok name)
    (hparameters : Data.field? fields "parameters" = some (.record parameters))
    (hdraft : Params.draftOfFields parameters = .ok draft)
    (hsource : Data.optional "" Data.toText fields "source" = .ok source) :
    (ofData (.record fields)).map params =
      draft.finish.mapError fun labels ↦ [⟨[.field "parameters"], .repeatedKeywords labels⟩] := by
  have hslots : Data.optional {} Params.ofData fields "parameters" =
      draft.finish.mapError fun labels ↦ [⟨[.field "parameters"], .repeatedKeywords labels⟩] := by
    rw [Data.optional, hparameters]
    dsimp only
    rw [Params.ofData_record hdraft]
    cases draft.finish <;> rfl
  rw [ofData, Data.ofRecord, hname, hslots, hsource]
  cases draft.finish <;> rfl

/-! ### The names in a slot set -/

theorem KeywordParam.name_ne_empty (k : KeywordParam) : k.name ≠ "" := by
  intro hname
  have hlabel : k.label = ":" := by
    rw [← k.name_append_colon, hname]
    rfl
  have hvalid := k.isLabel_label
  rw [hlabel] at hvalid
  exact absurd hvalid (by decide)

namespace Params

variable {p : Params}

theorem requiresKeywords_iff_names : p.requiresKeywords = true ↔ p.requiredKeywordNames ≠ [] := by
  simp [requiresKeywords, requiredKeywordNames, List.filter_eq_nil_iff]

/-- The names and labels of a slot set fit together. -/
structure KeywordsAgree (p : Params) : Prop where
  label_eq : ∀ k ∈ p.keyword, k.label = k.name ++ ":" ∧ k.name ≠ ""
  nodup_names : p.keywordNames.Nodup
  required_sublist : p.requiredKeywordNames.Sublist p.keywordNames
  requires_iff : p.requiresKeywords = true ↔ p.requiredKeywordNames ≠ []

theorem keywordsAgree (p : Params) : p.KeywordsAgree where
  label_eq k _ := ⟨k.name_append_colon.symm, k.name_ne_empty⟩
  nodup_names := p.nodup_keywordNames
  required_sublist := List.filter_sublist.map KeywordParam.name
  requires_iff := requiresKeywords_iff_names

end Params

/-! ### Calls that are told of missing keywords -/

namespace MethodDef

/-- Which calls are told of missing keywords: no call where none is required, and a call that ends
in a hash without a splat exactly when a required keyword is not named in it. What it is told are
names of required keywords, each of them once. -/
structure TellsOfMissing (d : MethodDef) : Prop where
  told : ∀ name args, (d.bind name args).reason = some .keywordsMissing →
    d.params.requiresKeywords = true ∧ (d.bind name args).keywords ≠ [] ∧
      (d.bind name args).keywords.Sublist d.params.requiredKeywordNames ∧
        (d.bind name args).keywords.Nodup
  told_iff : ∀ (front : List ArgumentFacts) (hash : ArgumentFacts),
    d.params.normal.length ≤ front.length → hash.isHash = true → hash.hasSplat = false →
      ((d.bind d.name (front ++ [hash])).reason = some .keywordsMissing ↔
        ∃ name ∈ d.params.requiredKeywordNames, ¬ hash.Names name)

variable {d : MethodDef} {name : String} {args front : List ArgumentFacts} {hash : ArgumentFacts}

/-- The keywords that a call is told of are those that its last argument lacks. -/
theorem keywords_of_keywordsMissing (h : (d.bind name args).reason = some .keywordsMissing) :
    ∃ hash, args.getLast? = some hash ∧ d.params.missingKeywords hash ≠ [] ∧
      (d.bind name args).keywords = d.params.missingKeywords hash := by
  obtain ⟨-, front, hash, rfl, -, -, hrule⟩ :=
    (d.bindRule_bind name args).exists_badHash (Or.inl h)
  obtain ⟨-, -, hmissing, houtcome⟩ := hrule.of_keywordsMissing h
  refine ⟨hash, List.getLast?_concat, hmissing, ?_⟩
  rw [houtcome]
  rfl

/-- A keyword that a hash does not name is required, so the hash is set aside and checked. -/
theorem reason_bind_concat_of_missing (hnormal : d.params.normal.length ≤ front.length)
    (hhash : hash.isHash = true) (hsplat : hash.hasSplat = false)
    (hmissing : d.params.missingKeywords hash ≠ []) :
    (d.bind d.name (front ++ [hash])).reason = some .keywordsMissing := by
  have hrequired : d.params.requiredKeywordNames ≠ [] := by
    intro hnil
    rw [Params.missingKeywords, hnil] at hmissing
    exact hmissing rfl
  have hrequires : d.params.requiresKeywords = true :=
    Params.requiresKeywords_iff_names.mpr hrequired
  have haside : d.params.SetsAside (front.length + 1) :=
    ⟨Params.takesKeywords_of_requiresKeywords hrequires, Or.inl hrequires⟩
  have hrule := Params.HashRule.missing hhash hsplat hmissing
  have hfails : Outcome.misnamed .keywordsMissing (d.params.missingKeywords hash) ≠ .ok :=
    fun hok ↦ absurd (congrArg Outcome.reason hok) (by simp)
  rw [(BindRule.badHash hnormal haside hrule hfails).bind_eq]
  rfl

theorem tellsOfMissing (d : MethodDef) : d.TellsOfMissing where
  told name args h := by
    obtain ⟨hash, -, hmissing, hkeywords⟩ := keywords_of_keywordsMissing h
    have hsublist : (d.params.missingKeywords hash).Sublist d.params.requiredKeywordNames :=
      List.filter_sublist
    rw [hkeywords]
    refine ⟨Params.requiresKeywords_iff_names.mpr ?_, hmissing, hsublist,
      hsublist.nodup d.params.nodup_requiredKeywordNames⟩
    intro hnil
    rw [hnil] at hsublist
    exact hmissing (List.sublist_nil.mp hsublist)
  told_iff front hash hnormal hhash hsplat := by
    have hnames : d.params.missingKeywords hash ≠ [] ↔
        ∃ name ∈ d.params.requiredKeywordNames, ¬ hash.Names name := by
      simp only [ne_eq, List.eq_nil_iff_forall_not_mem, not_forall, not_not,
        Params.mem_missingKeywords_iff]
    rw [← hnames]
    refine ⟨fun h ↦ ?_, reason_bind_concat_of_missing hnormal hhash hsplat⟩
    obtain ⟨hash', hlast, hmissing, -⟩ := keywords_of_keywordsMissing h
    rw [List.getLast?_concat] at hlast
    injection hlast with hlast
    rw [hlast]
    exact hmissing

end MethodDef

/-! ### The main statement -/

/-- Keywords that are declared together become a slot set exactly when their labels are distinct,
and otherwise the fault lists, in its message too, the labels that occur at least twice. This holds
of a record of slots, of such a record in that of a method, and of the nodes of a parameter list;
any keywords are read from some record and laid out by some nodes. In every slot set labels are
names with a colon behind them, no name occurs twice, the names of required keywords are some of all
names in the same order, and keywords are required exactly when there are names of required ones. So
a method tells a call that ends in a hash without a splat of missing keywords exactly when it
requires some that the hash does not name. -/
theorem Params.built_iff_labels_distinct :
    (∀ keyword : List KeywordParam,
      (∃ fields draft, draftOfFields fields = .ok draft ∧ draft.keyword = keyword) ∧
      ∃ (src : Source) (nodes : List Node) (params : List Param),
        src.LaysOut nodes params ∧ params.filterMap Param.keyword? = keyword) ∧
    (∀ fields draft, draftOfFields fields = .ok draft →
      SettledByLabels draft.keyword (fun fault ↦ [⟨[], fault⟩]) (ofData (.record fields))) ∧
    (∀ fields parameters draft name source,
      Data.required Data.toText fields "name" = .ok name →
      Data.field? fields "parameters" = some (.record parameters) →
      draftOfFields parameters = .ok draft →
      Data.optional "" Data.toText fields "source" = .ok source →
        SettledByLabels draft.keyword (fun fault ↦ [⟨[.field "parameters"], fault⟩])
          ((MethodDef.ofData (.record fields)).map MethodDef.params)) ∧
    (∀ (src : Source) (nodes : List Node) (params : List Param), src.LaysOut nodes params →
      SettledByLabels (params.filterMap Param.keyword?)
        (fun fault ↦ .invalid ⟨"ParameterSlotSet", [⟨[], fault⟩]⟩) (ofNodes src nodes)) ∧
    (∀ labels, (Fault.repeatedKeywords labels).message =
      "Value error, duplicated keyword parameters: " ++ ", ".intercalate labels) ∧
    (∀ p : Params, p.KeywordsAgree) ∧
    ∀ d : MethodDef, d.TellsOfMissing := by
  refine ⟨?given, ?record, ?method, ?nodes, fun _ ↦ rfl, keywordsAgree,
    MethodDef.tellsOfMissing⟩
  case given =>
    intro keyword
    exact ⟨exists_draftOfFields_eq keyword, exists_laysOut_keywords keyword⟩
  case record =>
    intro fields draft hdraft
    rw [ofData_record hdraft]
    exact draft.settled_finish _
  case method =>
    intro fields parameters draft name source hname hparameters hdraft hsource
    rw [MethodDef.map_params_ofData hname hparameters hdraft hsource]
    exact draft.settled_finish _
  case nodes =>
    intro src nodes params hnodes
    have hkeyword : (params.foldl ParamsDraft.put {}).keyword =
        params.filterMap Param.keyword? :=
      ParamsDraft.keyword_foldl_put_eq params {}
    rw [ofNodes_of_laysOut hnodes, ← hkeyword]
    exact ParamsDraft.settled_finish _ _

namespace TwoRepeated

/-- The keywords of `def f(b:, a: 1, b: 2, a:, c:)`. -/
def declared : List KeywordParam :=
  [⟨"b:", false, rfl⟩, ⟨"a:", true, rfl⟩, ⟨"b:", true, rfl⟩, ⟨"a:", false, rfl⟩, ⟨"c:", false, rfl⟩]

/-- The fields of its slots. -/
def slots : List (String × Data) :=
  [("keyword", .list (declared.map KeywordParam.toData))]

def fields : List (String × Data) :=
  [("name", .text "f"), ("parameters", .record slots)]

/-- Its parameter list. -/
def source : Source where
  bytes := "b:, a: 1, b: 2, a:, c:".toList.map fun c ↦ UInt8.ofNat c.toNat
  decode := Text.Codec.ascii.decode

def nodes : List Node := [
  { kind := "keyword_parameter"
    children := [{ kind := "identifier", role := some "name", start := 0, stop := 1 }] },
  { kind := "keyword_parameter"
    children := [
      { kind := "identifier", role := some "name", start := 4, stop := 5 },
      { kind := "integer", role := some "value", start := 7, stop := 8 }] },
  { kind := "keyword_parameter"
    children := [
      { kind := "identifier", role := some "name", start := 10, stop := 11 },
      { kind := "integer", role := some "value", start := 13, stop := 14 }] },
  { kind := "keyword_parameter"
    children := [{ kind := "identifier", role := some "name", start := 16, stop := 17 }] },
  { kind := "keyword_parameter"
    children := [{ kind := "identifier", role := some "name", start := 20, stop := 21 }] }]

end TwoRepeated

open TwoRepeated

/-- Two of three labels are declared twice, and are listed in ascending order whichever way the
keywords are handed over; the last three keywords alone make a slot set. A hash that names one of
two required keywords is told of the other. -/
theorem Params.built_iff_labels_distinct_of_two_repeated :
    ofData (.record slots) = .error [⟨[], .repeatedKeywords ["a:", "b:"]⟩] ∧
      (MethodDef.ofData (.record fields)).map MethodDef.params =
        .error [⟨[.field "parameters"], .repeatedKeywords ["a:", "b:"]⟩] ∧
      ofNodes source nodes =
        .error (.invalid ⟨"ParameterSlotSet", [⟨[], .repeatedKeywords ["a:", "b:"]⟩]⟩) ∧
      (∃ p, ofNodes source (nodes.drop 2) = .ok p) ∧
      (MethodDef.threeKeywords.bind "f" [MethodDef.strayHash false]).reason =
        some .keywordsMissing ∧
      MethodDef.threeKeywords.params.requiresKeywords = true := by
  obtain ⟨-, hrecord, hmethod, hlaid, -, -, htells⟩ := built_iff_labels_distinct
  have hdistinct : ¬ (declared.map KeywordParam.label).Nodup := by decide
  have hrepeats : Repeats (declared.map KeywordParam.label) ["a:", "b:"] := by
    refine ⟨fun label ↦ ?_, by decide⟩
    by_cases ha : label = "a:"
    · subst ha
      decide
    by_cases hb : label = "b:"
    · subst hb
      decide
    have hcount : (declared.map KeywordParam.label).count label = ["c:"].count label := by
      simp [declared, List.count_cons, Ne.symm ha, Ne.symm hb]
    have hle : ["c:"].count label ≤ 1 := List.count_le_length
    rw [hcount]
    simp only [List.mem_cons, ha, hb, List.not_mem_nil, or_self, false_iff]
    omega
  have hslots : draftOfFields slots = .ok { keyword := declared } := rfl
  have hlast : source.LaysOut (nodes.drop 2) ((declared.drop 2).map .keyword) :=
    .cons (.keyword rfl ⟨_, rfl, rfl, rfl⟩) <| .cons (.keyword rfl ⟨_, rfl, rfl, rfl⟩) <|
      .cons (.keyword rfl ⟨_, rfl, rfl, rfl⟩) .nil
  have hnodes : source.LaysOut nodes (declared.map .keyword) :=
    .cons (.keyword rfl ⟨_, rfl, rfl, rfl⟩) <| .cons (.keyword rfl ⟨_, rfl, rfl, rfl⟩) hlast
  have hunnamed : ¬ (MethodDef.strayHash false).Names "from" := by
    rw [← mem_receivedNames]
    decide
  have htold : (MethodDef.threeKeywords.bind "f" [MethodDef.strayHash false]).reason =
      some .keywordsMissing :=
    ((htells MethodDef.threeKeywords).told_iff [] (MethodDef.strayHash false) (Nat.le_refl 0) rfl
      rfl).mpr ⟨"from", by decide, hunnamed⟩
  refine ⟨?_, ?_, ?_, ?_, htold, ((htells MethodDef.threeKeywords).told "f" _ htold).1⟩
  · exact ((hrecord slots _ hslots).refused_iff _).mpr ⟨hdistinct, _, hrepeats, rfl⟩
  · exact ((hmethod fields slots _ "f" "" rfl rfl hslots rfl).refused_iff _).mpr
      ⟨hdistinct, _, hrepeats, rfl⟩
  · exact ((hlaid source nodes _ hnodes).refused_iff _).mpr ⟨hdistinct, _, hrepeats, rfl⟩
  · exact (hlaid source _ _ hlast).accepted_iff.mpr (by decide)

end CallBinding
