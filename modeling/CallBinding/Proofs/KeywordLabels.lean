import CallBinding.Proofs.CountedOutcomes
import Mathlib.Data.List.Nodup

/-!
The check of a keyword hash in terms of labels. Binding compares names, and takes them from the
labels of a hash and from those of a definition in two different ways. A declared label ends in a
colon, and so does every label that is read from a program; the name is then the label without that
colon on both sides, and two labels have one name only when they are the same
(`eq_of_withoutTrailingColon_eq`). So a required keyword is missing exactly when its label is absent
from the hash (`missingKeywords_eq`), and a name is unexpected exactly when its label is not
declared (`unexpectedKeywords_eq`).

`hash_outcome_by_labels` states the outcome of the check by these two lists, and what follows for
calls, whatever the labels of their last argument end in.
-/

set_option autoImplicit false
set_option relaxedAutoImplicit false

namespace CallBinding

/-! ### Labels and names -/

theorem withoutTrailingColon_append_colon {label : String}
    (h : label.toList.getLast? = some ':') : withoutTrailingColon label ++ ":" = label := by
  obtain ⟨front, hfront⟩ := List.getLast?_eq_some_iff.mp h
  have hlabel : label = String.ofList (front ++ [':']) := by
    rw [← hfront, String.ofList_toList]
  rw [withoutTrailingColon, if_pos h, withoutLast, hfront, List.dropLast_concat, hlabel,
    String.ofList_append]

/-- Labels that end in a colon are the same when their names are. -/
theorem eq_of_withoutTrailingColon_eq {label label' : String}
    (h : label.toList.getLast? = some ':') (h' : label'.toList.getLast? = some ':')
    (hname : withoutTrailingColon label = withoutTrailingColon label') : label = label' := by
  rw [← withoutTrailingColon_append_colon h, hname, withoutTrailingColon_append_colon h']

namespace KeywordParam

theorem getLast?_label (k : KeywordParam) : k.label.toList.getLast? = some ':' := by
  have hlabel := k.isLabel_label
  unfold isLabel at hlabel
  split at hlabel
  case h_1 hreverse =>
    rw [List.getLast?_eq_head?_reverse, hreverse]
    rfl
  case h_2 => exact absurd hlabel Bool.false_ne_true

theorem name_eq (k : KeywordParam) : k.name = withoutTrailingColon k.label := by
  rw [name, withoutTrailingColon, if_pos k.getLast?_label]

theorem name_append_colon (k : KeywordParam) : k.name ++ ":" = k.label := by
  rw [name_eq, withoutTrailingColon_append_colon k.getLast?_label]

end KeywordParam

/-- A hash whose labels end in a colon passes a declared keyword exactly under its label. -/
theorem ArgumentFacts.names_iff {hash : ArgumentFacts}
    (hcolon : ∀ label ∈ hash.labels, label.toList.getLast? = some ':') (k : KeywordParam) :
    hash.Names k.name ↔ k.label ∈ hash.labels := by
  constructor
  · rintro ⟨label, hlabel, hname⟩
    rw [k.name_eq] at hname
    rw [← eq_of_withoutTrailingColon_eq (hcolon label hlabel) k.getLast?_label hname]
    exact hlabel
  · exact fun hlabel ↦ ⟨k.label, hlabel, k.name_eq.symm⟩

/-! ### What a hash lacks and what it has too much -/

namespace Params

variable {p : Params} {hash : ArgumentFacts} {o : Outcome}

theorem mem_missingKeywords_iff {name : String} :
    name ∈ p.missingKeywords hash ↔ name ∈ p.requiredKeywordNames ∧ ¬ hash.Names name := by
  simp [missingKeywords, List.mem_filter, mem_receivedNames]

theorem mem_unexpectedKeywords_iff {name : String} :
    name ∈ p.unexpectedKeywords hash ↔ hash.Names name ∧ name ∉ p.keywordNames := by
  simp [unexpectedKeywords, List.mem_filter, mem_receivedNames]

/-- The required keywords whose labels a hash does not have. -/
def absentKeywords (p : Params) (hash : ArgumentFacts) : List KeywordParam :=
  p.keyword.filter fun k ↦ k.required ∧ k.label ∉ hash.labels

/-- The labels of a hash under which no keyword is declared. -/
def undeclaredLabels (p : Params) (hash : ArgumentFacts) : List String :=
  hash.labels.filter fun label ↦ label ∉ p.keyword.map KeywordParam.label

/-- A hash splats no other value, and lacks the label of a required keyword. -/
def LacksLabel (p : Params) (hash : ArgumentFacts) : Prop :=
  hash.hasSplat = false ∧ ∃ k ∈ p.keyword, k.required = true ∧ k.label ∉ hash.labels

/-- A hash has a label that is not declared, where no keyword splat takes it. -/
def HasStrayLabel (p : Params) (hash : ArgumentFacts) : Prop :=
  p.keywordRest = none ∧ ∃ label ∈ hash.labels, ∀ k ∈ p.keyword, k.label ≠ label

theorem nodup_keywordNames (p : Params) : p.keywordNames.Nodup := by
  have hnames : p.keywordNames = (p.keyword.map KeywordParam.label).map withoutTrailingColon := by
    rw [keywordNames, List.map_map]
    exact List.map_congr_left fun k _ ↦ k.name_eq
  rw [hnames]
  refine p.labels_nodup.map_on ?_
  intro label hlabel label' hlabel' hname
  obtain ⟨k, -, rfl⟩ := List.mem_map.mp hlabel
  obtain ⟨k', -, rfl⟩ := List.mem_map.mp hlabel'
  exact eq_of_withoutTrailingColon_eq k.getLast?_label k'.getLast?_label hname

theorem nodup_requiredKeywordNames (p : Params) : p.requiredKeywordNames.Nodup :=
  (List.filter_sublist.map KeywordParam.name).nodup p.nodup_keywordNames

theorem nodup_absentKeywords (p : Params) (hash : ArgumentFacts) :
    ((p.absentKeywords hash).map KeywordParam.name).Nodup :=
  (List.filter_sublist.map KeywordParam.name).nodup p.nodup_keywordNames

section Labels

variable (hcolon : ∀ label ∈ hash.labels, label.toList.getLast? = some ':')
include hcolon

/-- The missing keywords are those whose labels are absent. -/
theorem missingKeywords_eq :
    p.missingKeywords hash = (p.absentKeywords hash).map KeywordParam.name := by
  rw [missingKeywords, requiredKeywordNames, List.filter_map, List.filter_filter, absentKeywords]
  congr 1
  refine List.filter_congr fun k _ ↦ ?_
  rw [Bool.eq_iff_iff]
  simp [mem_receivedNames, hash.names_iff hcolon, and_comm]

/-- The unexpected names are those of the labels that are not declared. -/
theorem unexpectedKeywords_eq :
    p.unexpectedKeywords hash = (p.undeclaredLabels hash).map withoutTrailingColon := by
  rw [unexpectedKeywords, receivedNames, List.filter_map, undeclaredLabels]
  congr 1
  refine List.filter_congr fun label hlabel ↦ ?_
  have hdeclared : withoutTrailingColon label ∈ p.keywordNames ↔
      label ∈ p.keyword.map KeywordParam.label := by
    rw [mem_keywordNames, List.mem_map]
    refine exists_congr fun k ↦ and_congr_right fun _ ↦ ?_
    rw [k.name_eq]
    constructor
    · exact eq_of_withoutTrailingColon_eq k.getLast?_label (hcolon label hlabel)
    · exact congrArg withoutTrailingColon
  rw [Bool.eq_iff_iff]
  simp [hdeclared]

theorem lacksLabel_iff :
    p.LacksLabel hash ↔ hash.hasSplat = false ∧ p.missingKeywords hash ≠ [] := by
  rw [LacksLabel, missingKeywords_eq hcolon]
  simp [absentKeywords]

theorem hasStrayLabel_iff :
    p.HasStrayLabel hash ↔ p.keywordRest = none ∧ p.unexpectedKeywords hash ≠ [] := by
  rw [HasStrayLabel, unexpectedKeywords_eq hcolon]
  simp [undeclaredLabels]

end Labels

/-- What is said of a hash by the labels that it has. It names each absent keyword once and in the
order of the definition, and each stray label as often as it is passed and in the order of the
call. -/
structure DecidedByLabels (p : Params) (hash : ArgumentFacts) (o : Outcome) : Prop where
  missing : o.AnswersIff
    (.misnamed .keywordsMissing ((p.absentKeywords hash).map KeywordParam.name))
    (p.LacksLabel hash)
  nodup_missing : ((p.absentKeywords hash).map KeywordParam.name).Nodup
  unexpected : o.AnswersIff
    (.misnamed .keywordsUnexpected ((p.undeclaredLabels hash).map withoutTrailingColon))
    (¬ p.LacksLabel hash ∧ p.HasStrayLabel hash)
  accepted : o.AnswersIff .ok (¬ p.LacksLabel hash ∧ ¬ p.HasStrayLabel hash)

theorem decidedByLabels_checkKeywordHash (p : Params) (hash : ArgumentFacts)
    (hhash : hash.isHash = true)
    (hcolon : ∀ label ∈ hash.labels, label.toList.getLast? = some ':') :
    p.DecidedByLabels hash (p.checkKeywordHash (some hash)) := by
  have hlacks : p.LacksLabel hash ↔ hash.hasSplat = false ∧ p.missingKeywords hash ≠ [] :=
    lacksLabel_iff hcolon
  have hstray : p.HasStrayLabel hash ↔ p.keywordRest = none ∧ p.unexpectedKeywords hash ≠ [] :=
    hasStrayLabel_iff hcolon
  have hnodup := p.nodup_absentKeywords hash
  have hrule := p.hashRule_checkKeywordHash hash
  generalize p.checkKeywordHash (some hash) = o at hrule
  cases hrule with
  | value hvalue _ => exact absurd (hvalue.symm.trans hhash) Bool.false_ne_true
  | literal hvalue _ => exact absurd (hvalue.symm.trans hhash) Bool.false_ne_true
  | missing _ hsplat hmissing =>
    have hlack : p.LacksLabel hash := hlacks.mpr ⟨hsplat, hmissing⟩
    rw [missingKeywords_eq hcolon]
    exact ⟨.intro (fun _ ↦ rfl) fun hnot ↦ absurd hlack hnot, hnodup,
      .intro (fun hgiven ↦ absurd hlack hgiven.1) fun _ ↦ by simp,
      .intro (fun hgiven ↦ absurd hlack hgiven.1) fun _ ↦ by simp⟩
  | unexpected _ hnone hrest hunexpected =>
    have hlack : ¬ p.LacksLabel hash := by
      rw [hlacks]
      rintro ⟨hsplat, hmissing⟩
      exact hnone.elim (by simp [hsplat]) hmissing
    have hbad : p.HasStrayLabel hash := hstray.mpr ⟨hrest, hunexpected⟩
    rw [unexpectedKeywords_eq hcolon]
    exact ⟨.intro (fun hgiven ↦ absurd hgiven hlack) fun _ ↦ by simp, hnodup,
      .intro (fun _ ↦ rfl) fun hnot ↦ absurd ⟨hlack, hbad⟩ hnot,
      .intro (fun hgiven ↦ absurd hbad hgiven.2) fun _ ↦ by simp⟩
  | accepted _ hnone hdeclared =>
    have hlack : ¬ p.LacksLabel hash := by
      rw [hlacks]
      rintro ⟨hsplat, hmissing⟩
      exact hnone.elim (by simp [hsplat]) hmissing
    have hbad : ¬ p.HasStrayLabel hash := by
      rw [hstray]
      rintro ⟨hrest, hunexpected⟩
      exact hdeclared.elim (by simp [hrest]) hunexpected
    exact ⟨.intro (fun hgiven ↦ absurd hgiven hlack) fun _ ↦ by simp, hnodup,
      .intro (fun hgiven ↦ absurd hgiven.2 hbad) fun _ ↦ by simp,
      .intro (fun _ ↦ rfl) fun hnot ↦ absurd ⟨hlack, hbad⟩ hnot⟩

end Params

/-! ### Calls -/

namespace MethodDef

/-- The check of a hash whose labels end in a colon is decided by the labels: an absent required
keyword is reported before a stray label is, unless the hash splats another value, and a stray label
is reported unless a keyword splat takes it. A call is told of keywords only by this check of its
last argument, which is then a hash; so whatever the labels, a call whose hash splats another value
is never told of a missing keyword, a method with a keyword splat never tells of an unexpected one,
and no call is told of an unexpected keyword while one is missing. -/
theorem hash_outcome_by_labels :
    (∀ (p : Params) (hash : ArgumentFacts), hash.isHash = true →
      (∀ label ∈ hash.labels, label.toList.getLast? = some ':') →
        p.DecidedByLabels hash (p.checkKeywordHash (some hash))) ∧
    ∀ (d : MethodDef) (name : String) (args : List ArgumentFacts),
      (d.bind name args).reason = some .keywordsMissing ∨
          (d.bind name args).reason = some .keywordsUnexpected →
        ∃ hash, args.getLast? = some hash ∧ hash.isHash = true ∧
          d.bind name args = d.params.checkKeywordHash (some hash) ∧
          ((d.bind name args).reason = some .keywordsMissing → hash.hasSplat = false) ∧
          ((d.bind name args).reason = some .keywordsUnexpected →
            d.params.keywordRest = none ∧ (hash.hasSplat = true ∨
              ∀ k ∈ d.params.keyword, k.required = true → hash.Names k.name)) := by
  refine ⟨Params.decidedByLabels_checkKeywordHash, fun d name args hreason ↦ ?_⟩
  obtain ⟨rfl, front, hash, rfl, -, -, hrule⟩ :=
    (d.bindRule_bind name args).exists_badHash hreason
  have hcheck := hrule.checkKeywordHash_eq.symm
  refine ⟨hash, List.getLast?_concat, ?_, hcheck, fun hmissing ↦ ?_, fun hunexpected ↦ ?_⟩
  · rcases hreason with hmissing | hunexpected
    · exact (hrule.of_keywordsMissing hmissing).1
    · exact (hrule.of_keywordsUnexpected hunexpected).1
  · exact (hrule.of_keywordsMissing hmissing).2.1
  · obtain ⟨-, hnone, hrest, -⟩ := hrule.of_keywordsUnexpected hunexpected
    exact ⟨hrest, hnone.imp_right Params.missingKeywords_eq_nil_iff.mp⟩

/-- The method of `def f(from:, to:, step: 1)`. -/
def threeKeywords : MethodDef :=
  ⟨"f",
    { keyword := [⟨"from:", false, rfl⟩, ⟨"to:", false, rfl⟩, ⟨"step:", true, rfl⟩] },
    "def f(from:, to:, step: 1)"⟩

/-- The hash in `f(x: 1, to: 2, y: 3, x: 4)`, and that with a splat at its end. -/
def strayHash (hasSplat : Bool) : ArgumentFacts :=
  ⟨"", true, true, ["x:", "to:", "y:", "x:"], hasSplat⟩

/-- A hash with two stray labels, of which one is passed twice, is told of them when it splats
another value, and of the absent keyword when it does not. -/
theorem hash_outcome_by_labels_of_stray_labels :
    (∀ splat, ∀ label ∈ (strayHash splat).labels, label.toList.getLast? = some ':') ∧
      threeKeywords.bind "f" [strayHash true] = .misnamed .keywordsUnexpected ["x", "y", "x"] ∧
      threeKeywords.bind "f" [strayHash false] = .misnamed .keywordsMissing ["from"] := by
  have hcolon : ∀ splat, ∀ label ∈ (strayHash splat).labels, label.toList.getLast? = some ':' := by
    decide
  have hdecided (splat : Bool) := hash_outcome_by_labels.1 threeKeywords.params (strayHash splat)
    rfl (hcolon splat)
  refine ⟨hcolon, ?_, ?_⟩
  · have hlack : ¬ threeKeywords.params.LacksLabel (strayHash true) :=
      fun hlack ↦ absurd hlack.1 (by decide)
    exact (hdecided true).unexpected.eq_of_condition ⟨hlack, rfl, "x:", by decide, by decide⟩
  · have hlack : threeKeywords.params.LacksLabel (strayHash false) :=
      ⟨rfl, ⟨"from:", false, rfl⟩, by decide, rfl, by decide⟩
    exact (hdecided false).missing.eq_of_condition hlack

end MethodDef

end CallBinding
