import CallBinding.Proofs.KeySpelling

/-!
What binding cannot see. Of a definition it sees the name, how many slots there are of each kind,
whether there are splats, and the keywords (`MethodDef.SameShape`): the names of positional
parameters and the texts of their defaults never show in an outcome. Of a call it sees the name, the
number of the arguments and the last one, and not even that where no keywords are declared or the
normal slots take all arguments (`MethodDef.LastUnread`).

`outcome_by_shape` compares two runs that agree on these: their outcomes are equal, with all that
they carry.
-/

set_option autoImplicit false
set_option relaxedAutoImplicit false

namespace CallBinding

namespace Params

/-- Two parameter lists agree but for the names of their positional parameters and of their splats,
and for the texts of defaults. -/
structure SameShape (p p' : Params) : Prop where
  normal : p.normal.length = p'.normal.length
  optional : p.optional.length = p'.optional.length
  rest : p.rest.isSome = p'.rest.isSome
  postRest : p.postRest.length = p'.postRest.length
  keyword : p.keyword = p'.keyword
  keywordRest : p.keywordRest.isSome = p'.keywordRest.isSome

namespace SameShape

variable {p p' : Params} (h : p.SameShape p')
include h

theorem takesKeywords_eq : p.takesKeywords = p'.takesKeywords := by
  rw [takesKeywords, takesKeywords, h.keyword, h.keywordRest]

theorem requiresKeywords_eq : p.requiresKeywords = p'.requiresKeywords := by
  rw [requiresKeywords, requiresKeywords, h.keyword]

theorem bindTail_eq (args : List ArgumentFacts) : p.bindTail args = p'.bindTail args := by
  simp only [bindTail, h.postRest, h.rest, h.optional]

theorem checkKeywordHash_eq (hash : Option ArgumentFacts) :
    p.checkKeywordHash hash = p'.checkKeywordHash hash := by
  have hnone : p.keywordRest.isNone = p'.keywordRest.isNone := by
    rw [← Option.not_isSome, h.keywordRest, Option.not_isSome]
  cases hash with
  | none => rfl
  | some arg =>
    have hmissing : p.missingKeywords arg = p'.missingKeywords arg := by
      rw [missingKeywords, missingKeywords, requiredKeywordNames, requiredKeywordNames, h.keyword]
    have hunexpected : p.unexpectedKeywords arg = p'.unexpectedKeywords arg := by
      rw [unexpectedKeywords, unexpectedKeywords, keywordNames, keywordNames, h.keyword]
    simp only [checkKeywordHash, hmissing, hunexpected, hnone]

theorem bindWithHash_eq (args : List ArgumentFacts) :
    p.bindWithHash args = p'.bindWithHash args := by
  rw [bindWithHash, bindWithHash, h.checkKeywordHash_eq, h.bindTail_eq]

theorem bindRemaining_eq (args : List ArgumentFacts) :
    p.bindRemaining args = p'.bindRemaining args := by
  rw [bindRemaining, bindRemaining, h.requiresKeywords_eq, h.takesKeywords_eq, h.bindWithHash_eq,
    h.bindTail_eq]

end SameShape

end Params

namespace MethodDef

/-- Two methods have one name, and parameter lists of one shape. -/
structure SameShape (d d' : MethodDef) : Prop where
  name : d.name = d'.name
  params : d.params.SameShape d'.params

/-- A call with some number of arguments is bound without a look at the last one: no keywords are
declared, or the normal slots take all arguments. -/
def LastUnread (d : MethodDef) (count : Nat) : Prop :=
  (d.params.keyword = [] ∧ d.params.keywordRest = none) ∨ count ≤ d.params.normal.length

variable {d d' : MethodDef} {name : String} {args args' : List ArgumentFacts}

theorem SameShape.bind_eq (h : d.SameShape d') (name : String) (args : List ArgumentFacts) :
    d.bind name args = d'.bind name args := by
  simp only [bind, h.name, h.params.normal, h.params.bindRemaining_eq]

theorem bind_congr_of_lastUnread (hlength : args.length = args'.length)
    (h : d.LastUnread args.length) : d.bind name args = d.bind name args' := by
  have hrest : d.params.bindRemaining (args.drop d.params.normal.length) =
      d.params.bindRemaining (args'.drop d.params.normal.length) := by
    obtain ⟨hkeyword, hkeywordRest⟩ | hall := h
    · have htakes : d.params.takesKeywords = false := by
        rw [Params.takesKeywords, hkeyword, hkeywordRest]
        rfl
      have hrequires : d.params.requiresKeywords = false := by
        rw [Params.requiresKeywords, hkeyword]
        rfl
      have htail : d.params.bindTail (args.drop d.params.normal.length) =
          d.params.bindTail (args'.drop d.params.normal.length) :=
        Params.bindTail_congr (by rw [List.length_drop, List.length_drop, hlength])
      simp only [Params.bindRemaining, htakes, hrequires, htail, Bool.false_and,
        Bool.false_eq_true, if_false]
    · rw [List.drop_eq_nil_of_le hall, List.drop_eq_nil_of_le (hlength ▸ hall)]
  simp only [bind, hlength, hrest]

/-- Methods of one shape answer calls alike that are by one name, have as many arguments and end in
the same argument, and where the last argument is not looked at they may end in any. -/
theorem outcome_by_shape (d d' : MethodDef) (name : String) (args args' : List ArgumentFacts)
    (hshape : d.SameShape d') (hlength : args.length = args'.length)
    (hlast : args.getLast? = args'.getLast? ∨ d.LastUnread args.length) :
    d.bind name args = d'.bind name args' := by
  have hargs : d.bind name args = d.bind name args' := by
    obtain hsame | hunread := hlast
    · exact d.bind_congr name hlength hsame
    · exact bind_congr_of_lastUnread hlength hunread
  rw [hargs, hshape.bind_eq]

end MethodDef

namespace RenamedParameters

/-- `def f(a, b = 1, via: nil)`. -/
def method : MethodDef where
  name := "f"
  params :=
    { normal := ["a"], optional := [⟨"b", "1"⟩], keyword := [⟨"via:", true, rfl⟩] }

/-- `def f(x, y = [], via: 0)`. -/
def renamed : MethodDef where
  name := "f"
  params :=
    { normal := ["x"], optional := [⟨"y", "[]"⟩], keyword := [⟨"via:", true, rfl⟩] }

/-- The hash of `to: 2`. -/
def hash : ArgumentFacts :=
  { source := "to: 2", isHash := true, isLiteral := true, labels := ["to:"] }

end RenamedParameters

open RenamedParameters

/-- The same keyword is reported of `f(1, 2, to: 2)` and of `f(u, v, to: 2)`, and the one argument
of `f(1)` and of `f(to: 2)` goes to the normal slot, whatever it is. -/
theorem MethodDef.outcome_by_shape_of_renamed_parameters :
    method.SameShape renamed ∧
      method.bind "f" [⟨"1", false, true, [], false⟩, ⟨"2", false, true, [], false⟩, hash] =
        .misnamed .keywordsUnexpected ["to"] ∧
      renamed.bind "f" [{ source := "u" }, { source := "v" }, hash] =
        .misnamed .keywordsUnexpected ["to"] ∧
      method.LastUnread 1 ∧
      method.bind "f" [⟨"1", false, true, [], false⟩] = renamed.bind "f" [hash] := by
  have hshape : method.SameShape renamed := ⟨rfl, ⟨rfl, rfl, rfl, rfl, rfl, rfl⟩⟩
  have hunread : method.LastUnread 1 := Or.inr (Nat.le_refl 1)
  have houtcome : method.bind "f"
      [⟨"1", false, true, [], false⟩, ⟨"2", false, true, [], false⟩, hash] =
        .misnamed .keywordsUnexpected ["to"] := by decide +kernel
  have hsame := outcome_by_shape method renamed "f"
    [⟨"1", false, true, [], false⟩, ⟨"2", false, true, [], false⟩, hash]
    [{ source := "u" }, { source := "v" }, hash] hshape rfl (Or.inl rfl)
  exact ⟨hshape, houtcome, hsame ▸ houtcome, hunread,
    outcome_by_shape method renamed "f" _ _ hshape rfl (Or.inr hunread)⟩

end CallBinding
