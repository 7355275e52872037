import CallBinding.Proofs.ArityRule
import Mathlib.Data.List.Basic
import Mathlib.Tactic.ByContra

/-!
Binding as a division of the arguments. A parameter list takes arguments when they can be cut into
consecutive parts, one for each kind of slot in the order of declaration, so that each part suits
its slots (`Params.Division`). The definition does not say where to cut. Binding cuts greedily, from
the front, then at the last argument, then from the back, and may start over without a hash;
`bindable_iff_division` shows that it finds a division whenever there is one, and that a call binds
for no other reason.
-/

set_option autoImplicit false
set_option relaxedAutoImplicit false

namespace CallBinding

/-- A hash passes the keyword of a name under one of its labels. -/
def ArgumentFacts.Names (arg : ArgumentFacts) (name : String) : Prop :=
  ∃ label ∈ arg.labels, withoutTrailingColon label = name

namespace Params

/-- An argument can be the keyword hash of a call: its value is not known before the call is made,
or it is a hash that names what is required and nothing that is not declared. -/
inductive AcceptsHash (p : Params) (arg : ArgumentFacts) : Prop
  | value (hhash : arg.isHash = false) (hliteral : arg.isLiteral = false)
  | hash (hhash : arg.isHash = true)
      (hrequired : arg.hasSplat = true ∨ ∀ k ∈ p.keyword, k.required = true → arg.Names k.name)
      (hdeclared : p.keywordRest.isSome = true ∨
        ∀ label ∈ arg.labels, ∃ k ∈ p.keyword, k.name = withoutTrailingColon label)

/-- The arguments of a call cut into parts, one for each kind of slot. -/
structure Division (p : Params) (args : List ArgumentFacts) where
  normal : List ArgumentFacts
  optional : List ArgumentFacts
  splat : List ArgumentFacts
  postRest : List ArgumentFacts
  hash : List ArgumentFacts
  append_eq : args = normal ++ optional ++ splat ++ postRest ++ hash
  length_normal : normal.length = p.normal.length
  length_optional_le : optional.length ≤ p.optional.length
  splat_eq_nil : p.rest = none → splat = []
  length_postRest : postRest.length = p.postRest.length
  length_hash_le : hash.length ≤ 1
  hash_eq_nil : p.keyword = [] → p.keywordRest = none → hash = []
  hash_ne_nil : (∃ k ∈ p.keyword, k.hasDefault = false) → hash ≠ []
  acceptsHash : ∀ arg ∈ hash, p.AcceptsHash arg

variable {p : Params} {arg : ArgumentFacts} {args : List ArgumentFacts}

/-! ### The keyword hash -/

theorem mem_receivedNames {name : String} : name ∈ receivedNames arg ↔ arg.Names name := by
  simp [receivedNames, ArgumentFacts.Names]

theorem mem_keywordNames {name : String} :
    name ∈ p.keywordNames ↔ ∃ k ∈ p.keyword, k.name = name := by
  simp [keywordNames]

theorem mem_requiredKeywordNames {name : String} :
    name ∈ p.requiredKeywordNames ↔ ∃ k ∈ p.keyword, k.required = true ∧ k.name = name := by
  simp [requiredKeywordNames, and_assoc]

theorem missingKeywords_eq_nil_iff : p.missingKeywords arg = [] ↔
    ∀ k ∈ p.keyword, k.required = true → arg.Names k.name := by
  simp only [missingKeywords, List.filter_eq_nil_iff, mem_requiredKeywordNames, Bool.not_eq_true,
    Bool.not_eq_false', List.contains_iff_mem, mem_receivedNames]
  constructor
  · intro h k hk hrequired
    exact h k.name ⟨k, hk, hrequired, rfl⟩
  · rintro h _ ⟨k, hk, hrequired, rfl⟩
    exact h k hk hrequired

theorem unexpectedKeywords_eq_nil_iff : p.unexpectedKeywords arg = [] ↔
    ∀ label ∈ arg.labels, ∃ k ∈ p.keyword, k.name = withoutTrailingColon label := by
  simp [unexpectedKeywords, receivedNames, mem_keywordNames, List.filter_eq_nil_iff]

theorem usable_iff_of_not_hash (hhash : arg.isHash = false) :
    p.Usable arg ↔ arg.isLiteral = false := by
  simp only [Usable, checkKeywordHash, hhash, Bool.not_false, if_true]
  cases arg.isLiteral <;> simp

theorem usable_iff_of_hash (hhash : arg.isHash = true) :
    p.Usable arg ↔ (arg.hasSplat = true ∨ p.missingKeywords arg = []) ∧
      (p.keywordRest.isSome = true ∨ p.unexpectedKeywords arg = []) := by
  simp only [Usable, checkKeywordHash, hhash, Bool.not_true, Bool.false_eq_true, if_false]
  by_cases hmissing : arg.hasSplat = true ∨ p.missingKeywords arg = []
  · have hpass : ¬ (!arg.hasSplat && decide (p.missingKeywords arg ≠ [])) = true := by
      rcases hmissing with h | h <;> simp [h]
    by_cases hunexpected : p.keywordRest.isSome = true ∨ p.unexpectedKeywords arg = []
    · have hpass' : ¬ (p.keywordRest.isNone && decide (p.unexpectedKeywords arg ≠ [])) = true := by
        rcases hunexpected with hrest | hnil
        · obtain ⟨name, hname⟩ := Option.isSome_iff_exists.mp hrest
          simp [hname]
        · simp [hnil]
      rw [if_neg hpass, if_neg hpass']
      exact iff_of_true rfl ⟨hmissing, hunexpected⟩
    · have hfail : (p.keywordRest.isNone && decide (p.unexpectedKeywords arg ≠ [])) = true := by
        simpa [not_or] using hunexpected
      rw [if_neg hpass, if_pos hfail]
      exact iff_of_false Bool.false_ne_true fun h ↦ hunexpected h.2
  · have hfail : (!arg.hasSplat && decide (p.missingKeywords arg ≠ [])) = true := by
      simpa [not_or] using hmissing
    rw [if_pos hfail]
    exact iff_of_false Bool.false_ne_true fun h ↦ hmissing h.1

/-- The check of the keyword hash passes the arguments that can be one. -/
theorem usable_iff_acceptsHash : p.Usable arg ↔ p.AcceptsHash arg := by
  cases hhash : arg.isHash with
  | false =>
    rw [usable_iff_of_not_hash hhash]
    constructor
    · exact .value hhash
    · rintro (⟨-, hliteral⟩ | ⟨htrue, -, -⟩)
      · exact hliteral
      · exact absurd (hhash.symm.trans htrue) Bool.false_ne_true
  | true =>
    rw [usable_iff_of_hash hhash, missingKeywords_eq_nil_iff, unexpectedKeywords_eq_nil_iff]
    constructor
    · rintro ⟨hrequired, hdeclared⟩
      exact .hash hhash hrequired hdeclared
    · rintro (⟨hfalse, -⟩ | ⟨-, hrequired, hdeclared⟩)
      · exact absurd (hfalse.symm.trans hhash) Bool.false_ne_true
      · exact ⟨hrequired, hdeclared⟩

theorem usable_eq_acceptsHash (p : Params) : p.Usable = p.AcceptsHash :=
  funext fun _ ↦ propext usable_iff_acceptsHash

theorem takesKeywords_eq_false_iff :
    p.takesKeywords = false ↔ p.keyword = [] ∧ p.keywordRest = none := by
  simp [takesKeywords]

theorem requiresKeywords_iff :
    p.requiresKeywords = true ↔ ∃ k ∈ p.keyword, k.hasDefault = false := by
  simp [requiresKeywords, KeywordParam.required]

/-! ### Positional arguments -/

/-- A count that fits is divided among the positional slots: the required slots in front and at the
back are filled, and what stands between them goes to the optional slots before the splat. -/
theorem exists_positional_division (h : p.arity.Fits args.length) :
    ∃ normal optional splat postRest : List ArgumentFacts,
      args = normal ++ optional ++ splat ++ postRest ∧ normal.length = p.normal.length ∧
        optional.length ≤ p.optional.length ∧ (p.rest = none → splat = []) ∧
          postRest.length = p.postRest.length := by
  obtain ⟨hrequired, hroom⟩ := h
  simp only [arity] at hrequired hroom
  let tail := args.drop p.normal.length
  let between := tail.take (tail.length - p.postRest.length)
  have htail : tail.length = args.length - p.normal.length := List.length_drop
  have hbetween : between.length = tail.length - p.postRest.length := by
    rw [List.length_take]
    omega
  refine ⟨args.take p.normal.length, between.take p.optional.length,
    between.drop p.optional.length, tail.drop (tail.length - p.postRest.length), ?_, ?_, ?_, ?_, ?_⟩
  · rw [List.append_assoc, List.append_assoc, ← List.append_assoc (between.take _),
      List.take_append_drop, List.take_append_drop, List.take_append_drop]
  · rw [List.length_take]
    omega
  · exact List.length_take_le _ _
  · intro hrest
    rw [hrest] at hroom
    have hle := hroom.resolve_left (by simp)
    exact List.drop_eq_nil_of_le (by omega)
  · rw [List.length_drop]
    omega

/-- The parts of the positional arguments have a length that fits. -/
theorem fits_of_division {normal optional splat postRest : List ArgumentFacts}
    (hnormal : normal.length = p.normal.length) (hoptional : optional.length ≤ p.optional.length)
    (hsplat : p.rest = none → splat = []) (hpost : postRest.length = p.postRest.length) :
    p.arity.Fits (normal ++ optional ++ splat ++ postRest).length := by
  simp only [Arity.Fits, arity, List.length_append]
  refine ⟨by omega, ?_⟩
  cases hrest : p.rest with
  | some name => exact Or.inl rfl
  | none =>
    have hnil := hsplat hrest
    subst hnil
    refine Or.inr ?_
    simp only [List.length_nil]
    omega

/-- Arguments that fit are divided without a hash, where no keyword is required. -/
theorem nonempty_division_of_fits (hrequires : p.requiresKeywords = false)
    (hfits : p.arity.Fits args.length) : Nonempty (p.Division args) := by
  obtain ⟨normal, optional, splat, postRest, happend, hnormal, hoptional, hsplat, hpost⟩ :=
    exists_positional_division hfits
  refine ⟨⟨normal, optional, splat, postRest, [], ?_, hnormal, hoptional, hsplat, hpost,
    Nat.zero_le 1, fun _ _ ↦ rfl, ?_, ?_⟩⟩
  · rw [List.append_nil]
    exact happend
  · intro hsome
    exact absurd (hrequires.symm.trans (requiresKeywords_iff.mpr hsome)) Bool.false_ne_true
  · intro arg harg
    exact absurd harg List.not_mem_nil

/-- Arguments that fit before a hash are divided with it, where keywords are declared. -/
theorem nonempty_division_of_fitsBeforeHash (htakes : p.takesKeywords = true)
    (hhash : p.arity.FitsBeforeHash p.AcceptsHash args) : Nonempty (p.Division args) := by
  obtain ⟨last, hlast, haccepts, hfits⟩ := hhash
  rw [← List.length_dropLast] at hfits
  obtain ⟨normal, optional, splat, postRest, happend, hnormal, hoptional, hsplat, hpost⟩ :=
    exists_positional_division hfits
  refine ⟨⟨normal, optional, splat, postRest, [last], ?_, hnormal, hoptional, hsplat, hpost,
    Nat.le_refl 1, ?_, fun _ ↦ List.cons_ne_nil _ _, ?_⟩⟩
  · rw [← happend]
    exact (List.dropLast_append_getLast? last hlast).symm
  · intro hkeyword hrest
    have hfalse := takesKeywords_eq_false_iff.mpr ⟨hkeyword, hrest⟩
    exact absurd (hfalse.symm.trans htakes) Bool.false_ne_true
  · intro arg harg
    rw [List.mem_singleton.mp harg]
    exact haccepts

/-- The arity allows the arguments of a division. -/
theorem allows_of_division (parts : p.Division args) : p.arity.Allows p.AcceptsHash args := by
  obtain ⟨normal, optional, splat, postRest, hash, happend, hnormal, hoptional, hsplat, hpost,
    hone, hnone, hsome, haccepts⟩ := parts
  have hfits := fits_of_division hnormal hoptional hsplat hpost
  rw [arity_allows_iff]
  cases hash with
  | nil =>
    refine Or.inl ⟨?_, ?_⟩
    · rw [Bool.eq_false_iff]
      intro hrequires
      exact hsome (requiresKeywords_iff.mp hrequires) rfl
    · rw [happend, List.append_nil]
      exact hfits
  | cons last more =>
    have hmore : more = [] := List.eq_nil_of_length_eq_zero (by simpa using hone)
    subst hmore
    refine Or.inr ⟨?_, last, ?_, haccepts last (List.mem_singleton_self last), ?_⟩
    · by_contra hnot
      obtain ⟨hkeyword, hrest⟩ := takesKeywords_eq_false_iff.mp (Bool.eq_false_iff.mpr hnot)
      exact List.cons_ne_nil _ _ (hnone hkeyword hrest)
    · rw [happend]
      exact List.getLast?_concat
    · rw [happend, List.length_append, List.length_singleton, Nat.add_sub_cancel]
      exact hfits

/-- Arguments can be divided exactly when the arity allows them. -/
theorem nonempty_division_iff_allows :
    Nonempty (p.Division args) ↔ p.arity.Allows p.Usable args := by
  rw [usable_eq_acceptsHash]
  constructor
  · rintro ⟨parts⟩
    exact allows_of_division parts
  · intro hallows
    rcases arity_allows_iff.mp hallows with ⟨hrequires, hfits⟩ | ⟨htakes, hhash⟩
    · exact nonempty_division_of_fits hrequires hfits
    · exact nonempty_division_of_fitsBeforeHash htakes hhash

/-- Whether arguments can be divided is decided by binding them. -/
instance decidableDivision (p : Params) (args : List ArgumentFacts) :
    Decidable (Nonempty (p.Division args)) :=
  decidable_of_iff (((MethodDef.mk "" p "").bind "" args).bindable = true) <| by
    rw [MethodDef.bindable_bind_iff_allows, nonempty_division_iff_allows]
    exact and_iff_right rfl

end Params

/-- Binding is sound and complete for divisions: a call binds when it is by the name of the method
and its arguments can be divided among the slots, wherever the cuts fall, and otherwise it does
not. -/
theorem MethodDef.bindable_iff_division (d : MethodDef) (name : String)
    (args : List ArgumentFacts) :
    (d.bind name args).bindable = true ↔
      name = d.name ∧ Nonempty (d.params.Division args) := by
  rw [d.bindable_bind_iff_allows, Params.nonempty_division_iff_allows]

end CallBinding
