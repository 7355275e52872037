import CallBinding.Bind
import Mathlib.Tactic.SplitIfs

/-!
The arity rule. Whether a call binds depends on the parameter list through five things only: how
many arguments the required and the optional slots take, whether a splat takes what is left over,
and whether keywords may and have to be passed (`Params.arity`). A count of positional arguments
fits when it fills the required slots and leaves nothing over (`Arity.Fits`), and a call is allowed
when all of its arguments fit or, where keywords are declared, all but a last one that can be their
hash (`Arity.Allows`). How the required slots are divided between the front and the back does not
occur in the rule.

`bindable_bind_iff_allows` is the specification of `MethodDef.bind` from which the facts about
bindable calls are derived.
-/

set_option autoImplicit false
set_option relaxedAutoImplicit false

namespace CallBinding

/-- What a parameter list asks of the number of arguments: the counts of required and of optional
slots, whether a splat takes the rest, and whether keywords may and have to be passed. -/
structure Arity where
  required : Nat
  optional : Nat
  splat : Bool
  takesKeywords : Bool
  requiresKeywords : Bool
  deriving DecidableEq

namespace Arity

variable {a : Arity} {usable : ArgumentFacts → Prop} {args : List ArgumentFacts}

/-- A count of positional arguments fills the required slots and leaves nothing over. -/
def Fits (a : Arity) (count : Nat) : Prop :=
  a.required ≤ count ∧ (a.splat = true ∨ count ≤ a.required + a.optional)

/-- The last argument can be the keyword hash, and those before it fit. -/
def FitsBeforeHash (a : Arity) (usable : ArgumentFacts → Prop) (args : List ArgumentFacts) :
    Prop :=
  ∃ last, args.getLast? = some last ∧ usable last ∧ a.Fits (args.length - 1)

/-- Which arguments a parameter list of an arity takes, when the arguments that can be a keyword
hash are the `usable` ones. -/
def Allows (a : Arity) (usable : ArgumentFacts → Prop) (args : List ArgumentFacts) : Prop :=
  if a.requiresKeywords then a.FitsBeforeHash usable args
  else if a.takesKeywords then a.Fits args.length ∨ a.FitsBeforeHash usable args
  else a.Fits args.length

theorem FitsBeforeHash.required_lt (h : a.FitsBeforeHash usable args) :
    a.required < args.length := by
  obtain ⟨last, hlast, -, hcount, -⟩ := h
  have hne : args ≠ [] := by
    rintro rfl
    simp at hlast
  have hpos := List.length_pos_iff.mpr hne
  omega

theorem Allows.required_le (h : a.Allows usable args) : a.required ≤ args.length := by
  unfold Allows at h
  split_ifs at h with hrequired htakes
  · exact Nat.le_of_lt h.required_lt
  · rcases h with hfits | hhash
    · exact hfits.1
    · exact Nat.le_of_lt hhash.required_lt
  · exact h.1

end Arity

namespace Params

variable {p : Params} {args : List ArgumentFacts}

/-- The arity of a parameter list. -/
def arity (p : Params) : Arity where
  required := p.normal.length + p.postRest.length
  optional := p.optional.length
  splat := p.rest.isSome
  takesKeywords := p.takesKeywords
  requiresKeywords := p.requiresKeywords

/-- An argument passes the check of the keyword hash. -/
def Usable (p : Params) (arg : ArgumentFacts) : Prop :=
  (p.checkKeywordHash (some arg)).bindable = true

theorem takesKeywords_of_requiresKeywords (h : p.requiresKeywords = true) :
    p.takesKeywords = true := by
  obtain ⟨k, hk, -⟩ := List.any_eq_true.mp h
  have hne := List.ne_nil_of_mem hk
  simp [takesKeywords, hne]

/-- The two ways in which the arity of a parameter list allows arguments: without a hash where no
keyword is required, and with a hash where keywords are declared. -/
theorem arity_allows_iff {usable : ArgumentFacts → Prop} : p.arity.Allows usable args ↔
    (p.requiresKeywords = false ∧ p.arity.Fits args.length) ∨
      (p.takesKeywords = true ∧ p.arity.FitsBeforeHash usable args) := by
  unfold Arity.Allows
  by_cases hrequires : p.requiresKeywords = true
  · have htakes := takesKeywords_of_requiresKeywords hrequires
    rw [if_pos (show p.arity.requiresKeywords = true from hrequires)]
    simp [hrequires, htakes]
  · rw [if_neg (show ¬ p.arity.requiresKeywords = true from hrequires)]
    by_cases htakes : p.takesKeywords = true
    · rw [if_pos (show p.arity.takesKeywords = true from htakes)]
      simp [hrequires, htakes]
    · rw [if_neg (show ¬ p.arity.takesKeywords = true from htakes)]
      simp [hrequires, htakes]

/-- The tail binds by its length alone. -/
theorem bindable_bindTail_iff : (p.bindTail args).bindable = true ↔
    p.postRest.length ≤ args.length ∧
      (p.rest.isSome = true ∨ args.length ≤ p.postRest.length + p.optional.length) := by
  unfold bindTail
  by_cases hshort : args.length < p.postRest.length
  · rw [if_pos hshort]
    simp only [Outcome.bindable_miscounted, Bool.false_eq_true, false_iff, not_and]
    intro hle
    omega
  · have hle : p.postRest.length ≤ args.length := Nat.le_of_not_lt hshort
    rw [if_neg hshort]
    by_cases hrest : p.rest.isSome = true
    · simp [hrest, hle]
    · by_cases hroom : args.length - p.postRest.length ≤ p.optional.length
      · have hcount : args.length ≤ p.postRest.length + p.optional.length := by omega
        simp [hroom, hle, hcount]
      · have hcount : ¬ args.length ≤ p.postRest.length + p.optional.length := by omega
        simp [hrest, hroom, hcount]

/-- Binding with a hash succeeds when the last argument can be the hash and those before it bind as
the tail. -/
theorem bindable_bindWithHash_iff : (p.bindWithHash args).bindable = true ↔
    ∃ last, args.getLast? = some last ∧ p.Usable last ∧
      (p.bindTail args.dropLast).bindable = true := by
  unfold bindWithHash
  cases hlast : args.getLast? with
  | none => simp [checkKeywordHash]
  | some last =>
    by_cases husable : (p.checkKeywordHash (some last)).bindable = true
    · simp [Usable, husable]
    · simp [Usable, husable]

/-- What is left of `count` arguments after the normal slots binds as the tail when the count
fits. -/
theorem bindable_bindTail_iff_fits {count : Nat} (h : args.length + p.normal.length = count) :
    (p.bindTail args).bindable = true ↔ p.arity.Fits count := by
  have hrequired : p.postRest.length ≤ args.length ↔
      p.normal.length + p.postRest.length ≤ count := by omega
  have hroom : args.length ≤ p.postRest.length + p.optional.length ↔
      count ≤ p.normal.length + p.postRest.length + p.optional.length := by omega
  rw [bindable_bindTail_iff, hrequired, hroom]
  exact Iff.rfl

/-- The arguments after the normal slots bind with a hash when all arguments before the hash
fit. -/
theorem bindable_bindWithHash_drop_iff (h : p.normal.length ≤ args.length) :
    (p.bindWithHash (args.drop p.normal.length)).bindable = true ↔
      p.arity.FitsBeforeHash p.Usable args := by
  by_cases hall : p.normal.length = args.length
  · -- nothing is left over for the hash, and a call whose hash is a normal argument is too short
    have hempty : args.drop p.normal.length = [] := by
      rw [hall]
      exact List.drop_length
    rw [hempty, bindable_bindWithHash_iff]
    constructor
    · rintro ⟨last, hlast, -⟩
      simp at hlast
    · intro hhash
      have hlt := hhash.required_lt
      simp only [arity] at hlt
      omega
  · have hlast : (args.drop p.normal.length).getLast? = args.getLast? := by
      rw [List.getLast?_drop, if_neg (by omega)]
    have hlength : (args.drop p.normal.length).dropLast.length + p.normal.length =
        args.length - 1 := by
      rw [List.length_dropLast, List.length_drop]
      omega
    rw [bindable_bindWithHash_iff, hlast]
    simp only [bindable_bindTail_iff_fits hlength, Arity.FitsBeforeHash]

/-- The arguments after the normal slots bind when the arity allows all arguments. -/
theorem bindable_bindRemaining_drop_iff (h : p.normal.length ≤ args.length) :
    (p.bindRemaining (args.drop p.normal.length)).bindable = true ↔
      p.arity.Allows p.Usable args := by
  have hlength : (args.drop p.normal.length).length + p.normal.length = args.length := by
    rw [List.length_drop]
    omega
  rw [arity_allows_iff, ← bindable_bindTail_iff_fits hlength, ← bindable_bindWithHash_drop_iff h]
  unfold bindRemaining
  by_cases hrequires : p.requiresKeywords = true
  · have htakes := takesKeywords_of_requiresKeywords hrequires
    simp [hrequires, htakes]
  · by_cases htakes : p.takesKeywords = true
    · -- the second attempt is made only when the first one failed
      by_cases hfirst : (p.bindTail (args.drop p.normal.length)).bindable = true
      · simp [hrequires, hfirst]
      · simp [hrequires, htakes, hfirst]
    · simp [hrequires, htakes]

end Params

namespace MethodDef

/-- A call binds when it is by the name of the method and the arity of the method allows its
arguments. -/
theorem bindable_bind_iff_allows (d : MethodDef) (name : String) (args : List ArgumentFacts) :
    (d.bind name args).bindable = true ↔
      name = d.name ∧ d.params.arity.Allows d.params.Usable args := by
  unfold bind
  by_cases hname : name = d.name
  · by_cases hshort : args.length < d.params.normal.length
    · have hnot : ¬ d.params.arity.Allows d.params.Usable args := by
        intro hallows
        have hle := hallows.required_le
        simp only [Params.arity] at hle
        omega
      simp [hname, hshort, hnot]
    · simp only [hname, ne_eq, not_true_eq_false, if_false, hshort, true_and]
      exact Params.bindable_bindRemaining_drop_iff (Nat.le_of_not_lt hshort)
  · simp [hname]

end MethodDef

end CallBinding
