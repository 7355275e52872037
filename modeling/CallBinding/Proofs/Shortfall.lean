import CallBinding.Proofs.Diagnosis

/-!
How many arguments a call that is too short at the end lacks. Such a call is reported with the
counts of what its post-rest slots are given and of what they need. Where no keywords are declared,
or one is required, the difference is what it takes for the call to bind, and nothing less does
(`reported_shortfall_is_least`). Where all keywords can be left out, the last argument has been set
aside as their hash before the count; with one argument more the call is read as purely positional,
so the report asks for exactly one argument too many.
-/

set_option autoImplicit false
set_option relaxedAutoImplicit false

namespace CallBinding

/-- Keywords are declared and none of them is required, so that a call is tried without a hash
first. -/
def Params.MayOmitKeywords (p : Params) : Prop :=
  p.takesKeywords = true ∧ p.requiresKeywords = false

/-- Where keywords are declared, the hash is one argument besides those that are counted. -/
theorem Params.Parted.length_eq_succ {p : Params} {args front : List ArgumentFacts}
    {hash : Option ArgumentFacts} (h : p.Parted args front hash) (htakes : p.takesKeywords = true) :
    args.length = front.length + 1 := by
  have hlength := h.length_eq
  cases hash with
  | none => exact absurd (h.isSome_eq.trans htakes) Bool.false_ne_true
  | some last => exact hlength.symm

namespace MethodDef

/-- A call lacks a number of arguments: no call that is made from it by inserting fewer, at whatever
places, binds. -/
def Lacks (d : MethodDef) (name : String) (args : List ArgumentFacts) (missing : Nat) : Prop :=
  ∀ count longer, args.Sublist longer → longer.length = args.length + count → count < missing →
    (d.bind name longer).bindable = false

variable {d : MethodDef} {name : String} {args front : List ArgumentFacts}
  {hash : Option ArgumentFacts}

/-- A call that binds fills the required slots, and has a hash besides them where a keyword is
required. -/
theorem required_le_of_bindable (h : (d.bind name args).bindable = true) :
    d.params.normal.length + d.params.postRest.length ≤ args.length ∧
      (d.params.requiresKeywords = true →
        d.params.normal.length + d.params.postRest.length < args.length) := by
  have hallows := ((d.bindable_bind_iff_allows name args).mp h).2
  refine ⟨hallows.required_le, fun hrequires ↦ ?_⟩
  rcases Params.arity_allows_iff.mp hallows with ⟨hnot, -⟩ | ⟨-, hhash⟩
  · rw [hrequires] at hnot
    exact absurd hnot (by decide)
  · exact hhash.required_lt

/-- Where the hash is not taken for a positional argument, a call lacks what the arguments in front
of the hash lack. -/
theorem lacks_of_parted (hparted : d.params.Parted args front hash)
    (homit : ¬ d.params.MayOmitKeywords) :
    d.Lacks name args
      (d.params.normal.length + d.params.postRest.length - front.length) := by
  intro count longer _ hcount hfew
  rw [Bool.eq_false_iff]
  intro hbindable
  obtain ⟨hle, hlt⟩ := required_le_of_bindable hbindable
  cases hash with
  | none =>
    have hlength : front.length = args.length := hparted.length_eq
    omega
  | some last =>
    have htakes : d.params.takesKeywords = true := hparted.isSome_eq.symm
    have hrequires : d.params.requiresKeywords = true := by
      rw [← Bool.not_eq_false]
      exact fun hnot ↦ homit ⟨htakes, hnot⟩
    have hlength := hparted.length_eq_succ htakes
    have hmore := hlt hrequires
    omega

/-- Where the keywords can be left out, a call lacks one argument less than those in front of the
hash do, because the hash can be one of the positional arguments. -/
theorem lacks_of_parted_of_mayOmitKeywords (hparted : d.params.Parted args front hash)
    (homit : d.params.MayOmitKeywords) :
    d.Lacks name args
      (d.params.normal.length + d.params.postRest.length - front.length - 1) := by
  intro count longer _ hcount hfew
  rw [Bool.eq_false_iff]
  intro hbindable
  have hle := (required_le_of_bindable hbindable).1
  have hlength := hparted.length_eq_succ homit.1
  omega

/-- A call with exactly as many arguments as are required binds where the keywords can be left
out. -/
theorem bindable_of_length_eq_required (homit : d.params.MayOmitKeywords)
    (hlength : args.length = d.params.normal.length + d.params.postRest.length) :
    (d.bind d.name args).bindable = true := by
  rw [bindable_bind_iff_allows, Params.arity_allows_iff]
  refine ⟨rfl, Or.inl ⟨homit.2, ?_⟩⟩
  simp only [Arity.Fits, Params.arity]
  omega

/-- The counts of a call that is too short at the end. Their difference is the least number of
arguments to insert where the method declares no keywords or requires one. Where it declares
keywords and requires none, the difference is at least two and the least number is one less: any
call with one argument less than the report asks for binds, all of its arguments being
positional. -/
theorem reported_shortfall_is_least (d : MethodDef) (name : String) (args : List ArgumentFacts)
    (h : (d.bind name args).reason = some .insufficientPostRest) :
    ∃ received expected, d.bind name args = .miscounted .insufficientPostRest received expected ∧
      received < expected ∧
      (¬ d.params.MayOmitKeywords → d.Lacks name args (expected - received)) ∧
      (d.params.MayOmitKeywords → received + 1 < expected ∧
        d.Lacks name args (expected - received - 1) ∧
        ∀ longer, args.Sublist longer →
          longer.length = args.length + (expected - received - 1) →
            (d.bind name longer).bindable = true) := by
  obtain ⟨rfl, front, hash, hparted, hnormal, htail⟩ :=
    (d.bindRule_bind name args).exists_parted (Or.inr h)
  generalize houtcome : d.bind d.name args = o at h htail
  cases htail with
  | room hpost hroom => exact absurd h (by simp)
  | excess hrest hexcess => exact absurd h (by simp)
  | short hshort =>
    have hmissing : d.params.normal.length + d.params.postRest.length - front.length =
        d.params.postRest.length - (front.length - d.params.normal.length) := by omega
    refine ⟨_, _, rfl, hshort, fun homit ↦ ?_, fun homit ↦ ?_⟩
    · rw [← hmissing]
      exact lacks_of_parted hparted homit
    · have hlength := hparted.length_eq_succ homit.1
      refine ⟨?_, ?_, fun longer _ hcount ↦ bindable_of_length_eq_required homit (by omega)⟩
      · -- with one argument less than required in front of the hash the call would have bound
        by_contra hnot
        have hbindable : (d.bind d.name args).bindable = true :=
          bindable_of_length_eq_required homit (by omega)
        rw [houtcome] at hbindable
        exact absurd hbindable (by simp)
      · rw [← hmissing]
        exact lacks_of_parted_of_mayOmitKeywords hparted homit

/-- The method of `def f(*r, a, b, opt: 1)`. -/
def trailingPair : MethodDef :=
  ⟨"f", { rest := some "r", postRest := ["a", "b"], keyword := [⟨"opt:", true, rfl⟩] },
    "def f(*r, a, b, opt: 1)"⟩

/-- The method of `def f(*r, a, b, key:)`. -/
def trailingPairAndKey : MethodDef :=
  ⟨"f", { rest := some "r", postRest := ["a", "b"], keyword := [⟨"key:", false, rfl⟩] },
    "def f(*r, a, b, key:)"⟩

/-- A call with one argument of unknown value is told that two are missing, and binds when one is
inserted in front of it. -/
theorem shortfall_overstated_of_optional_keyword :
    trailingPair.bind "f" [{}] = .miscounted .insufficientPostRest 0 2 ∧
      trailingPair.params.Inserts 1 [{}] [{}, {}] ∧ 1 < 2 - 0 ∧
      (trailingPair.bind "f" [{}, {}]).bindable = true :=
  ⟨by decide, ⟨by decide, rfl, fun _ ↦ rfl⟩, by decide, by decide⟩

/-- When the keyword is required, the two arguments are missing indeed. -/
theorem reported_shortfall_is_least_of_required_keyword :
    (trailingPairAndKey.bind "f" [{}]).reason = some .insufficientPostRest ∧
      trailingPairAndKey.bind "f" [{}] = .miscounted .insufficientPostRest 0 2 ∧
      trailingPairAndKey.Lacks "f" [{}] 2 := by
  have houtcome : trailingPairAndKey.bind "f" [{}] = .miscounted .insufficientPostRest 0 2 := by
    decide
  have hreason : (trailingPairAndKey.bind "f" [{}]).reason = some .insufficientPostRest := by
    rw [houtcome]
    rfl
  have homit : ¬ trailingPairAndKey.params.MayOmitKeywords :=
    fun homit ↦ absurd homit.2 (by decide)
  obtain ⟨received, expected, hcounts, -, hlacks, -⟩ :=
    reported_shortfall_is_least trailingPairAndKey "f" [{}] hreason
  have hdifference : 2 = expected - received := by
    rw [houtcome] at hcounts
    simp only [Outcome.miscounted, Outcome.mk.injEq, Option.some.injEq] at hcounts
    omega
  refine ⟨hreason, houtcome, ?_⟩
  rw [hdifference]
  exact hlacks homit

end MethodDef

end CallBinding
