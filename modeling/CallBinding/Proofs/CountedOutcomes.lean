import CallBinding.Proofs.BrokenCalls
import CallBinding.Proofs.Diagnosis

/-!
The outcome of every call, read off a table of counts. Beside its name and its last argument a call
enters the table with one number, that of its arguments. The table compares it with the numbers of
normal, optional and post-rest slots, and distinguishes whether there is a splat and whether
keywords may and have to be passed. Binding takes lists apart, and where all keywords have defaults
it tries a second time; `outcome_by_counts` says that it answers what stands in the table, with the
counts that the answer carries.

An entry of the table is an answer and the condition under which it is given
(`Outcome.AnswersIff`). The three entries on the arguments behind the normal slots and in front of
the hash stand together (`Params.CountsTo`), because they are used with two different counts.
-/

set_option autoImplicit false
set_option relaxedAutoImplicit false

namespace CallBinding

/-- An outcome has the reason of an answer exactly under a condition, and it is then that answer,
with all that it carries. -/
structure Outcome.AnswersIff (o answer : Outcome) (condition : Prop) : Prop where
  reason_eq_iff : o.reason = answer.reason ↔ condition
  eq_of_condition : condition → o = answer

theorem Outcome.AnswersIff.intro {o answer : Outcome} {condition : Prop}
    (hgiven : condition → o = answer) (hnot : ¬ condition → o.reason ≠ answer.reason) :
    o.AnswersIff answer condition where
  reason_eq_iff := by
    constructor
    · intro hreason
      by_contra hcondition
      exact hnot hcondition hreason
    · intro hcondition
      rw [hgiven hcondition]
  eq_of_condition := hgiven

namespace Params

variable {p : Params} {count : Nat} {o : Outcome}

/-- A number of arguments fills the slots at the end, and the optional slots and the splat take what
is left over. -/
def TakesAtEnd (p : Params) (count : Nat) : Prop :=
  p.postRest.length ≤ count ∧
    (p.rest.isSome = true ∨ count ≤ p.postRest.length + p.optional.length)

/-- What is said of a number of arguments that stand behind the normal slots and in front of the
hash: they are too few for the slots at the end, or too many, or they bind. -/
structure CountsTo (p : Params) (count : Nat) (o : Outcome) : Prop where
  short : o.AnswersIff (.miscounted .insufficientPostRest count p.postRest.length)
    (count < p.postRest.length)
  excess : o.AnswersIff
    (.miscounted .tooManyArguments (count - p.postRest.length) p.optional.length)
    (p.rest = none ∧ p.postRest.length + p.optional.length < count)
  binds : o.AnswersIff .ok (¬ count < p.postRest.length ∧
    ¬ (p.rest = none ∧ p.postRest.length + p.optional.length < count))

theorem TailRule.countsTo (h : p.TailRule count o) : p.CountsTo count o := by
  cases h with
  | short hshort =>
    refine ⟨.intro (fun _ ↦ rfl) fun hnot ↦ absurd hshort hnot,
      .intro (fun hexcess ↦ ?_) fun _ ↦ by simp,
      .intro (fun hbinds ↦ absurd hshort hbinds.1) fun _ ↦ by simp⟩
    exact absurd hexcess.2 (by omega)
  | room hpost hroom =>
    have hexcess : ¬ (p.rest = none ∧ p.postRest.length + p.optional.length < count) := by
      rintro ⟨hnone, hcount⟩
      rcases hroom with hrest | hroom
      · rw [hnone] at hrest
        exact absurd hrest (by decide)
      · omega
    exact ⟨.intro (fun hshort ↦ absurd hshort (by omega)) fun _ ↦ by simp,
      .intro (fun h ↦ absurd h hexcess) fun _ ↦ by simp,
      .intro (fun _ ↦ rfl) fun hnot ↦ absurd ⟨by omega, hexcess⟩ hnot⟩
  | excess hrest hexcess =>
    exact ⟨.intro (fun hshort ↦ absurd hshort (by omega)) fun _ ↦ by simp,
      .intro (fun _ ↦ rfl) fun hnot ↦ absurd ⟨hrest, hexcess⟩ hnot,
      .intro (fun hbinds ↦ absurd ⟨hrest, hexcess⟩ hbinds.2) fun _ ↦ by simp⟩

/-- What the normal slots have left over of some arguments is taken at the end when the number of
all arguments fits. -/
theorem takesAtEnd_iff_fits {args : List ArgumentFacts} (h : p.normal.length ≤ args.length) :
    p.TakesAtEnd (args.length - p.normal.length) ↔ p.arity.Fits args.length := by
  have hlength : (args.drop p.normal.length).length + p.normal.length = args.length := by
    rw [List.length_drop]
    omega
  rw [← bindable_bindTail_iff_fits hlength, bindable_bindTail_iff, List.length_drop]
  exact Iff.rfl

end Params

namespace MethodDef

variable {d : MethodDef} {args : List ArgumentFacts}

/-- What is said of a call by the name of a method with keywords that fills the normal slots, when
its arguments do not bind without a hash. The first complaint is that there is no argument left for
the hash, the second is about the hash, and the others are about the arguments in front of it. -/
structure HashDecides (d : MethodDef) (args : List ArgumentFacts) : Prop where
  missing : (d.bind d.name args).AnswersIff (.failed .keywordsRequired)
    (args.length - d.params.normal.length = 0)
  unusable : ∀ hash, args.getLast? = some hash → args.length - d.params.normal.length ≠ 0 →
    (d.params.checkKeywordHash (some hash)).bindable = false →
      d.bind d.name args = d.params.checkKeywordHash (some hash)
  usable : ∀ hash, args.getLast? = some hash → args.length - d.params.normal.length ≠ 0 →
    (d.params.checkKeywordHash (some hash)).bindable = true →
      d.params.CountsTo (args.length - d.params.normal.length - 1) (d.bind d.name args)

theorem countsTo_of_not_setsAside (hnormal : d.params.normal.length ≤ args.length)
    (hall : ¬ d.params.SetsAside args.length) :
    d.params.CountsTo (args.length - d.params.normal.length) (d.bind d.name args) := by
  have htail := d.params.tailRule_bindTail (args.drop d.params.normal.length)
  rw [List.length_drop] at htail
  rw [bind_of_not_setsAside hnormal hall]
  exact htail.countsTo

theorem hashDecides_of_setsAside (hnormal : d.params.normal.length ≤ args.length)
    (haside : d.params.SetsAside args.length) : d.HashDecides args := by
  rcases Nat.eq_or_lt_of_le hnormal with hequal | hmore
  · have houtcome := bind_of_length_eq hequal.symm haside
    have hzero : args.length - d.params.normal.length = 0 := by omega
    exact ⟨.intro (fun _ ↦ houtcome) fun hnot ↦ absurd hzero hnot,
      fun _ _ hpos ↦ absurd hzero hpos, fun _ _ hpos ↦ absurd hzero hpos⟩
  · rcases List.eq_nil_or_concat' args with rfl | ⟨front, last, rfl⟩
    · exact absurd hmore (Nat.not_lt_zero _)
    rw [List.length_append, List.length_singleton] at hmore haside
    have hfront := Nat.le_of_lt_succ hmore
    have hbind : d.bind d.name (front ++ [last]) =
        if (d.params.checkKeywordHash (some last)).bindable then
          d.params.bindTail (front.drop d.params.normal.length)
        else d.params.checkKeywordHash (some last) := bind_concat_of_setsAside hfront haside
    have hrest : (front ++ [last]).length - d.params.normal.length - 1 =
        (front.drop d.params.normal.length).length := by
      rw [List.length_append, List.length_singleton, List.length_drop]
      omega
    have htail := d.params.tailRule_bindTail (front.drop d.params.normal.length)
    have hlast : ∀ hash, (front ++ [last]).getLast? = some hash → hash = last := by
      intro hash hhash
      rw [List.getLast?_concat] at hhash
      exact (Option.some_inj.mp hhash).symm
    refine ⟨.intro (fun hzero ↦ ?_) fun _ ↦ ?_, ?_, ?_⟩
    · rw [List.length_append, List.length_singleton] at hzero
      omega
    · -- both the hash and the arguments in front of it fail for other reasons
      rw [hbind]
      split_ifs
      · exact fun hreason ↦ absurd (hreason ▸ htail.reason_mem) (by decide)
      · exact fun hreason ↦
          absurd (hreason ▸ (d.params.hashRule_checkKeywordHash last).reason_mem) (by decide)
    · rintro hash hhash - hfails
      rw [hlast hash hhash] at hfails ⊢
      rw [hbind, if_neg (Bool.eq_false_iff.mp hfails)]
    · rintro hash hhash - husable
      rw [hlast hash hhash] at husable
      rw [hbind, if_pos husable, hrest]
      exact htail.countsTo

/-- The outcome of a call by the counts of its arguments and of the slots. A call is turned down
for another name, and then when its arguments do not fill the normal slots. Otherwise what is left
over is counted. Without keywords the count decides. With keywords the call binds when none is
required and the count is taken; when it does not bind so, the last argument has to be there and to
be usable as the hash, and the count of those in front of it decides. -/
theorem outcome_by_counts (d : MethodDef) (name : String) (args : List ArgumentFacts) :
    (d.bind name args).AnswersIff (.failed .nameMismatch) (name ≠ d.name) ∧
    (name = d.name → (d.bind name args).AnswersIff
      (.miscounted .insufficientPositional args.length d.params.normal.length)
      (args.length < d.params.normal.length)) ∧
    (name = d.name → d.params.normal.length ≤ args.length → d.params.takesKeywords = false →
      d.params.CountsTo (args.length - d.params.normal.length) (d.bind name args)) ∧
    (name = d.name → d.params.normal.length ≤ args.length → d.params.takesKeywords = true →
      (d.params.requiresKeywords = false ∧
          d.params.TakesAtEnd (args.length - d.params.normal.length) →
        d.bind name args = .ok) ∧
      (¬ (d.params.requiresKeywords = false ∧
          d.params.TakesAtEnd (args.length - d.params.normal.length)) →
        d.HashDecides args)) := by
  refine ⟨.intro bind_of_other_name fun hname ↦ ?_, ?_, ?_, ?_⟩
  · rw [Outcome.reason_failed, Ne, reason_bind_eq_nameMismatch_iff]
    exact hname
  · rintro rfl
    refine .intro bind_of_short fun hlong hreason ↦ hlong ?_
    exact ((d.bindRule_bind d.name args).length_lt hreason).2
  · rintro rfl hnormal hnone
    refine countsTo_of_not_setsAside hnormal fun haside ↦ ?_
    exact Bool.false_ne_true (hnone.symm.trans haside.1)
  · rintro rfl hnormal htakes
    rw [Params.takesAtEnd_iff_fits hnormal]
    refine ⟨?_, fun hnot ↦ ?_⟩
    · rintro ⟨hrequires, hfits⟩
      have hall : ¬ d.params.SetsAside args.length := by
        rintro ⟨-, hrequired | hunfit⟩
        · exact Bool.false_ne_true (hrequires.symm.trans hrequired)
        · exact hunfit hfits
      refine (countsTo_of_not_setsAside hnormal hall).binds.eq_of_condition ?_
      have htaken := (Params.takesAtEnd_iff_fits hnormal).mpr hfits
      refine ⟨Nat.not_lt.mpr htaken.1, ?_⟩
      rintro ⟨hrest, hexcess⟩
      have hroom := htaken.2.resolve_left (by simp [hrest])
      omega
    · refine hashDecides_of_setsAside hnormal ⟨htakes, ?_⟩
      by_cases hrequires : d.params.requiresKeywords = true
      · exact Or.inl hrequires
      · exact Or.inr fun hfits ↦ hnot ⟨Bool.eq_false_iff.mpr hrequires, hfits⟩

/-- The method of `def f(a, m = 1, z, by: 1)`. -/
def fourKinds : MethodDef :=
  ⟨"f",
    { normal := ["a"]
      optional := [⟨"m", "1"⟩]
      postRest := ["z"]
      keyword := [⟨"by:", true, rfl⟩] },
    "def f(a, m = 1, z, by: 1)"⟩

/-- Of five arguments of unknown value four are left over, which is too many without a hash. The
last one is set aside, and of the three in front of it two are left for one optional slot. -/
theorem outcome_by_counts_of_five_arguments :
    fourKinds.params.normal.length ≤ 5 ∧ fourKinds.params.takesKeywords = true ∧
      ¬ (fourKinds.params.requiresKeywords = false ∧ fourKinds.params.TakesAtEnd (5 - 1)) ∧
      (fourKinds.params.checkKeywordHash (some {})).bindable = true ∧
      fourKinds.bind "f" [{}, {}, {}, {}, {}] = .miscounted .tooManyArguments 2 1 := by
  have hunfit : ¬ (fourKinds.params.requiresKeywords = false ∧
      fourKinds.params.TakesAtEnd (5 - 1)) := by
    rintro ⟨-, -, hrest | hroom⟩
    · exact absurd hrest (by decide)
    · exact absurd hroom (by decide)
  have husable : (fourKinds.params.checkKeywordHash (some {})).bindable = true := by decide
  have htable := (outcome_by_counts fourKinds "f" [{}, {}, {}, {}, {}]).2.2.2 rfl (by decide)
    (by decide)
  have hcounts := (htable.2 hunfit).usable {} rfl (by decide) husable
  exact ⟨by decide, by decide, hunfit, husable,
    hcounts.excess.eq_of_condition ⟨rfl, by decide⟩⟩

end MethodDef

end CallBinding
