import CallBinding.Bind
import Mathlib.Logic.Basic
import Mathlib.Tactic.SplitIfs

/-!
What binding asks of arguments. It counts them, and it asks one of them at most: the last one, when
it has to serve as the keyword hash (`MethodDef.aside?`). Which one that is depends on the number of
arguments and not on what they state, so it is known before any of them is asked.

Arguments that state their facts are bound by the facts (`MethodDef.bindAsked_map_asked`), so that
binding with questions is the same binding wherever the answers are at hand.
-/

set_option autoImplicit false
set_option relaxedAutoImplicit false

namespace CallBinding

namespace Params

variable (p : Params) {α β : Type}

/-- The tail is bound by counting. -/
theorem bindTail_map (f : α → β) (args : List α) : p.bindTail (args.map f) = p.bindTail args := by
  simp only [bindTail, List.length_map]

/-- The text of a hash is not looked at. -/
theorem checkKeywordHash_of_isHash {arg : ArgumentFacts} (h : arg.isHash = true) :
    p.checkKeywordHash (some ⟨"", arg.isHash, arg.isLiteral, arg.labels, arg.hasSplat⟩) =
      p.checkKeywordHash (some arg) := by
  simp only [checkKeywordHash, h]
  rfl

section Remaining

variable {p}

theorem bindRemaining_of_keywords {args : List ArgumentFacts} (h : p.requiresKeywords = true ∨
    p.takesKeywords = true ∧ (p.bindTail args).bindable = false) :
    p.bindRemaining args = p.bindWithHash args := by
  unfold bindRemaining
  rcases h with hrequires | ⟨htakes, htail⟩
  · rw [if_pos hrequires]
  · simp only [htakes, htail, Bool.not_false, Bool.and_self, if_true, ite_self]

theorem bindRemainingAsked_of_keywords {m : Type → Type} [Monad m] {args : List (AskedArgument m)}
    (h : p.requiresKeywords = true ∨
      p.takesKeywords = true ∧ (p.bindTail args).bindable = false) :
    p.bindRemainingAsked args = p.bindWithAskedHash args := by
  unfold bindRemainingAsked
  rcases h with hrequires | ⟨htakes, htail⟩
  · rw [if_pos hrequires]
  · simp only [htakes, htail, Bool.not_false, Bool.and_self, if_true, ite_self]

end Remaining

end Params

namespace MethodDef

variable {α β : Type} (d : MethodDef) (name : String)

/-- The argument of a call that has to serve as the keyword hash. There is none when the call is by
another name, when keywords are not declared or may be left out, and when the normal slots take all
arguments. -/
def aside? (args : List α) : Option α :=
  let p := d.params
  let rest := args.drop p.normal.length
  if name = d.name ∧ (p.requiresKeywords = true ∨
      p.takesKeywords = true ∧ (p.bindTail rest).bindable = false) then
    rest.getLast?
  else none

theorem aside?_map (f : α → β) (args : List α) :
    d.aside? name (args.map f) = (d.aside? name args).map f := by
  simp only [aside?, ← List.map_drop, Params.bindTail_map, List.getLast?_map]
  split_ifs <;> rfl

/-- The outcome of a call once the argument that is set aside has been checked. -/
def resume (args : List α) (hash : Outcome) : Outcome :=
  if hash.bindable then d.params.bindTail (args.drop d.params.normal.length).dropLast else hash

theorem resume_map (f : α → β) (args : List α) (hash : Outcome) :
    d.resume (args.map f) hash = d.resume args hash := by
  simp only [resume, ← List.map_drop, ← List.map_dropLast, Params.bindTail_map]

variable {d name}

/-- When an argument is set aside, the call is by the name of the method, no normal slot is left
over, and keywords have to be looked for. -/
theorem of_aside? {args : List α} {arg : α} (h : d.aside? name args = some arg) :
    name = d.name ∧ ¬ args.length < d.params.normal.length ∧
      (d.params.requiresKeywords = true ∨ d.params.takesKeywords = true ∧
        (d.params.bindTail (args.drop d.params.normal.length)).bindable = false) ∧
      (args.drop d.params.normal.length).getLast? = some arg := by
  unfold aside? at h
  dsimp only at h
  split_ifs at h with hcond
  refine ⟨hcond.1, fun hlt ↦ ?_, hcond.2, h⟩
  rw [List.drop_eq_nil_of_le (Nat.le_of_lt hlt)] at h
  exact absurd h nofun

/-- When an argument is set aside, the others are only counted. -/
theorem bind_of_aside? {args : List ArgumentFacts} {arg : ArgumentFacts}
    (h : d.aside? name args = some arg) :
    d.bind name args = d.resume args (d.params.checkKeywordHash (some arg)) := by
  obtain ⟨hname, hlength, hkeywords, hlast⟩ := of_aside? h
  simp only [bind, ne_eq, hname, not_true_eq_false, if_false, if_neg hlength,
    Params.bindRemaining_of_keywords hkeywords, Params.bindWithHash, hlast]
  rfl

section Monad

variable {m : Type → Type} [Monad m] {args : List (AskedArgument m)}

/-- Where an argument is set aside, no other is asked. -/
theorem bindAsked_of_aside? {arg : AskedArgument m} (h : d.aside? name args = some arg) :
    d.bindAsked name args =
      d.params.checkAskedHash (some arg) >>= fun hash ↦ pure (d.resume args hash) := by
  obtain ⟨hname, hlength, hkeywords, hlast⟩ := of_aside? h
  simp only [bindAsked, ne_eq, hname, not_true_eq_false, if_false, if_neg hlength,
    Params.bindRemainingAsked_of_keywords hkeywords, Params.bindWithAskedHash, hlast]
  refine bind_congr fun hash ↦ ?_
  unfold resume
  split_ifs <;> rfl

variable [LawfulMonad m]

/-- Where no argument is set aside, nothing is asked. -/
theorem bindAsked_of_aside?_eq_none (h : d.aside? name args = none)
    {facts : List ArgumentFacts} (hlength : facts.length = args.length) :
    d.bindAsked name args = pure (d.bind name facts) := by
  have htail (n : Nat) : d.params.bindTail (facts.drop n) = d.params.bindTail (args.drop n) := by
    simp only [Params.bindTail, List.length_drop, hlength]
  unfold bindAsked MethodDef.bind
  dsimp only
  rw [hlength]
  split_ifs with hname hshort
  · rfl
  · rfl
  · have hname' : name = d.name := not_not.mp hname
    unfold Params.bindRemainingAsked Params.bindRemaining
    rw [htail]
    have hnil (hkeywords : d.params.requiresKeywords = true ∨ d.params.takesKeywords = true ∧
        (d.params.bindTail (args.drop d.params.normal.length)).bindable = false) :
        d.params.bindWithAskedHash (args.drop d.params.normal.length) =
          pure (d.params.bindWithHash (facts.drop d.params.normal.length)) := by
      -- the hash is asked for, and there is no argument left to serve as it
      have hlast : args.drop d.params.normal.length = [] := by
        simpa only [aside?, hname', hkeywords, and_self, if_true, List.getLast?_eq_none_iff] using h
      have hlast' : facts.drop d.params.normal.length = [] := by
        rw [List.drop_eq_nil_iff] at hlast ⊢
        rwa [hlength]
      simp [Params.bindWithAskedHash, Params.bindWithHash, hlast, hlast', Params.checkAskedHash,
        Params.checkKeywordHash]
    split_ifs with hrequires htakes
    · exact hnil (Or.inl hrequires)
    · exact hnil (Or.inr (by simpa using htakes))
    · rfl

theorem checkAskedHash_asked (p : Params) (arg : ArgumentFacts) :
    p.checkAskedHash (some (arg.asked : AskedArgument m)) =
      pure (p.checkKeywordHash (some arg)) := by
  cases hhash : arg.isHash with
  | true =>
    rw [← p.checkKeywordHash_of_isHash hhash]
    simp [Params.checkAskedHash, ArgumentFacts.asked, hhash]
  | false =>
    cases hliteral : arg.isLiteral <;>
      simp [Params.checkAskedHash, Params.checkKeywordHash, ArgumentFacts.asked, hhash, hliteral]

/-- Arguments that state their facts are bound by them. -/
theorem bindAsked_map_asked (d : MethodDef) (name : String) (facts : List ArgumentFacts) :
    d.bindAsked name (facts.map (ArgumentFacts.asked (m := m))) = pure (d.bind name facts) := by
  cases h : d.aside? name facts with
  | none =>
    refine bindAsked_of_aside?_eq_none ?_ (List.length_map _).symm
    rw [aside?_map, h]
    rfl
  | some arg =>
    rw [bindAsked_of_aside? (by rw [aside?_map, h]; rfl), checkAskedHash_asked, pure_bind,
      resume_map, bind_of_aside? h]

end Monad

end MethodDef

end CallBinding
