import CallBinding.Proofs.ArgumentDivision

/-!
Binding as rules. What binding answers is stated by three families of rules, one for each function
of it: how many arguments the tail takes (`Params.TailRule`), what is said of a keyword hash
(`Params.HashRule`), and which of the two decides a call (`MethodDef.BindRule`). The rules give what
binding computes and nothing else (`tailRule_iff`, `hashRule_iff`, `bindRule_iff`), so a fact about
an outcome is a case analysis over the rules.

The one choice that binding makes is whether the last argument is set aside as the hash. It has to
be where a keyword is required, and where keywords are declared and the arguments are too few or too
many to be all positional (`Params.SetsAside`).
-/

set_option autoImplicit false
set_option relaxedAutoImplicit false

namespace CallBinding

namespace Params

variable {p : Params} {args : List ArgumentFacts} {arg : ArgumentFacts} {count : Nat} {o : Outcome}

/-! ### The tail -/

/-- What is said of a number of arguments that the normal slots and the hash have left over. -/
inductive TailRule (p : Params) (count : Nat) : Outcome → Prop
  | short (hshort : count < p.postRest.length) :
      TailRule p count (.miscounted .insufficientPostRest count p.postRest.length)
  | room (hpost : p.postRest.length ≤ count)
      (hroom : p.rest.isSome = true ∨ count ≤ p.postRest.length + p.optional.length) :
      TailRule p count .ok
  | excess (hrest : p.rest = none) (hexcess : p.postRest.length + p.optional.length < count) :
      TailRule p count
        (.miscounted .tooManyArguments (count - p.postRest.length) p.optional.length)

theorem tailRule_bindTail (p : Params) (args : List ArgumentFacts) :
    p.TailRule args.length (p.bindTail args) := by
  unfold bindTail
  dsimp only
  split_ifs with hshort hroom
  · exact .short hshort
  · simp only [Bool.or_eq_true, decide_eq_true_eq] at hroom
    exact .room (Nat.le_of_not_lt hshort) (hroom.imp_right fun hcount ↦ by omega)
  · simp only [Bool.or_eq_true, decide_eq_true_eq, not_or, Bool.not_eq_true,
      Option.isSome_eq_false_iff, Option.isNone_iff_eq_none] at hroom
    exact .excess hroom.1 (by omega)

theorem TailRule.bindTail_eq (h : p.TailRule args.length o) : p.bindTail args = o := by
  cases h with
  | short hshort => simp only [bindTail, if_pos hshort]
  | room hpost hroom =>
    have hbetween : p.rest.isSome = true ∨ args.length - p.postRest.length ≤ p.optional.length :=
      hroom.imp_right fun hcount ↦ by omega
    simp only [bindTail, if_neg (Nat.not_lt.mpr hpost), Bool.or_eq_true, decide_eq_true_eq,
      if_pos hbetween]
  | excess hrest hexcess =>
    have hbetween : ¬ args.length - p.postRest.length ≤ p.optional.length := by omega
    have hpost : ¬ args.length < p.postRest.length := by omega
    simp [bindTail, hpost, hrest, hbetween]

/-- The tail rules give what binding the tail computes. -/
theorem tailRule_iff : p.TailRule args.length o ↔ p.bindTail args = o := by
  constructor
  · exact TailRule.bindTail_eq
  · rintro rfl
    exact p.tailRule_bindTail args

theorem TailRule.reason_mem (h : p.TailRule count o) :
    o.reason ∈ [none, some .insufficientPostRest, some .tooManyArguments] := by
  cases h <;> simp

/-- A number of arguments that fits leaves as many over as the tail takes. -/
theorem TailRule.eq_ok_of_fits (h : p.TailRule (count - p.normal.length) o)
    (hfits : p.arity.Fits count) : o = .ok := by
  obtain ⟨hrequired, hroom⟩ := hfits
  simp only [arity] at hrequired hroom
  cases h with
  | short hshort => omega
  | room _ _ => rfl
  | excess hrest hexcess =>
    rw [hrest] at hroom
    have hle := hroom.resolve_left Bool.false_ne_true
    omega

/-! ### The keyword hash -/

/-- What is said of the last argument when it has to serve as the keyword hash. -/
inductive HashRule (p : Params) (arg : ArgumentFacts) : Outcome → Prop
  | value (hhash : arg.isHash = false) (hliteral : arg.isLiteral = false) : HashRule p arg .ok
  | literal (hhash : arg.isHash = false) (hliteral : arg.isLiteral = true) :
      HashRule p arg (.notHash arg.source)
  | missing (hhash : arg.isHash = true) (hsplat : arg.hasSplat = false)
      (hmissing : p.missingKeywords arg ≠ []) :
      HashRule p arg (.misnamed .keywordsMissing (p.missingKeywords arg))
  | unexpected (hhash : arg.isHash = true)
      (hnone : arg.hasSplat = true ∨ p.missingKeywords arg = []) (hrest : p.keywordRest = none)
      (hunexpected : p.unexpectedKeywords arg ≠ []) :
      HashRule p arg (.misnamed .keywordsUnexpected (p.unexpectedKeywords arg))
  | accepted (hhash : arg.isHash = true)
      (hnone : arg.hasSplat = true ∨ p.missingKeywords arg = [])
      (hdeclared : p.keywordRest.isSome = true ∨ p.unexpectedKeywords arg = []) :
      HashRule p arg .ok

theorem hashRule_checkKeywordHash (p : Params) (arg : ArgumentFacts) :
    p.HashRule arg (p.checkKeywordHash (some arg)) := by
  unfold checkKeywordHash
  dsimp only
  split_ifs with hhash hliteral hmissing hunexpected
  · exact .literal (by simpa using hhash) hliteral
  · exact .value (by simpa using hhash) (by simpa using hliteral)
  · simp only [Bool.and_eq_true, Bool.not_eq_true', decide_eq_true_eq] at hmissing
    exact .missing (by simpa using hhash) hmissing.1 hmissing.2
  · have hnone : arg.hasSplat = true ∨ p.missingKeywords arg = [] := by
      simpa [or_iff_not_imp_left] using hmissing
    simp only [Bool.and_eq_true, Option.isNone_iff_eq_none, decide_eq_true_eq] at hunexpected
    exact .unexpected (by simpa using hhash) hnone hunexpected.1 hunexpected.2
  · have hnone : arg.hasSplat = true ∨ p.missingKeywords arg = [] := by
      simpa [or_iff_not_imp_left] using hmissing
    have hdeclared : p.keywordRest.isSome = true ∨ p.unexpectedKeywords arg = [] := by
      simpa [or_iff_not_imp_left] using hunexpected
    exact .accepted (by simpa using hhash) hnone hdeclared

theorem HashRule.checkKeywordHash_eq (h : p.HashRule arg o) :
    p.checkKeywordHash (some arg) = o := by
  cases h with
  | value hhash hliteral => simp [checkKeywordHash, hhash, hliteral]
  | literal hhash hliteral => simp [checkKeywordHash, hhash, hliteral]
  | missing hhash hsplat hmissing => simp [checkKeywordHash, hhash, hsplat, hmissing]
  | unexpected hhash hnone hrest hunexpected =>
    rcases hnone with hsplat | hnil
    · simp [checkKeywordHash, hhash, hsplat, hrest, hunexpected]
    · simp [checkKeywordHash, hhash, hnil, hrest, hunexpected]
  | accepted hhash hnone hdeclared =>
    have hmissing : (!arg.hasSplat && decide (p.missingKeywords arg ≠ [])) = false := by
      rcases hnone with hsplat | hnil
      · simp [hsplat]
      · simp [hnil]
    have hunexpected :
        (p.keywordRest.isNone && decide (p.unexpectedKeywords arg ≠ [])) = false := by
      rcases hdeclared with hrest | hnil
      · simp [Option.isNone_eq_false_iff.mpr hrest]
      · simp [hnil]
    simp only [checkKeywordHash, hhash, hmissing, hunexpected, Bool.not_true, Bool.false_eq_true,
      if_false]

/-- The hash rules give what the check of the keyword hash computes. -/
theorem hashRule_iff : p.HashRule arg o ↔ p.checkKeywordHash (some arg) = o := by
  constructor
  · exact HashRule.checkKeywordHash_eq
  · rintro rfl
    exact p.hashRule_checkKeywordHash arg

theorem HashRule.reason_mem (h : p.HashRule arg o) : o.reason ∈
    [none, some .keywordsNotHash, some .keywordsMissing, some .keywordsUnexpected] := by
  cases h <;> simp

theorem HashRule.of_keywordsMissing (h : p.HashRule arg o)
    (hreason : o.reason = some .keywordsMissing) :
    arg.isHash = true ∧ arg.hasSplat = false ∧ p.missingKeywords arg ≠ [] ∧
      o = .misnamed .keywordsMissing (p.missingKeywords arg) := by
  cases h with
  | value _ _ => exact absurd hreason (by simp)
  | literal _ _ => exact absurd hreason (by simp)
  | missing hhash hsplat hmissing => exact ⟨hhash, hsplat, hmissing, rfl⟩
  | unexpected _ _ _ _ => exact absurd hreason (by simp)
  | accepted _ _ _ => exact absurd hreason (by simp)

theorem HashRule.of_keywordsUnexpected (h : p.HashRule arg o)
    (hreason : o.reason = some .keywordsUnexpected) :
    arg.isHash = true ∧ (arg.hasSplat = true ∨ p.missingKeywords arg = []) ∧
      p.keywordRest = none ∧ o = .misnamed .keywordsUnexpected (p.unexpectedKeywords arg) := by
  cases h with
  | value _ _ => exact absurd hreason (by simp)
  | literal _ _ => exact absurd hreason (by simp)
  | missing _ _ _ => exact absurd hreason (by simp)
  | unexpected hhash hnone hrest _ => exact ⟨hhash, hnone, hrest, rfl⟩
  | accepted _ _ _ => exact absurd hreason (by simp)

/-- An argument is accepted as the hash when it passes the check of the keyword hash. -/
theorem hashRule_ok_iff : p.HashRule arg .ok ↔ p.Usable arg := by
  rw [hashRule_iff, Usable]
  constructor
  · intro h
    rw [h]
    rfl
  · intro hbindable
    have hrule := p.hashRule_checkKeywordHash arg
    generalize p.checkKeywordHash (some arg) = o at hrule hbindable
    cases hrule with
    | value _ _ => rfl
    | literal _ _ => exact absurd hbindable Bool.false_ne_true
    | missing _ _ _ => exact absurd hbindable Bool.false_ne_true
    | unexpected _ _ _ _ => exact absurd hbindable Bool.false_ne_true
    | accepted _ _ _ => rfl

/-! ### Setting the hash aside -/

/-- Of `count` arguments the last one has to be the keyword hash. -/
def SetsAside (p : Params) (count : Nat) : Prop :=
  p.takesKeywords = true ∧ (p.requiresKeywords = true ∨ ¬ p.arity.Fits count)

theorem bindWithHash_concat (args : List ArgumentFacts) (arg : ArgumentFacts) :
    p.bindWithHash (args ++ [arg]) =
      if (p.checkKeywordHash (some arg)).bindable then p.bindTail args
      else p.checkKeywordHash (some arg) := by
  simp only [bindWithHash, List.getLast?_concat, List.dropLast_concat]

/-- What the normal slots have left over of `count` arguments is bound with a hash or as the tail,
depending on whether one is set aside. -/
theorem bindRemaining_of_setsAside (hcount : args.length + p.normal.length = count)
    (h : p.SetsAside count) : p.bindRemaining args = p.bindWithHash args := by
  obtain ⟨htakes, hrequires | hfits⟩ := h
  · simp [bindRemaining, hrequires]
  · have htail : (p.bindTail args).bindable = false := by
      rw [Bool.eq_false_iff]
      exact fun hbindable ↦ hfits ((bindable_bindTail_iff_fits hcount).mp hbindable)
    simp [bindRemaining, htakes, htail]

theorem bindRemaining_of_not_setsAside (hcount : args.length + p.normal.length = count)
    (h : ¬ p.SetsAside count) : p.bindRemaining args = p.bindTail args := by
  by_cases htakes : p.takesKeywords = true
  · have hnot : ¬ p.requiresKeywords = true ∧ p.arity.Fits count := by
      simpa [SetsAside, htakes] using h
    have htail := (bindable_bindTail_iff_fits hcount).mpr hnot.2
    simp [bindRemaining, hnot.1, htail]
  · have hrequires : ¬ p.requiresKeywords = true :=
      fun hrequires ↦ htakes (takesKeywords_of_requiresKeywords hrequires)
    simp [bindRemaining, hrequires, htakes]

end Params

/-- What is said of a call by a name and with arguments. -/
inductive MethodDef.BindRule (d : MethodDef) : String → List ArgumentFacts → Outcome → Prop
  | otherName {name : String} {args : List ArgumentFacts} (hname : name ≠ d.name) :
      BindRule d name args (.failed .nameMismatch)
  | short {args : List ArgumentFacts} (hshort : args.length < d.params.normal.length) :
      BindRule d d.name args
        (.miscounted .insufficientPositional args.length d.params.normal.length)
  | positional {args : List ArgumentFacts} {o : Outcome}
      (hnormal : d.params.normal.length ≤ args.length)
      (hall : ¬ d.params.SetsAside args.length)
      (htail : d.params.TailRule (args.length - d.params.normal.length) o) :
      BindRule d d.name args o
  | noHash {args : List ArgumentFacts} (hnormal : args.length = d.params.normal.length)
      (haside : d.params.SetsAside args.length) :
      BindRule d d.name args (.failed .keywordsRequired)
  | badHash {front : List ArgumentFacts} {hash : ArgumentFacts} {o : Outcome}
      (hnormal : d.params.normal.length ≤ front.length)
      (haside : d.params.SetsAside (front.length + 1)) (hhash : d.params.HashRule hash o)
      (hfails : o ≠ .ok) : BindRule d d.name (front ++ [hash]) o
  | beforeHash {front : List ArgumentFacts} {hash : ArgumentFacts} {o : Outcome}
      (hnormal : d.params.normal.length ≤ front.length)
      (haside : d.params.SetsAside (front.length + 1)) (hhash : d.params.HashRule hash .ok)
      (htail : d.params.TailRule (front.length - d.params.normal.length) o) :
      BindRule d d.name (front ++ [hash]) o

namespace MethodDef

variable {d : MethodDef} {name : String} {args front : List ArgumentFacts} {hash : ArgumentFacts}
  {o : Outcome}

theorem bind_of_other_name (hname : name ≠ d.name) : d.bind name args = .failed .nameMismatch := by
  simp only [bind, ne_eq, hname, not_false_eq_true, if_true]

theorem bind_of_short (hshort : args.length < d.params.normal.length) :
    d.bind d.name args =
      .miscounted .insufficientPositional args.length d.params.normal.length := by
  simp only [bind, ne_eq, not_true_eq_false, if_false, if_pos hshort]

theorem bind_eq_bindRemaining (hnormal : d.params.normal.length ≤ args.length) :
    d.bind d.name args = d.params.bindRemaining (args.drop d.params.normal.length) := by
  simp only [bind, ne_eq, not_true_eq_false, if_false, if_neg (Nat.not_lt.mpr hnormal)]

/-- Without a hash all that the normal slots leave over is the tail. -/
theorem bind_of_not_setsAside (hnormal : d.params.normal.length ≤ args.length)
    (hall : ¬ d.params.SetsAside args.length) :
    d.bind d.name args = d.params.bindTail (args.drop d.params.normal.length) := by
  have hcount : (args.drop d.params.normal.length).length + d.params.normal.length =
      args.length := by
    rw [List.length_drop]
    omega
  rw [bind_eq_bindRemaining hnormal, Params.bindRemaining_of_not_setsAside hcount hall]

/-- A hash has to be set aside where the normal slots leave nothing over. -/
theorem bind_of_length_eq (hnormal : args.length = d.params.normal.length)
    (haside : d.params.SetsAside args.length) : d.bind d.name args = .failed .keywordsRequired := by
  have hnil : args.drop d.params.normal.length = [] := List.drop_eq_nil_of_le (Nat.le_of_eq hnormal)
  have hcount : ([] : List ArgumentFacts).length + d.params.normal.length = args.length := by
    rw [List.length_nil, Nat.zero_add, hnormal]
  rw [bind_eq_bindRemaining (Nat.le_of_eq hnormal.symm), hnil,
    Params.bindRemaining_of_setsAside hcount haside]
  rfl

/-- The hash is checked before the arguments in front of it are counted. -/
theorem bind_concat_of_setsAside (hnormal : d.params.normal.length ≤ front.length)
    (haside : d.params.SetsAside (front.length + 1)) :
    d.bind d.name (front ++ [hash]) =
      if (d.params.checkKeywordHash (some hash)).bindable then
        d.params.bindTail (front.drop d.params.normal.length)
      else d.params.checkKeywordHash (some hash) := by
  have hlength : (front ++ [hash]).length = front.length + 1 := List.length_append
  have hcount : (front.drop d.params.normal.length ++ [hash]).length + d.params.normal.length =
      front.length + 1 := by
    rw [List.length_append, List.length_drop, List.length_singleton]
    omega
  rw [bind_eq_bindRemaining (by omega), List.drop_append_of_le_length hnormal,
    Params.bindRemaining_of_setsAside hcount haside, Params.bindWithHash_concat]

theorem bindRule_of_setsAside (hnormal : d.params.normal.length ≤ args.length)
    (haside : d.params.SetsAside args.length) : d.BindRule d.name args (d.bind d.name args) := by
  rcases List.eq_nil_or_concat' args with rfl | ⟨front, hash, rfl⟩
  · have hempty : ([] : List ArgumentFacts).length = d.params.normal.length := by
      rw [List.length_nil] at hnormal ⊢
      omega
    rw [bind_of_length_eq hempty haside]
    exact .noHash hempty haside
  · rw [List.length_append, List.length_singleton] at hnormal haside
    by_cases hfront : d.params.normal.length ≤ front.length
    · rw [bind_concat_of_setsAside hfront haside]
      have htail := d.params.tailRule_bindTail (front.drop d.params.normal.length)
      rw [List.length_drop] at htail
      have hrule := d.params.hashRule_checkKeywordHash hash
      by_cases husable : (d.params.checkKeywordHash (some hash)).bindable = true
      · rw [if_pos husable]
        exact .beforeHash hfront haside (Params.hashRule_ok_iff.mpr husable) htail
      · rw [if_neg husable]
        refine .badHash hfront haside hrule fun hok ↦ husable ?_
        rw [hok]
        rfl
    · have hlength : (front ++ [hash]).length = d.params.normal.length := by
        rw [List.length_append, List.length_singleton]
        omega
      have haside' : d.params.SetsAside (front ++ [hash]).length := by
        rw [List.length_append, List.length_singleton]
        exact haside
      rw [bind_of_length_eq hlength haside']
      exact .noHash hlength haside'

theorem bindRule_bind (d : MethodDef) (name : String) (args : List ArgumentFacts) :
    d.BindRule name args (d.bind name args) := by
  by_cases hname : name = d.name
  · subst hname
    by_cases hshort : args.length < d.params.normal.length
    · rw [bind_of_short hshort]
      exact .short hshort
    · have hnormal := Nat.le_of_not_lt hshort
      by_cases haside : d.params.SetsAside args.length
      · exact bindRule_of_setsAside hnormal haside
      · have htail := d.params.tailRule_bindTail (args.drop d.params.normal.length)
        rw [List.length_drop] at htail
        rw [bind_of_not_setsAside hnormal haside]
        exact .positional hnormal haside htail
  · rw [bind_of_other_name hname]
    exact .otherName hname

theorem BindRule.bind_eq (h : d.BindRule name args o) : d.bind name args = o := by
  cases h with
  | otherName hname => exact bind_of_other_name hname
  | short hshort => exact bind_of_short hshort
  | positional hnormal hall htail =>
    rw [← List.length_drop] at htail
    rw [bind_of_not_setsAside hnormal hall, htail.bindTail_eq]
  | noHash hnormal haside => exact bind_of_length_eq hnormal haside
  | @badHash front hash _ hnormal haside hhash hfails =>
    have hnot : ¬ (d.params.checkKeywordHash (some hash)).bindable = true := by
      intro husable
      have hok := (Params.hashRule_ok_iff.mpr husable).checkKeywordHash_eq
      exact hfails (hhash.checkKeywordHash_eq.symm.trans hok)
    rw [bind_concat_of_setsAside hnormal haside, if_neg hnot, hhash.checkKeywordHash_eq]
  | @beforeHash front hash _ hnormal haside hhash htail =>
    have husable : (d.params.checkKeywordHash (some hash)).bindable = true :=
      Params.hashRule_ok_iff.mp hhash
    rw [← List.length_drop] at htail
    rw [bind_concat_of_setsAside hnormal haside, if_pos husable, htail.bindTail_eq]

/-- The rules of binding give what binding computes. -/
theorem bindRule_iff : d.BindRule name args o ↔ d.bind name args = o := by
  constructor
  · exact BindRule.bind_eq
  · rintro rfl
    exact d.bindRule_bind name args

end MethodDef

end CallBinding
