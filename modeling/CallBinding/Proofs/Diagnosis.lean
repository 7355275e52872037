import CallBinding.Proofs.BindingRules

/-!
Following a diagnosis. A call that does not bind is turned down with counts or with names, and they
say what to change: how many arguments to delete or to insert, and which keywords to add to the
hash or to take from it. `following_diagnosis_mends` states for each of these reasons that the
change mends what was reported, and that a smaller one leaves exactly the rest to be reported.

The counts of a call with keywords are those of the arguments in front of the hash. Both kinds of
calls are treated at once by parting the arguments (`Params.Parted`): what is counted, and the hash,
which there is where keywords are declared.
-/

set_option autoImplicit false
set_option relaxedAutoImplicit false

namespace CallBinding

/-! ### Changing a call -/

/-- What is left of some arguments when `count` of them are deleted, though not the last one where
keywords are declared. -/
structure Params.Deletes (p : Params) (count : Nat) (args kept : List ArgumentFacts) : Prop where
  sublist : kept.Sublist args
  length_eq : kept.length + count = args.length
  last_eq : p.takesKeywords = true → kept.getLast? = args.getLast?

/-- What becomes of some arguments when `count` others are inserted, though only in front of the
last one where keywords are declared. -/
structure Params.Inserts (p : Params) (count : Nat) (args longer : List ArgumentFacts) : Prop where
  sublist : args.Sublist longer
  length_eq : longer.length = args.length + count
  last_eq : p.takesKeywords = true → longer.getLast? = args.getLast?

/-- A hash with the keywords of some names added, at whatever place. Its text may change. -/
structure ArgumentFacts.AddsNames (hash hash' : ArgumentFacts) (names : List String) : Prop where
  isHash_eq : hash'.isHash = hash.isHash
  hasSplat_eq : hash'.hasSplat = hash.hasSplat
  mem_labels_iff : ∀ label, label ∈ hash'.labels ↔
    label ∈ hash.labels ∨ ∃ name ∈ names, label = name ++ ":"

/-- A hash without the labels of some names. Its text may change. -/
structure ArgumentFacts.DropsNames (hash hash' : ArgumentFacts) (names : List String) : Prop where
  isHash_eq : hash'.isHash = hash.isHash
  hasSplat_eq : hash'.hasSplat = hash.hasSplat
  labels_eq : hash'.labels = hash.labels.filter fun label ↦ withoutTrailingColon label ∉ names

namespace MethodDef

variable (d : MethodDef) (name : String)

/-- Deleting as many arguments as are too many mends the call, and deleting fewer leaves the others
to be reported. -/
def DeletionMends (args : List ArgumentFacts) (received expected : Nat) : Prop :=
  expected < received ∧ ∀ count kept, d.params.Deletes count args kept →
    (count = received - expected → (d.bind name kept).bindable = true) ∧
    (count < received - expected →
      d.bind name kept = .miscounted .tooManyArguments (received - count) expected)

/-- Inserting as many arguments as are missing at the end mends the call. A method that requires no
keyword takes them behind the last argument as well when it has a splat or an optional slot, as all
have whose slots at the end are read from a text. -/
def InsertionMends (args : List ArgumentFacts) (received expected : Nat) : Prop :=
  received < expected ∧
    (∀ longer, d.params.Inserts (expected - received) args longer →
      (d.bind name longer).bindable = true) ∧
    (d.params.requiresKeywords = false → d.params.rest.isSome = true ∨ d.params.optional ≠ [] →
      ∀ longer, args.Sublist longer → longer.length = args.length + (expected - received) →
        (d.bind name longer).bindable = true)

/-- Inserting as many arguments as are missing at the front, at whatever places, is what it takes to
have another outcome. -/
def FrontInsertionMends (args : List ArgumentFacts) (expected : Nat) : Prop :=
  args.length < expected ∧ ∀ count longer, args.Sublist longer →
    longer.length = args.length + count →
      ((d.bind name longer).reason = some .insufficientPositional ↔ count < expected - args.length)

/-- Adding the missing keywords to the hash mends it, and adding some of them leaves the others to
be reported. -/
def AddingMends (front : List ArgumentFacts) (hash : ArgumentFacts) (missing : List String) :
    Prop :=
  ∀ names hash', hash.AddsNames hash' names →
    (missing ⊆ names → (d.bind name (front ++ [hash'])).reason ≠ some .keywordsMissing) ∧
    (¬ missing ⊆ names → d.bind name (front ++ [hash']) =
      .misnamed .keywordsMissing (missing.filter fun k ↦ k ∉ names))

/-- Dropping the unknown keywords from the hash mends it, so that only the arguments in front of it
can be wrong, and dropping some of them leaves the others to be reported. -/
def DroppingMends (front : List ArgumentFacts) (hash : ArgumentFacts) (unexpected : List String) :
    Prop :=
  ∀ names hash', names ⊆ unexpected → hash.DropsNames hash' names →
    (unexpected ⊆ names → (d.bind name (front ++ [hash'])).reason ∈
      [none, some .insufficientPostRest, some .tooManyArguments]) ∧
    (¬ unexpected ⊆ names → d.bind name (front ++ [hash']) =
      .misnamed .keywordsUnexpected (unexpected.filter fun k ↦ k ∉ names))

end MethodDef

/-! ### Counting the arguments in front of the hash -/

/-- The arguments of a call are those that are counted and behind them an argument that can be the
hash, which there is exactly where keywords are declared. -/
structure Params.Parted (p : Params) (args front : List ArgumentFacts)
    (hash : Option ArgumentFacts) : Prop where
  append_eq : args = front ++ hash.toList
  isSome_eq : hash.isSome = p.takesKeywords
  usable : ∀ arg ∈ hash, p.Usable arg

namespace Params

variable {p : Params} {args other front : List ArgumentFacts} {hash : Option ArgumentFacts}
  {arg arg' : ArgumentFacts} {names : List String} {o : Outcome}

theorem Parted.length_eq (h : p.Parted args front hash) :
    front.length + hash.toList.length = args.length := by
  rw [h.append_eq, List.length_append]

/-- Arguments with the same last one are parted at the same hash. -/
theorem Parted.exists_of_last_eq (h : p.Parted args front hash)
    (hlast : p.takesKeywords = true → other.getLast? = args.getLast?) :
    ∃ front', p.Parted other front' hash := by
  cases hash with
  | none => exact ⟨other, (List.append_nil _).symm, h.isSome_eq, by simp⟩
  | some last =>
    have hother : other.getLast? = some last := by
      rw [hlast h.isSome_eq.symm, h.append_eq]
      exact List.getLast?_concat
    exact ⟨other.dropLast, (List.dropLast_append_getLast? last hother).symm, h.isSome_eq, h.usable⟩

end Params

namespace MethodDef

variable {d : MethodDef} {name : String} {args longer front : List ArgumentFacts}
  {hash : Option ArgumentFacts} {o : Outcome}

/-- A failure with counts counts the arguments in front of the hash. -/
theorem BindRule.exists_parted (h : d.BindRule name args o)
    (hreason : o.reason = some .tooManyArguments ∨ o.reason = some .insufficientPostRest) :
    name = d.name ∧ ∃ front hash, d.params.Parted args front hash ∧
      d.params.normal.length ≤ front.length ∧
        d.params.TailRule (front.length - d.params.normal.length) o := by
  cases h with
  | otherName hname => exact absurd hreason (by simp)
  | short hshort => exact absurd hreason (by simp)
  | noHash hnormal haside => exact absurd hreason (by simp)
  | badHash hnormal haside hhash hfails => cases hhash <;> exact absurd hreason (by simp)
  | positional hnormal hall htail =>
    by_cases htakes : d.params.takesKeywords = true
    · -- where keywords are declared, a call without a hash binds
      have hfits : d.params.arity.Fits args.length := by
        have hnot : ¬ d.params.requiresKeywords = true ∧ d.params.arity.Fits args.length := by
          simpa [Params.SetsAside, htakes] using hall
        exact hnot.2
      rw [htail.eq_ok_of_fits hfits] at hreason
      exact absurd hreason (by simp)
    · refine ⟨rfl, args, none, ⟨(List.append_nil _).symm, ?_, by simp⟩, hnormal, htail⟩
      exact (Bool.eq_false_iff.mpr htakes).symm
  | beforeHash hnormal haside hhash htail =>
    refine ⟨rfl, _, some _, ⟨rfl, haside.1.symm, ?_⟩, hnormal, htail⟩
    rintro _ ⟨⟩
    exact Params.hashRule_ok_iff.mp hhash

/-- When the arguments in front of the hash are counted, and one more is too many or too few as
well, the count decides the call. -/
theorem BindRule.of_parted (h : d.params.Parted args front hash)
    (hnormal : d.params.normal.length ≤ front.length)
    (hmore : ¬ d.params.arity.Fits (front.length + 1))
    (htail : d.params.TailRule (front.length - d.params.normal.length) o) :
    d.BindRule d.name args o := by
  obtain ⟨happend, hsome, husable⟩ := h
  subst happend
  cases hash with
  | none =>
    rw [Option.toList_none, List.append_nil]
    refine .positional hnormal (fun haside ↦ ?_) htail
    exact Bool.false_ne_true (hsome.trans haside.1)
  | some last =>
    exact .beforeHash hnormal ⟨hsome.symm, Or.inr hmore⟩
      (Params.hashRule_ok_iff.mpr (husable last rfl)) htail

/-- When the arguments in front of the hash fit, the call binds. -/
theorem bindable_of_parted (h : d.params.Parted args front hash)
    (hfits : d.params.arity.Fits front.length) : (d.bind d.name args).bindable = true := by
  obtain ⟨happend, hsome, husable⟩ := h
  subst happend
  rw [bindable_bind_iff_allows, Params.arity_allows_iff]
  refine ⟨rfl, ?_⟩
  cases hash with
  | none =>
    have hrequires : d.params.requiresKeywords = false := by
      rw [Bool.eq_false_iff]
      intro hrequires
      exact Bool.false_ne_true (hsome.trans (Params.takesKeywords_of_requiresKeywords hrequires))
    rw [Option.toList_none, List.append_nil]
    exact Or.inl ⟨hrequires, hfits⟩
  | some last =>
    refine Or.inr ⟨hsome.symm, last, List.getLast?_concat, husable last rfl, ?_⟩
    rw [Option.toList_some, List.length_append, List.length_singleton, Nat.add_sub_cancel]
    exact hfits

/-! ### Counts -/

theorem exists_deletionMends (h : (d.bind name args).reason = some .tooManyArguments) :
    ∃ received expected, d.bind name args = .miscounted .tooManyArguments received expected ∧
      d.DeletionMends name args received expected := by
  obtain ⟨rfl, front, hash, hparted, hnormal, htail⟩ :=
    (d.bindRule_bind name args).exists_parted (Or.inl h)
  generalize d.bind d.name args = o at h htail
  cases htail with
  | short hshort => exact absurd h (by simp)
  | room hpost hroom => exact absurd h (by simp)
  | excess hrest hexcess =>
    refine ⟨_, _, rfl, by omega, fun count kept hkept ↦ ?_⟩
    obtain ⟨front', hparted'⟩ := hparted.exists_of_last_eq hkept.last_eq
    have hlength := hparted.length_eq
    have hlength' := hparted'.length_eq
    have hcount := hkept.length_eq
    refine ⟨fun hall ↦ bindable_of_parted hparted' ?_, fun hfew ↦ ?_⟩
    · simp only [Arity.Fits, Params.arity]
      omega
    · have hmore : ¬ d.params.arity.Fits (front'.length + 1) := by
        simp only [Arity.Fits, Params.arity, hrest, not_and, not_or]
        intro _
        exact ⟨Bool.false_ne_true, by omega⟩
      have hreceived : front.length - d.params.normal.length - d.params.postRest.length - count =
          front'.length - d.params.normal.length - d.params.postRest.length := by omega
      rw [hreceived]
      exact (BindRule.of_parted hparted' (by omega) hmore (.excess hrest (by omega))).bind_eq

theorem exists_insertionMends (h : (d.bind name args).reason = some .insufficientPostRest) :
    ∃ received expected, d.bind name args = .miscounted .insufficientPostRest received expected ∧
      d.InsertionMends name args received expected := by
  obtain ⟨rfl, front, hash, hparted, hnormal, htail⟩ :=
    (d.bindRule_bind name args).exists_parted (Or.inr h)
  have hlength := hparted.length_eq
  generalize d.bind d.name args = o at h htail
  cases htail with
  | short hshort =>
    refine ⟨_, _, rfl, hshort, fun longer hlonger ↦ ?_, fun hrequires hmore longer _ hcount ↦ ?_⟩
    · obtain ⟨front', hparted'⟩ := hparted.exists_of_last_eq hlonger.last_eq
      have hlength' := hparted'.length_eq
      have hcount := hlonger.length_eq
      refine bindable_of_parted hparted' ?_
      simp only [Arity.Fits, Params.arity]
      omega
    · -- all of the arguments are positional now, one more than required where there is a hash
      rw [bindable_bind_iff_allows, Params.arity_allows_iff]
      refine ⟨rfl, Or.inl ⟨hrequires, ?_⟩⟩
      have hone : hash.toList.length ≤ 1 := by cases hash <;> simp
      simp only [Arity.Fits, Params.arity]
      refine ⟨by omega, hmore.imp_right fun hoptional ↦ ?_⟩
      have hpos := List.length_pos_iff.mpr hoptional
      omega
  | room hpost hroom => exact absurd h (by simp)
  | excess hrest hexcess => exact absurd h (by simp)

theorem BindRule.length_lt (h : d.BindRule name args o)
    (hreason : o.reason = some .insufficientPositional) :
    name = d.name ∧ args.length < d.params.normal.length := by
  cases h with
  | otherName hname => exact absurd hreason (by simp)
  | short hshort => exact ⟨rfl, hshort⟩
  | positional hnormal hall htail =>
    have hmem := htail.reason_mem
    rw [hreason] at hmem
    exact absurd hmem (by decide)
  | noHash hnormal haside => exact absurd hreason (by simp)
  | badHash hnormal haside hhash hfails =>
    have hmem := hhash.reason_mem
    rw [hreason] at hmem
    exact absurd hmem (by decide)
  | beforeHash hnormal haside hhash htail =>
    have hmem := htail.reason_mem
    rw [hreason] at hmem
    exact absurd hmem (by decide)

theorem exists_frontInsertionMends
    (h : (d.bind name args).reason = some .insufficientPositional) :
    ∃ expected, d.bind name args = .miscounted .insufficientPositional args.length expected ∧
      d.FrontInsertionMends name args expected := by
  obtain ⟨rfl, hshort⟩ := (d.bindRule_bind name args).length_lt h
  refine ⟨_, bind_of_short hshort, hshort, fun count longer _ hcount ↦ ?_⟩
  constructor
  · intro hreason
    have hlonger := ((d.bindRule_bind d.name longer).length_lt hreason).2
    omega
  · intro hfew
    have hlonger : longer.length < d.params.normal.length := by omega
    rw [bind_of_short hlonger, Outcome.reason_miscounted]

/-! ### Names -/

/-- A complaint about the keywords of a hash is about the last argument, which is set aside. -/
theorem BindRule.exists_badHash (h : d.BindRule name args o)
    (hreason : o.reason = some .keywordsMissing ∨ o.reason = some .keywordsUnexpected) :
    name = d.name ∧ ∃ front arg, args = front ++ [arg] ∧
      d.params.normal.length ≤ front.length ∧ d.params.SetsAside (front.length + 1) ∧
        d.params.HashRule arg o := by
  cases h with
  | otherName hname => exact absurd hreason (by simp)
  | short hshort => exact absurd hreason (by simp)
  | noHash hnormal haside => exact absurd hreason (by simp)
  | badHash hnormal haside hhash hfails => exact ⟨rfl, _, _, rfl, hnormal, haside, hhash⟩
  | positional hnormal hall htail => cases htail <;> exact absurd hreason (by simp)
  | beforeHash hnormal haside hhash htail => cases htail <;> exact absurd hreason (by simp)

end MethodDef

theorem withoutTrailingColon_append (name : String) :
    withoutTrailingColon (name ++ ":") = name := by
  simp [withoutTrailingColon, withoutLast]

namespace ArgumentFacts

variable {hash hash' : ArgumentFacts} {names : List String}

theorem AddsNames.names_iff (h : hash.AddsNames hash' names) {name : String} :
    hash'.Names name ↔ hash.Names name ∨ name ∈ names := by
  constructor
  · rintro ⟨label, hlabel, rfl⟩
    rcases (h.mem_labels_iff label).mp hlabel with hold | ⟨added, hadded, rfl⟩
    · exact Or.inl ⟨label, hold, rfl⟩
    · rw [withoutTrailingColon_append]
      exact Or.inr hadded
  · rintro (⟨label, hlabel, rfl⟩ | hadded)
    · exact ⟨label, (h.mem_labels_iff label).mpr (Or.inl hlabel), rfl⟩
    · exact ⟨name ++ ":", (h.mem_labels_iff _).mpr (Or.inr ⟨name, hadded, rfl⟩),
        withoutTrailingColon_append name⟩

theorem DropsNames.receivedNames_eq (h : hash.DropsNames hash' names) :
    Params.receivedNames hash' = (Params.receivedNames hash).filter fun name ↦ name ∉ names := by
  simp only [Params.receivedNames, h.labels_eq, List.filter_map, Function.comp_def]

end ArgumentFacts

namespace Params

variable {p : Params} {hash hash' : ArgumentFacts} {names : List String}

theorem missingKeywords_of_addsNames (h : hash.AddsNames hash' names) :
    p.missingKeywords hash' = (p.missingKeywords hash).filter fun k ↦ k ∉ names := by
  rw [missingKeywords, missingKeywords, List.filter_filter]
  refine List.filter_congr fun k _ ↦ ?_
  rw [Bool.eq_iff_iff]
  simp [mem_receivedNames, h.names_iff, and_comm]

theorem unexpectedKeywords_of_dropsNames (h : hash.DropsNames hash' names) :
    p.unexpectedKeywords hash' = (p.unexpectedKeywords hash).filter fun k ↦ k ∉ names := by
  rw [unexpectedKeywords, unexpectedKeywords, h.receivedNames_eq, List.filter_comm]

/-- A hash that loses names which are not declared misses no further keyword. -/
theorem missingKeywords_of_dropsNames (hundeclared : names ⊆ p.unexpectedKeywords hash)
    (h : hash.DropsNames hash' names) : p.missingKeywords hash' = p.missingKeywords hash := by
  rw [missingKeywords, missingKeywords, h.receivedNames_eq]
  refine List.filter_congr fun k hk ↦ ?_
  have hkept : k ∉ names := by
    intro hdropped
    have hunexpected := (List.mem_filter.mp (hundeclared hdropped)).2
    obtain ⟨j, hj, -, rfl⟩ := mem_requiredKeywordNames.mp hk
    have hdeclared : j.name ∈ p.keywordNames := mem_keywordNames.mpr ⟨j, hj, rfl⟩
    simp [hdeclared] at hunexpected
  simp [hkept]

theorem filter_not_mem_eq_nil_iff {reported : List String} :
    (reported.filter fun k ↦ k ∉ names) = [] ↔ reported ⊆ names := by
  simp [List.filter_eq_nil_iff, List.subset_def]

end Params

namespace MethodDef

variable {d : MethodDef} {name : String} {args : List ArgumentFacts}

theorem exists_addingMends (h : (d.bind name args).reason = some .keywordsMissing) :
    ∃ front hash missing, args = front ++ [hash] ∧ hash.isHash = true ∧
      d.bind name args = .misnamed .keywordsMissing missing ∧
      d.AddingMends name front hash missing := by
  obtain ⟨rfl, front, hash, rfl, hnormal, haside, hrule⟩ :=
    (d.bindRule_bind name args).exists_badHash (Or.inl h)
  obtain ⟨hhash, hsplat, -, houtcome⟩ := hrule.of_keywordsMissing h
  refine ⟨front, hash, _, rfl, hhash, houtcome, fun names hash' hadds ↦ ?_⟩
  have hmissing := d.params.missingKeywords_of_addsNames hadds
  refine ⟨fun hall hreason ↦ ?_, fun hsome ↦ ?_⟩
  · obtain ⟨-, front', arg, happend, -, -, hrule'⟩ :=
      (d.bindRule_bind d.name (front ++ [hash'])).exists_badHash (Or.inl hreason)
    obtain ⟨-, harg⟩ := List.append_inj' happend rfl
    injection harg with harg
    obtain ⟨-, -, hleft, -⟩ := hrule'.of_keywordsMissing hreason
    rw [← harg, hmissing] at hleft
    exact hleft (Params.filter_not_mem_eq_nil_iff.mpr hall)
  · have hleft : d.params.missingKeywords hash' ≠ [] := by
      rw [hmissing]
      exact fun hnil ↦ hsome (Params.filter_not_mem_eq_nil_iff.mp hnil)
    have hrule' := Params.HashRule.missing (hadds.isHash_eq.trans hhash)
      (hadds.hasSplat_eq.trans hsplat) hleft
    rw [← hmissing]
    exact (BindRule.badHash hnormal haside hrule' nofun).bind_eq

theorem exists_droppingMends (h : (d.bind name args).reason = some .keywordsUnexpected) :
    ∃ front hash unexpected, args = front ++ [hash] ∧ hash.isHash = true ∧
      d.bind name args = .misnamed .keywordsUnexpected unexpected ∧
      d.DroppingMends name front hash unexpected := by
  obtain ⟨rfl, front, hash, rfl, hnormal, haside, hrule⟩ :=
    (d.bindRule_bind name args).exists_badHash (Or.inr h)
  obtain ⟨hhash, hnone, hrest, houtcome⟩ := hrule.of_keywordsUnexpected h
  refine ⟨front, hash, _, rfl, hhash, houtcome, fun names hash' hundeclared hdrops ↦ ?_⟩
  have hunexpected := d.params.unexpectedKeywords_of_dropsNames hdrops
  have hhash' : hash'.isHash = true := hdrops.isHash_eq.trans hhash
  have hnone' : hash'.hasSplat = true ∨ d.params.missingKeywords hash' = [] := by
    rw [hdrops.hasSplat_eq, Params.missingKeywords_of_dropsNames hundeclared hdrops]
    exact hnone
  refine ⟨fun hall ↦ ?_, fun hsome ↦ ?_⟩
  · -- the hash passes its check, and what is in front of it decides the call
    have hnil := hunexpected.trans (Params.filter_not_mem_eq_nil_iff.mpr hall)
    have hrule' := Params.HashRule.accepted hhash' hnone' (Or.inr hnil)
    have htail := d.params.tailRule_bindTail (front.drop d.params.normal.length)
    rw [List.length_drop] at htail
    rw [(BindRule.beforeHash hnormal haside hrule' htail).bind_eq]
    exact htail.reason_mem
  · have hleft : d.params.unexpectedKeywords hash' ≠ [] := by
      rw [hunexpected]
      exact fun hnil ↦ hsome (Params.filter_not_mem_eq_nil_iff.mp hnil)
    have hrule' := Params.HashRule.unexpected hhash' hnone' hrest hleft
    rw [← hunexpected]
    exact (BindRule.badHash hnormal haside hrule' nofun).bind_eq

/-- A call that is turned down with counts or with names is mended by following them: by deleting
the arguments that are too many, by inserting those that are missing at the end or at the front, by
adding the keywords that are missing from the hash, and by dropping those that are not known. A part
of the change leaves exactly the rest to be reported. -/
theorem following_diagnosis_mends (d : MethodDef) (name : String) (args : List ArgumentFacts) :
    ((d.bind name args).reason = some .tooManyArguments → ∃ received expected,
      d.bind name args = .miscounted .tooManyArguments received expected ∧
        d.DeletionMends name args received expected) ∧
    ((d.bind name args).reason = some .insufficientPostRest → ∃ received expected,
      d.bind name args = .miscounted .insufficientPostRest received expected ∧
        d.InsertionMends name args received expected) ∧
    ((d.bind name args).reason = some .insufficientPositional → ∃ expected,
      d.bind name args = .miscounted .insufficientPositional args.length expected ∧
        d.FrontInsertionMends name args expected) ∧
    ((d.bind name args).reason = some .keywordsMissing → ∃ front hash missing,
      args = front ++ [hash] ∧ hash.isHash = true ∧
        d.bind name args = .misnamed .keywordsMissing missing ∧
        d.AddingMends name front hash missing) ∧
    ((d.bind name args).reason = some .keywordsUnexpected → ∃ front hash unexpected,
      args = front ++ [hash] ∧ hash.isHash = true ∧
        d.bind name args = .misnamed .keywordsUnexpected unexpected ∧
        d.DroppingMends name front hash unexpected) :=
  ⟨exists_deletionMends, exists_insertionMends, exists_frontInsertionMends, exists_addingMends,
    exists_droppingMends⟩

/-- A method with one required, one optional and one keyword parameter. -/
def threeSlots : MethodDef :=
  ⟨"f", { normal := ["a"], optional := [⟨"m", "1"⟩], keyword := [⟨"k:", true, rfl⟩] },
    "def f(a, m = 1, k: 1)"⟩

/-- Five arguments of unknown value are two too many, with the last one set aside as the hash, and
without two of them the call binds. -/
theorem following_diagnosis_mends_of_five_arguments :
    threeSlots.bind "f" [{}, {}, {}, {}, {}] = .miscounted .tooManyArguments 3 1 ∧
      threeSlots.params.Deletes 2 [{}, {}, {}, {}, {}] [{}, {}, {}] ∧
      (threeSlots.bind "f" [{}, {}, {}]).bindable = true := by
  have houtcome : threeSlots.bind "f" [{}, {}, {}, {}, {}] = .miscounted .tooManyArguments 3 1 := by
    decide
  have hdeletes : threeSlots.params.Deletes 2 [{}, {}, {}, {}, {}] [{}, {}, {}] :=
    ⟨by decide, rfl, fun _ ↦ rfl⟩
  obtain ⟨received, expected, hcounts, -, hmends⟩ :=
    (following_diagnosis_mends threeSlots "f" [{}, {}, {}, {}, {}]).1 (by rw [houtcome]; rfl)
  have hdifference : 2 = received - expected := by
    rw [houtcome] at hcounts
    simp only [Outcome.miscounted, Outcome.mk.injEq, Option.some.injEq] at hcounts
    omega
  exact ⟨houtcome, hdeletes, (hmends 2 _ hdeletes).1 hdifference⟩

end MethodDef

end CallBinding
