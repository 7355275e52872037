import CallBinding.Proofs.KeywordLabels

/-!
What an outcome carries. An outcome is a record whose fields could be set in any way; those that
binding answers are set in eight ways only (`Params.Answers`), one for each place where it decides.
So the reason of an outcome says which other fields are there and how they relate
(`Outcome.Coherent`): counts come in pairs and in the order that makes them a complaint, the text of
an argument is that of a last argument which cannot be a hash, and names are names of keywords that
are in fact missing or not declared.

The message of an outcome is told apart into words and values. The words depend on the reason
(`Reason.wording`), the values are all that the outcome carries (`Outcome.values`), and the message
has a gap in its words for each value and no other (`fill`).
-/

set_option autoImplicit false
set_option relaxedAutoImplicit false

namespace CallBinding

/-! ### Words and values -/

/-- Words with values put into the gaps between them, when there is a value for each gap. -/
def fill : List String → List String → Option String
  | [word], [] => some word
  | word :: words, value :: values => (fill words values).map (word ++ value ++ ·)
  | _, _ => none

/-- The words of a message, cut where it shows a value. -/
def Reason.wording : Reason → List String
  | nameMismatch => ["method name does not match"]
  | insufficientPositional => ["not enough arguments (given ", ", expected ", ")"]
  | insufficientPostRest => ["not enough trailing arguments (given ", ", expected ", ")"]
  | tooManyArguments => ["too many arguments (given ", ", expected at most ", ")"]
  | keywordsRequired => ["keyword arguments are required"]
  | keywordsNotHash => ["keyword arguments should be a hash, got ", ""]
  | keywordsMissing => ["missing keywords: ", ""]
  | keywordsUnexpected => ["unknown keywords: ", ""]

/-- Reasons that carry how many arguments there are and how many were declared. -/
def countReasons : List (Option Reason) :=
  [some .insufficientPositional, some .insufficientPostRest, some .tooManyArguments]

/-- Reasons that carry names of keywords. -/
def nameReasons : List (Option Reason) :=
  [some .keywordsMissing, some .keywordsUnexpected]

theorem written_text (text : String) : written (some text) = text :=
  rfl

namespace Outcome

/-- All that an outcome carries, as it is shown: its names in one text, its argument, its counts. -/
def values (o : Outcome) : List String :=
  (if o.keywords = [] then [] else [", ".intercalate o.keywords]) ++ o.argument.toList ++
    (o.received.toList ++ o.expected.toList).map toString

theorem values_misnamed (r : Reason) {names : List String} (h : names ≠ []) :
    (misnamed r names).values = [", ".intercalate names] := by
  simp [values, misnamed, h]

theorem detail_misnamed (r : Reason) {names : List String} (h : names ≠ []) :
    (misnamed r names).detail = some (", ".intercalate names) :=
  if_pos h

/-- A record has a message exactly when it binds or has a reason. -/
theorem message_isSome_iff (o : Outcome) :
    o.message.isSome = true ↔ o.bindable = true ∨ o.reason.isSome = true := by
  unfold message
  cases hbindable : o.bindable with
  | true => simp
  | false => simp

/-- The reason of an outcome of binding to a parameter list says what else the outcome carries.
`last` is the argument that may be the keyword hash. -/
structure Coherent (p : Params) (last : Option ArgumentFacts) (o : Outcome) : Prop where
  bindable_iff : o.bindable = true ↔ o.reason = none
  eq_ok : o.reason = none → o = .ok
  received_isSome_iff : o.received.isSome = true ↔ o.reason ∈ countReasons
  expected_isSome_iff : o.expected.isSome = true ↔ o.reason ∈ countReasons
  received_lt : o.reason ≠ some .tooManyArguments →
    ∀ received ∈ o.received, ∀ expected ∈ o.expected, received < expected
  expected_lt : o.reason = some .tooManyArguments →
    ∀ received ∈ o.received, ∀ expected ∈ o.expected, expected < received
  argument_isSome_iff : o.argument.isSome = true ↔ o.reason = some .keywordsNotHash
  argument_eq : ∀ source ∈ o.argument, ∃ arg, last = some arg ∧ arg.source = source ∧
    arg.isLiteral = true ∧ arg.isHash = false
  keywords_ne_nil_iff : o.keywords ≠ [] ↔ o.reason ∈ nameReasons
  missing : o.reason = some .keywordsMissing →
    o.keywords.Sublist p.requiredKeywordNames ∧ o.keywords.Nodup ∧
      ∃ hash, last = some hash ∧ ∀ name ∈ o.keywords, ¬ hash.Names name
  unexpected : o.reason = some .keywordsUnexpected → ∃ hash, last = some hash ∧
    ∀ name ∈ o.keywords, hash.Names name ∧ name ∉ p.keywordNames
  detail_eq_none_iff : o.detail = none ↔
    o.reason ∈ [none, some .nameMismatch, some .keywordsRequired]
  message_isSome : o.message.isSome = true
  message_eq : ∀ r, o.reason = some r → fill r.wording o.values = o.message

end Outcome

/-! ### What binding answers -/

/-- The outcomes that binding to a parameter list has, when `last` is the argument that may be the
keyword hash. -/
inductive Params.Answers (p : Params) (last : Option ArgumentFacts) : Outcome → Prop
  | ok : Answers p last .ok
  | otherName : Answers p last (.failed .nameMismatch)
  | short (received expected : Nat) (hlt : received < expected) :
      Answers p last (.miscounted .insufficientPositional received expected)
  | shortAtEnd (received expected : Nat) (hlt : received < expected) :
      Answers p last (.miscounted .insufficientPostRest received expected)
  | excess (received expected : Nat) (hlt : expected < received) :
      Answers p last (.miscounted .tooManyArguments received expected)
  | noHash : Answers p last (.failed .keywordsRequired)
  | literal (arg : ArgumentFacts) (hlast : last = some arg) (hhash : arg.isHash = false)
      (hliteral : arg.isLiteral = true) :
      Answers p last (.notHash arg.source)
  | missing (hash : ArgumentFacts) (hlast : last = some hash)
      (hmissing : p.missingKeywords hash ≠ []) :
      Answers p last (.misnamed .keywordsMissing (p.missingKeywords hash))
  | unexpected (hash : ArgumentFacts) (hlast : last = some hash)
      (hunexpected : p.unexpectedKeywords hash ≠ []) :
      Answers p last (.misnamed .keywordsUnexpected (p.unexpectedKeywords hash))

namespace Params

variable {p : Params} {last : Option ArgumentFacts} {arg : ArgumentFacts} {count : Nat}
  {o : Outcome}

theorem TailRule.answers (h : p.TailRule count o) : p.Answers last o := by
  cases h with
  | short hshort => exact .shortAtEnd _ _ hshort
  | room _ _ => exact .ok
  | excess hrest hexcess => exact .excess _ _ (by omega)

theorem HashRule.answers (h : p.HashRule arg o) : p.Answers (some arg) o := by
  cases h with
  | value _ _ => exact .ok
  | literal hhash hliteral => exact .literal arg rfl hhash hliteral
  | missing _ _ hmissing => exact .missing arg rfl hmissing
  | unexpected _ _ _ hunexpected => exact .unexpected arg rfl hunexpected
  | accepted _ _ _ => exact .ok

theorem answers_checkKeywordHash (p : Params) (last : Option ArgumentFacts) :
    p.Answers last (p.checkKeywordHash last) := by
  cases last with
  | none => exact .noHash
  | some arg => exact (p.hashRule_checkKeywordHash arg).answers

theorem Answers.coherent (h : p.Answers last o) : o.Coherent p last where
  bindable_iff := by cases h <;> simp
  eq_ok hreason := by
    cases h with
    | ok => rfl
    | _ => cases hreason
  received_isSome_iff := by
    cases h <;>
      simp [Outcome.ok, Outcome.failed, Outcome.miscounted, Outcome.notHash, Outcome.misnamed,
        countReasons]
  expected_isSome_iff := by
    cases h <;>
      simp [Outcome.ok, Outcome.failed, Outcome.miscounted, Outcome.notHash, Outcome.misnamed,
        countReasons]
  received_lt := by
    cases h with
    | short received expected hlt => simpa [Outcome.miscounted] using hlt
    | shortAtEnd received expected hlt => simpa [Outcome.miscounted] using hlt
    | excess _ _ _ => exact fun hreason ↦ absurd rfl hreason
    | _ => rintro _ _ ⟨⟩
  expected_lt := by
    cases h with
    | excess received expected hlt => simpa [Outcome.miscounted] using hlt
    | _ => rintro ⟨⟩
  argument_isSome_iff := by
    cases h <;>
      simp [Outcome.ok, Outcome.failed, Outcome.miscounted, Outcome.notHash, Outcome.misnamed]
  argument_eq := by
    cases h with
    | literal arg hlast hhash hliteral =>
      rintro _ ⟨⟩
      exact ⟨arg, hlast, rfl, hliteral, hhash⟩
    | _ => rintro _ ⟨⟩
  keywords_ne_nil_iff := by
    cases h with
    | missing hash _ hmissing => simp [Outcome.misnamed, nameReasons, hmissing]
    | unexpected hash _ hunexpected => simp [Outcome.misnamed, nameReasons, hunexpected]
    | _ =>
      simp [Outcome.ok, Outcome.failed, Outcome.miscounted, Outcome.notHash, nameReasons]
  missing := by
    cases h with
    | missing hash hlast _ =>
      have hsublist : (p.missingKeywords hash).Sublist p.requiredKeywordNames :=
        List.filter_sublist
      exact fun _ ↦ ⟨hsublist, hsublist.nodup p.nodup_requiredKeywordNames, hash, hlast,
        fun name hname ↦ (mem_missingKeywords_iff.mp hname).2⟩
    | _ => rintro ⟨⟩
  unexpected := by
    cases h with
    | unexpected hash hlast _ =>
      exact fun _ ↦ ⟨hash, hlast, fun name hname ↦ mem_unexpectedKeywords_iff.mp hname⟩
    | _ => rintro ⟨⟩
  detail_eq_none_iff := by
    cases h with
    | missing hash _ hmissing => simp [Outcome.detail_misnamed _ hmissing]
    | unexpected hash _ hunexpected => simp [Outcome.detail_misnamed _ hunexpected]
    | _ =>
      simp [Outcome.detail, Outcome.ok, Outcome.failed, Outcome.miscounted, Outcome.notHash]
  message_isSome := by
    rw [Outcome.message_isSome_iff]
    cases h <;> simp
  message_eq := by
    cases h with
    | ok => rintro r ⟨⟩
    | missing hash _ hmissing =>
      rintro r ⟨⟩
      simp [Outcome.values_misnamed _ hmissing, fill, Reason.wording, Outcome.message,
        Outcome.detail_misnamed _ hmissing, written_text]
    | unexpected hash _ hunexpected =>
      rintro r ⟨⟩
      simp [Outcome.values_misnamed _ hunexpected, fill, Reason.wording, Outcome.message,
        Outcome.detail_misnamed _ hunexpected, written_text]
    | literal arg _ _ _ =>
      rintro r ⟨⟩
      simp [Outcome.values, Outcome.notHash, fill, Reason.wording, Outcome.message, written_text]
    | _ =>
      rintro r ⟨⟩
      simp [Outcome.values, fill, Reason.wording, Outcome.message, Outcome.failed,
        Outcome.miscounted, written, String.append_assoc]

end Params

namespace MethodDef

theorem BindRule.answers {d : MethodDef} {name : String} {args : List ArgumentFacts} {o : Outcome}
    (h : d.BindRule name args o) : d.params.Answers args.getLast? o := by
  cases h with
  | otherName _ => exact .otherName
  | short hshort => exact .short _ _ hshort
  | positional _ _ htail => exact htail.answers
  | noHash _ _ => exact .noHash
  | badHash _ _ hhash _ =>
    rw [List.getLast?_concat]
    exact hhash.answers
  | beforeHash _ _ _ htail => exact htail.answers

/-- Every outcome is coherent, whatever the arguments state of themselves: that of binding the tail,
that of checking the hash, and that of binding a call. -/
theorem outcomes_cohere :
    (∀ (p : Params) (args : List ArgumentFacts), (p.bindTail args).Coherent p args.getLast?) ∧
    (∀ (p : Params) (last : Option ArgumentFacts), (p.checkKeywordHash last).Coherent p last) ∧
    ∀ (d : MethodDef) (name : String) (args : List ArgumentFacts),
      (d.bind name args).Coherent d.params args.getLast? :=
  ⟨fun p args ↦ (p.tailRule_bindTail args).answers.coherent,
    fun p last ↦ (p.answers_checkKeywordHash last).coherent,
    fun d name args ↦ (d.bindRule_bind name args).answers.coherent⟩

end MethodDef

end CallBinding
