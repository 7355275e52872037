import CallBinding.Proofs.AskedArguments
import CallBinding.Proofs.SettingSources
import CallBinding.Session
import Mathlib.Data.List.Basic
import Mathlib.Data.List.Induction
import Mathlib.Data.List.Nodup
import Mathlib.Tactic.SplitIfs

/-!
The settings in force in a session. Variables change around a session at any time (`Session.Event`),
and the session keeps what it read from them: the settings in force are those that the environment
gave at the first successful read since the last reload, or since the start when nothing was
reloaded (`Session.InForce`). A read that fails keeps nothing, so before the first success there are
none in force and every read tries again.

Not every request needs settings (`Request.Reads`). A call needs them exactly when binding has to
ask an argument that was taken from program text for its text or its labels, which are decoded by
the settings in force.

What a session does at one request is summed up in `Session.AnswerCase`, and what it does by some
settings in `Session.AnsweredBy`. From the first, `kept_after` shows by induction on the events that
the settings which the session keeps are those in force, and `requests_see_settings_in_force` says
what every request comes to, at any time.
-/

set_option autoImplicit false
set_option relaxedAutoImplicit false

namespace CallBinding

theorem Environment.changes_append (env : Environment) (front back : List VariableChange) :
    env.changes (front ++ back) = (env.changes front).changes back :=
  List.foldl_append

/-! ### Arguments that are taken from program text -/

/-- An argument as binding asks it by some settings. -/
def CallArgument.askedBy (codecs : Text.Codecs) (c : Settings) :
    CallArgument → AskedArgument (Except Failure)
  | stated facts => facts.asked
  | taken bytes a => (Encoded.mk bytes (codecs.decode c.encoding)).asked a

namespace Session

variable {platform : Platform} {bytes : List UInt8} {a : Argument}

/-- What is made of decoded bytes is made of them while they are decoded. -/
theorem decoding_bind_pure {α β : Type} (read : Encoded → Except Failure α) (f : α → β) :
    (decoding platform bytes read >>= fun a ↦ pure (f a)) =
      decoding platform bytes fun e ↦ read e >>= fun a ↦ pure (f a) := by
  funext s
  show ExceptT.bind (decoding platform bytes read) (fun a ↦ pure (f a)) s = _
  unfold decoding ExceptT.bind ExceptT.mk
  simp only [bind, StateT.bind]
  rcases s.settings platform with ⟨issues | settings, s'⟩
  · rfl
  · dsimp only
    cases read ⟨bytes, platform.codecs.decode settings.encoding⟩ with
    | ok a => rfl
    | error f => rfl

/-- Whether an argument can be the keyword hash is decided by decoding it, if it is a hash or a
literal. -/
theorem checkAskedHash_taken (p : Params) (hasks : a.isHash = true ∨ a.isLiteral = true) :
    p.checkAskedHash (some ((CallArgument.taken bytes a).asked platform)) =
      decoding platform bytes fun e ↦ p.checkAskedHash (some (e.asked a)) := by
  cases hhash : a.isHash with
  | true =>
    simp only [Params.checkAskedHash, CallArgument.asked, Encoded.asked, hhash, Bool.not_true,
      Bool.false_eq_true, if_false]
    exact decoding_bind_pure _ _
  | false =>
    have hliteral : a.isLiteral = true := by simpa [hhash] using hasks
    simp only [Params.checkAskedHash, CallArgument.asked, Encoded.asked, hhash, hliteral,
      Bool.not_false, if_true]
    exact decoding_bind_pure _ _

variable {d : MethodDef} {name : String} {args : List CallArgument}

/-- A call that asks an argument from program text is bound by the settings of the session, or not
at all. -/
theorem bindAsked_of_asks (haside : d.aside? name args = some (.taken bytes a))
    (hasks : a.isHash = true ∨ a.isLiteral = true) (s : Session) :
    d.bindAsked name (args.map (CallArgument.asked platform)) s =
      match s.settings platform with
      | (.ok c, s) =>
        match d.bindAsked name (args.map (CallArgument.askedBy platform.codecs c)) with
        | .ok outcome => (.ok outcome, s)
        | .error f => (.error (.raised (.unreadable f)), s)
      | (.error issues, s) => (.error (.invalidSettings issues), s) := by
  have hby (c : Settings) : d.bindAsked name (args.map (CallArgument.askedBy platform.codecs c)) =
      d.params.checkAskedHash
          (some ((Encoded.mk bytes (platform.codecs.decode c.encoding)).asked a)) >>=
        fun hash ↦ pure (d.resume args hash) := by
    rw [MethodDef.bindAsked_of_aside? (by rw [MethodDef.aside?_map, haside]; rfl)]
    simp only [MethodDef.resume_map]
    rfl
  rw [MethodDef.bindAsked_of_aside? (by rw [MethodDef.aside?_map, haside]; rfl),
    checkAskedHash_taken _ hasks]
  simp only [MethodDef.resume_map, decoding_bind_pure, hby]
  unfold decoding
  rcases s.settings platform with ⟨issues | c, s'⟩
  · rfl
  · dsimp only
    cases (d.params.checkAskedHash _ >>= _ : Except Failure Outcome) with
    | ok outcome => rfl
    | error f => rfl

/-- A call that asks no argument from program text is bound without settings. -/
theorem bindAsked_of_not_asks (h : ∀ bytes a, d.aside? name args = some (.taken bytes a) →
    a.isHash = false ∧ a.isLiteral = false) :
    ∃ outcome, d.bindAsked name (args.map (CallArgument.asked platform)) = pure outcome := by
  cases haside : d.aside? name args with
  | none =>
    -- only the number of the arguments counts, whatever they may state
    have hlength : (args.map fun _ ↦ ({} : ArgumentFacts)).length =
        (args.map (CallArgument.asked platform)).length := by
      simp only [List.length_map]
    exact ⟨_, MethodDef.bindAsked_of_aside?_eq_none
      (by rw [MethodDef.aside?_map, haside]; rfl) hlength⟩
  | some arg =>
    rw [MethodDef.bindAsked_of_aside? (by rw [MethodDef.aside?_map, haside]; rfl)]
    cases arg with
    | stated facts =>
      rw [CallArgument.asked, MethodDef.checkAskedHash_asked, pure_bind]
      exact ⟨_, rfl⟩
    | taken bytes a =>
      obtain ⟨hhash, hliteral⟩ := h bytes a haside
      simp only [Params.checkAskedHash, CallArgument.asked, hhash, hliteral, Bool.not_false,
        if_true, Bool.false_eq_true, if_false, pure_bind]
      exact ⟨_, rfl⟩

end Session

/-! ### One request -/

/-- The variables that a request changes before it is answered. -/
def Request.changes : Request → List VariableChange
  | .change changed => changed
  | _ => []

/-- A request needs the settings of a session. Loading does not when there is nothing to load, nor
does checking when there is no definition to check against. A call does when the argument that has
to serve as the keyword hash was taken from program text, and is a hash of which the labels are
asked or another literal of which the text is. -/
def Request.Reads (s : Session) : Request → Prop
  | .change _ => True
  | .reload => True
  | .load _ _ _ => True
  | .loadAll _ texts => texts ≠ []
  | .loadChanged _ records => ∃ record ∈ records, record ≠ []
  | .check _ _ name => ∃ definition, s.definition? name = some definition
  | .call method args name => ∃ definition, s.definition? name = some definition ∧
      ∃ bytes a, definition.aside? method args = some (.taken bytes a) ∧
        (a.isHash = true ∨ a.isLiteral = true)

namespace Session

/-- The answer to a request that needs settings when it is answered by `c`, which the session keeps
from then on. -/
inductive AnsweredBy (codecs : Text.Codecs) (c : Settings) (s : Session) : Request → Answer → Prop
  | change (changed : List VariableChange) :
      AnsweredBy codecs c s (.change changed) ⟨.settings c, [],
        { s with environment := s.environment.changes changed, kept := some c }⟩
  | reload : AnsweredBy codecs c s .reload ⟨.settings c, [], { s with kept := some c }⟩
  | load {parse : Parse} {text : String} {d : Option MethodDef} (name : String)
      (hvalue : (MethodDef.load codecs c parse text).value = .ok d) :
      AnsweredBy codecs c s (.load parse text name) ⟨.definition d,
        (MethodDef.load codecs c parse text).skipped,
        { s with kept := some c, definitions := KeyedList.put name d s.definitions }⟩
  | loadAll {parse : Parse} {texts : List String} {ds : List MethodDef}
      (hvalue : (MethodDef.loadAll codecs c parse texts).value = .ok ds) :
      AnsweredBy codecs c s (.loadAll parse texts) ⟨.definitions ds,
        (MethodDef.loadAll codecs c parse texts).skipped, { s with kept := some c }⟩
  | loadChanged {parse : Parse} {records : List (List (String × String))}
      {changed : List (List (String × MethodDef))}
      (hvalue : (MethodDef.loadChanged codecs c parse (records.map KeyedList.ofPairs)).value =
        .ok changed) :
      AnsweredBy codecs c s (.loadChanged parse records) ⟨.changed changed,
        (MethodDef.loadChanged codecs c parse (records.map KeyedList.ofPairs)).skipped,
        { s with kept := some c }⟩
  | check {parse : Parse} {text name : String} {definition : MethodDef} {report : Report}
      (hdefinition : s.definition? name = some definition)
      (hreport : definition.check codecs c parse text = .ok report) :
      AnsweredBy codecs c s (.check parse text name)
        ⟨.report report, [], { s with kept := some c }⟩
  | call {method name : String} {args : List CallArgument} {definition : MethodDef}
      {outcome : Outcome} (hdefinition : s.definition? name = some definition)
      (houtcome : definition.bindAsked method (args.map (CallArgument.askedBy codecs c)) =
        .ok outcome) :
      AnsweredBy codecs c s (.call method args name)
        ⟨.outcome outcome, [], { s with kept := some c }⟩
  /-- A fault escapes a load. -/
  | loadRaised {parse : Parse} {text : String} {fault : DefinitionFault} (name : String)
      (hvalue : (MethodDef.load codecs c parse text).value = .error fault) :
      AnsweredBy codecs c s (.load parse text name)
        ⟨.raised fault, (MethodDef.load codecs c parse text).skipped, { s with kept := some c }⟩
  | loadAllRaised {parse : Parse} {texts : List String} {fault : DefinitionFault}
      (hvalue : (MethodDef.loadAll codecs c parse texts).value = .error fault) :
      AnsweredBy codecs c s (.loadAll parse texts) ⟨.raised fault,
        (MethodDef.loadAll codecs c parse texts).skipped, { s with kept := some c }⟩
  | loadChangedRaised {parse : Parse} {records : List (List (String × String))}
      {fault : DefinitionFault}
      (hvalue : (MethodDef.loadChanged codecs c parse (records.map KeyedList.ofPairs)).value =
        .error fault) :
      AnsweredBy codecs c s (.loadChanged parse records) ⟨.raised fault,
        (MethodDef.loadChanged codecs c parse (records.map KeyedList.ofPairs)).skipped,
        { s with kept := some c }⟩
  /-- The text to check, or an argument of a call, cannot be read. -/
  | checkRaised {parse : Parse} {text name : String} {definition : MethodDef} {f : Failure}
      (hdefinition : s.definition? name = some definition)
      (hfailure : definition.check codecs c parse text = .error f) :
      AnsweredBy codecs c s (.check parse text name)
        ⟨.raised (.unreadable f), [], { s with kept := some c }⟩
  | callRaised {method name : String} {args : List CallArgument} {definition : MethodDef}
      {f : Failure} (hdefinition : s.definition? name = some definition)
      (hfailure : definition.bindAsked method (args.map (CallArgument.askedBy codecs c)) =
        .error f) :
      AnsweredBy codecs c s (.call method args name)
        ⟨.raised (.unreadable f), [], { s with kept := some c }⟩

variable {platform : Platform} {codecs : Text.Codecs} {c : Settings} {s : Session} {r : Request}
  {answer : Answer}

theorem AnsweredBy.kept_eq (h : AnsweredBy codecs c s r answer) :
    answer.session.kept = some c := by
  cases h <;> rfl

theorem AnsweredBy.environment_eq (h : AnsweredBy codecs c s r answer) :
    answer.session.environment = s.environment.changes r.changes := by
  cases h <;> rfl

/-- The settings that the environment gives to a request. -/
def given (platform : Platform) (s : Session) (r : Request) : Checked Settings :=
  platform.readSettings (s.environment.changes r.changes)

/-- The session of which a request asks the settings. -/
def prepared (s : Session) : Request → Session
  | .change changed => { s with environment := s.environment.changes changed }
  | .reload => { s with kept := none }
  | _ => s

theorem withSettings_of_ok {s' : Session} (h : s.settings platform = (.ok c, s'))
    (f : Settings → Session → Answer) : s.withSettings platform f = f c s' := by
  rw [withSettings, h]

theorem withSettings_of_error {issues : List Issue} {s' : Session}
    (h : s.settings platform = (.error issues, s')) (f : Settings → Session → Answer) :
    s.withSettings platform f = ⟨.invalidSettings issues, [], s'⟩ := by
  rw [withSettings, h]

/-- A request that needs settings is answered by whatever settings the session comes to. -/
theorem exists_answer_eq (platform : Platform) (hreads : r.Reads s) :
    ∃ f : Settings → Session → Answer,
      s.answer platform r = (s.prepared r).withSettings platform f ∧
        ∀ c, AnsweredBy platform.codecs c s r (f c { s.prepared r with kept := some c }) := by
  cases r with
  | change changed => exact ⟨_, rfl, fun c ↦ .change changed⟩
  | reload => exact ⟨_, rfl, fun c ↦ .reload⟩
  | load parse text name =>
    refine ⟨_, rfl, fun c ↦ ?_⟩
    dsimp only
    split
    case h_1 d hvalue => exact .load name hvalue
    case h_2 fault hvalue => exact .loadRaised name hvalue
  | loadAll parse texts =>
    refine ⟨_, if_neg hreads, fun c ↦ ?_⟩
    dsimp only
    split
    case h_1 ds hvalue => exact .loadAll hvalue
    case h_2 fault hvalue => exact .loadAllRaised hvalue
  | loadChanged parse records =>
    have hsides : ¬ records.all List.isEmpty = true := by simpa [Request.Reads] using hreads
    refine ⟨_, if_neg hsides, fun c ↦ ?_⟩
    dsimp only
    split
    case h_1 changed hvalue => exact .loadChanged hvalue
    case h_2 fault hvalue => exact .loadChangedRaised hvalue
  | check parse text name =>
    obtain ⟨definition, hdefinition⟩ := hreads
    generalize hanswer : s.answer platform (.check parse text name) = answer
    rw [Session.answer, hdefinition] at hanswer
    refine ⟨_, hanswer.symm, fun c ↦ ?_⟩
    dsimp only
    split
    case h_1 report hcheck => exact .check hdefinition hcheck
    case h_2 f hcheck => exact .checkRaised hdefinition hcheck
  | call method args name =>
    obtain ⟨definition, hdefinition, bytes, a, haside, hasks⟩ := hreads
    let f (c : Settings) (s : Session) : Answer :=
      match definition.bindAsked method (args.map (CallArgument.askedBy platform.codecs c)) with
      | .ok outcome => ⟨.outcome outcome, [], s⟩
      | .error f => ⟨.raised (.unreadable f), [], s⟩
    refine ⟨f, ?_, fun c ↦ ?_⟩
    · rw [Session.answer, hdefinition]
      dsimp only
      rw [bindAsked_of_asks haside hasks]
      show _ = s.withSettings platform f
      unfold withSettings
      rcases s.settings platform with ⟨issues | c, s'⟩
      · rfl
      · dsimp only [f]
        cases definition.bindAsked method (args.map (CallArgument.askedBy platform.codecs c)) with
        | ok outcome => rfl
        | error f => rfl
    · dsimp only [f]
      split
      case h_1 outcome houtcome => exact .call hdefinition houtcome
      case h_2 f hfailure => exact .callRaised hdefinition hfailure

/-- A request that needs no settings leaves the session as it is, and neither the settings that the
session keeps nor the environment make a difference to what it comes to. -/
theorem answer_of_not_reads (hreads : ¬ r.Reads s) :
    (s.answer platform r).session = s ∧ ∀ env kept,
      ({ s with environment := env, kept := kept }.answer platform r).reply =
          (s.answer platform r).reply ∧
        ({ s with environment := env, kept := kept }.answer platform r).skipped =
          (s.answer platform r).skipped := by
  cases r with
  | change changed => exact absurd trivial hreads
  | reload => exact absurd trivial hreads
  | load parse text name => exact absurd trivial hreads
  | loadAll parse texts =>
    have hnil : texts = [] := not_not.mp hreads
    simp only [Session.answer, if_pos hnil, and_self, implies_true]
  | loadChanged parse records =>
    have hempty : records.all List.isEmpty = true := by
      simpa [Request.Reads] using hreads
    simp only [Session.answer, if_pos hempty, and_self, implies_true]
  | check parse text name =>
    have hnone : s.definition? name = none := by
      simpa [Request.Reads, Option.eq_none_iff_forall_ne_some] using hreads
    have hnone' (env : Environment) (kept : Option Settings) :
        { s with environment := env, kept := kept }.definition? name = none := hnone
    simp only [Session.answer, hnone, hnone', and_self, implies_true]
  | call method args name =>
    have hsame (env : Environment) (kept : Option Settings) :
        { s with environment := env, kept := kept }.definition? name = s.definition? name := rfl
    simp only [Session.answer, hsame]
    cases hdefinition : s.definition? name with
    | none => exact ⟨rfl, fun _ _ ↦ ⟨rfl, rfl⟩⟩
    | some definition =>
      have hasks : ∀ bytes a, definition.aside? method args = some (.taken bytes a) →
          a.isHash = false ∧ a.isLiteral = false := by
        intro bytes a haside
        simpa using fun hasks ↦ hreads ⟨definition, hdefinition, bytes, a, haside, hasks⟩
      obtain ⟨outcome, houtcome⟩ : ∃ outcome,
          definition.bindAsked method (args.map (CallArgument.asked platform)) = pure outcome :=
        bindAsked_of_not_asks hasks
      dsimp only
      rw [houtcome]
      exact ⟨rfl, fun _ _ ↦ ⟨rfl, rfl⟩⟩

/-- A call of arguments that state their facts is bound by them. -/
theorem answer_call_stated {definition : MethodDef} {name : String}
    (hdefinition : s.definition? name = some definition) (platform : Platform) (method : String)
    (facts : List ArgumentFacts) : s.answer platform (.call method (facts.map .stated) name) =
      ⟨.outcome (definition.bind method facts), [], s⟩ := by
  have hasked : (facts.map .stated).map (CallArgument.asked platform) =
      facts.map (ArgumentFacts.asked (m := Session.Action)) := by
    rw [List.map_map]
    rfl
  rw [Session.answer, hdefinition]
  dsimp only
  rw [hasked, MethodDef.bindAsked_map_asked]
  rfl

@[simp]
theorem prepared_environment (s : Session) (r : Request) :
    (s.prepared r).environment = s.environment.changes r.changes := by
  cases r <;> rfl

theorem prepared_kept (hreload : r ≠ .reload) : (s.prepared r).kept = s.kept := by
  cases r with
  | reload => exact absurd rfl hreload
  | _ => rfl

theorem prepared_eq (hfresh : r = .reload ∨ s.kept = none) :
    s.prepared r = { s with environment := s.environment.changes r.changes, kept := none } := by
  cases r with
  | reload => rfl
  | _ =>
    have hkept : s.kept = none := hfresh.resolve_left nofun
    rw [← hkept]
    rfl

theorem settings_of_kept (hkept : s.kept = some c) : s.settings platform = (.ok c, s) := by
  rw [settings, hkept]

theorem settings_of_read (hkept : s.kept = none)
    (hread : platform.readSettings s.environment = .ok c) :
    s.settings platform = (.ok c, { s with kept := some c }) := by
  simp only [settings, hkept, hread]

theorem settings_of_failed {issues : List Issue} (hkept : s.kept = none)
    (hread : platform.readSettings s.environment = .error issues) :
    s.settings platform = (.error issues, s) := by
  simp only [settings, hkept, hread]

/-- The settings that a session keeps answer every request but a reload. -/
theorem answer_of_kept (hreads : r.Reads s) (hreload : r ≠ .reload) (hkept : s.kept = some c) :
    AnsweredBy platform.codecs c s r (s.answer platform r) := by
  obtain ⟨f, hanswer, hby⟩ := exists_answer_eq platform hreads
  have hprepared : (s.prepared r).kept = some c := (prepared_kept hreload).trans hkept
  have hsettings : (s.prepared r).settings platform = (.ok c, s.prepared r) :=
    settings_of_kept hprepared
  rw [hanswer, withSettings_of_ok hsettings]
  simpa only [← hprepared] using hby c

/-- A session that keeps no settings answers by those that the environment gives. -/
theorem answer_of_given (hreads : r.Reads s) (hfresh : r = .reload ∨ s.kept = none)
    (hgiven : given platform s r = .ok c) :
    AnsweredBy platform.codecs c s r (s.answer platform r) := by
  obtain ⟨f, hanswer, hby⟩ := exists_answer_eq platform hreads
  have hsettings : (s.prepared r).settings platform =
      (.ok c, { s.prepared r with kept := some c }) :=
    settings_of_read (by rw [prepared_eq hfresh]) (by rwa [prepared_environment])
  rw [hanswer, withSettings_of_ok hsettings]
  exact hby c

/-- A session that keeps no settings and is given none says what is wrong with them. -/
theorem answer_of_not_given {issues : List Issue} (hreads : r.Reads s)
    (hfresh : r = .reload ∨ s.kept = none) (hgiven : given platform s r = .error issues) :
    s.answer platform r = ⟨.invalidSettings issues, [],
      { s with environment := s.environment.changes r.changes, kept := none }⟩ := by
  obtain ⟨f, hanswer, -⟩ := exists_answer_eq platform hreads
  have hsettings : (s.prepared r).settings platform = (.error issues, s.prepared r) :=
    settings_of_failed (by rw [prepared_eq hfresh]) (by rwa [prepared_environment])
  rw [hanswer, withSettings_of_error hsettings, prepared_eq hfresh]

/-- What a session does at one request. -/
inductive AnswerCase (platform : Platform) (s : Session) (r : Request) : Prop
  /-- The request needs no settings. -/
  | passed (hreads : ¬ r.Reads s) (hsession : (s.answer platform r).session = s)
  /-- The request is answered by the settings that the session keeps. -/
  | kept {c : Settings} (hreads : r.Reads s) (hreload : r ≠ .reload) (hkept : s.kept = some c)
      (hanswer : AnsweredBy platform.codecs c s r (s.answer platform r))
  /-- The request is answered by settings from the environment. -/
  | read {c : Settings} (hreads : r.Reads s) (hfresh : r = .reload ∨ s.kept = none)
      (hgiven : given platform s r = .ok c)
      (hanswer : AnsweredBy platform.codecs c s r (s.answer platform r))
  /-- The environment has no settings for the request. -/
  | failed {issues : List Issue} (hreads : r.Reads s) (hfresh : r = .reload ∨ s.kept = none)
      (hgiven : given platform s r = .error issues)
      (hanswer : s.answer platform r = ⟨.invalidSettings issues, [],
        { s with environment := s.environment.changes r.changes, kept := none }⟩)

theorem answerCase (platform : Platform) (s : Session) (r : Request) : AnswerCase platform s r := by
  by_cases hreads : r.Reads s
  · by_cases hfresh : r = .reload ∨ s.kept = none
    · cases hgiven : given platform s r with
      | ok c => exact .read hreads hfresh hgiven (answer_of_given hreads hfresh hgiven)
      | error issues =>
        exact .failed hreads hfresh hgiven (answer_of_not_given hreads hfresh hgiven)
    · obtain ⟨hreload, hkept⟩ := not_or.mp hfresh
      obtain ⟨c, hc⟩ := Option.ne_none_iff_exists'.mp hkept
      exact .kept hreads hreload hc (answer_of_kept hreads hreload hc)
  · exact .passed hreads (answer_of_not_reads hreads).1

/-! ### One event -/

theorem changes_of_not_reads (hreads : ¬ r.Reads s) : r.changes = [] := by
  cases r with
  | change changed => exact absurd trivial hreads
  | _ => rfl

theorem ne_reload_of_not_reads (hreads : ¬ r.Reads s) : r ≠ .reload := by
  rintro rfl
  exact hreads trivial

theorem not_kept_of_fresh (hfresh : r = .reload ∨ s.kept = none) :
    ¬ (r ≠ .reload ∧ s.kept = some c) := by
  rintro ⟨hreload, hkept⟩
  exact absurd ((hfresh.resolve_left hreload).symm.trans hkept) nofun

theorem answer_environment (platform : Platform) (s : Session) (r : Request) :
    (s.answer platform r).session.environment = s.environment.changes r.changes := by
  cases answerCase platform s r with
  | passed hreads hsession =>
    rw [hsession, changes_of_not_reads hreads]
    rfl
  | kept _ _ _ hanswer => exact hanswer.environment_eq
  | read _ _ _ hanswer => exact hanswer.environment_eq
  | failed _ _ _ hanswer => rw [hanswer]

theorem kept_answer_eq_some_iff : (s.answer platform r).session.kept = some c ↔
    (r ≠ .reload ∧ s.kept = some c) ∨
      (r.Reads s ∧ given platform s r = .ok c ∧ (r = .reload ∨ s.kept = none)) := by
  cases answerCase platform s r with
  | passed hreads hsession =>
    simp only [hsession, hreads, ne_reload_of_not_reads hreads, ne_eq, not_false_eq_true, true_and,
      false_and, or_false]
  | kept hreads hreload hkept hanswer =>
    simp only [hanswer.kept_eq, hkept, hreload, ne_eq, not_false_eq_true, true_and, reduceCtorEq,
      or_self, and_false, or_false]
  | read hreads hfresh hgiven hanswer =>
    simp only [hanswer.kept_eq, hgiven, hreads, hfresh, not_kept_of_fresh hfresh, Option.some_inj,
      Except.ok.injEq, true_and, and_true, false_or]
  | failed hreads hfresh hgiven hanswer =>
    simp only [hanswer, hgiven, not_kept_of_fresh hfresh, reduceCtorEq, false_and, and_false,
      or_self]

theorem kept_answer_eq_none_iff : (s.answer platform r).session.kept = none ↔
    (r = .reload ∨ s.kept = none) ∧
      (r.Reads s → ∃ issues, given platform s r = .error issues) := by
  cases answerCase platform s r with
  | passed hreads hsession =>
    simp only [hsession, hreads, ne_reload_of_not_reads hreads, false_or, false_imp_iff, and_true]
  | kept hreads hreload hkept hanswer =>
    simp only [hanswer.kept_eq, hkept, hreload, reduceCtorEq, or_self, false_and]
  | read hreads hfresh hgiven hanswer =>
    simp only [hanswer.kept_eq, hgiven, hreads, reduceCtorEq, exists_false, true_imp_iff, and_false]
  | failed hreads hfresh hgiven hanswer =>
    simp only [hanswer, hgiven, hfresh, Except.error.injEq, exists_eq', implies_true, and_self]

/-- What happens around a session: variables change, or a request is made of it. -/
inductive Event
  | change (changed : List VariableChange)
  | request (r : Request)

/-- The variables that an event changes. -/
def Event.changes : Event → List VariableChange
  | .change changed => changed
  | .request r => r.changes

/-- The session after an event. -/
def next (platform : Platform) (s : Session) : Event → Session
  | .change changed => { s with environment := s.environment.changes changed }
  | .request r => (s.answer platform r).session

variable {e : Event}

theorem next_environment (platform : Platform) (s : Session) (e : Event) :
    (s.next platform e).environment = s.environment.changes e.changes := by
  cases e with
  | change changed => rfl
  | request r => exact answer_environment platform s r

theorem kept_next_eq_some_iff : (s.next platform e).kept = some c ↔
    (e ≠ .request .reload ∧ s.kept = some c) ∨
      ∃ r, e = .request r ∧ r.Reads s ∧ given platform s r = .ok c ∧
        (r = .reload ∨ s.kept = none) := by
  cases e with
  | change changed =>
    simp only [next, ne_eq, reduceCtorEq, not_false_eq_true, true_and, false_and, exists_false,
      or_false]
  | request r =>
    simp only [next, kept_answer_eq_some_iff, ne_eq, Event.request.injEq, exists_eq_left']

theorem kept_next_eq_none_iff : (s.next platform e).kept = none ↔
    (e = .request .reload ∨ s.kept = none) ∧
      ∀ r, e = .request r → r.Reads s → ∃ issues, given platform s r = .error issues := by
  cases e with
  | change changed =>
    simp only [next, reduceCtorEq, false_or, false_imp_iff, implies_true, and_true]
  | request r =>
    simp only [next, kept_answer_eq_none_iff, Event.request.injEq, forall_eq']

/-! ### Many events -/

/-- The session after some events, one after the other. -/
def after (platform : Platform) (s : Session) (events : List Event) : Session :=
  events.foldl (next platform) s

variable {start : Session} {events before later : List Event}

theorem after_concat : start.after platform (events ++ [e]) =
    (start.after platform events).next platform e :=
  List.foldl_concat ..

theorem after_environment : (start.after platform events).environment =
    start.environment.changes (events.flatMap Event.changes) := by
  induction events using List.reverseRecOn with
  | nil => rfl
  | append_singleton events e ih =>
    rw [after_concat, next_environment, ih, List.flatMap_append, List.flatMap_singleton,
      Environment.changes_append]

/-- Among some events there is the request `r`, which needed settings, after the events `before` and
before the events `later`. -/
structure ReadAmong (platform : Platform) (start : Session) (events before : List Event)
    (r : Request) (later : List Event) : Prop where
  split : events = before ++ .request r :: later
  reads : r.Reads (start.after platform before)

/-- What the environment gives to a request after some events. -/
def givenAfter (platform : Platform) (start : Session) (before : List Event) (r : Request) :
    Checked Settings :=
  platform.readSettings
    (start.environment.changes (before.flatMap Event.changes ++ r.changes))

/-- No read has succeeded since the last reload. -/
def Unread (platform : Platform) (start : Session) (events : List Event) : Prop :=
  ∀ before r later, ReadAmong platform start events before r later → .request .reload ∉ later →
    ∃ issues, givenAfter platform start before r = .error issues

/-- The settings `c` were given to the first read that succeeded since the last reload. -/
def InForce (platform : Platform) (start : Session) (events : List Event) (c : Settings) : Prop :=
  ∃ before r later, ReadAmong platform start events before r later ∧ .request .reload ∉ later ∧
    givenAfter platform start before r = .ok c ∧ (r = .reload ∨ Unread platform start before)

theorem given_after : given platform (start.after platform before) r =
    givenAfter platform start before r := by
  rw [given, after_environment, ← Environment.changes_append, givenAfter]

theorem readAmong_concat_iff :
    ReadAmong platform start (events ++ [e]) before r later ↔
      (∃ rest, later = rest ++ [e] ∧ ReadAmong platform start events before r rest) ∨
        (later = [] ∧ before = events ∧ e = .request r ∧
          r.Reads (start.after platform events)) := by
  constructor
  · rintro ⟨hsplit, hreads⟩
    obtain rfl | ⟨rest, e', rfl⟩ := later.eq_nil_or_concat'
    · obtain ⟨rfl, he⟩ := List.append_inj' hsplit rfl
      exact .inr ⟨rfl, rfl, List.singleton_inj.mp he, hreads⟩
    · have hsplit' : events ++ [e] = (before ++ .request r :: rest) ++ [e'] := by
        rw [hsplit, List.append_assoc, List.cons_append]
      obtain ⟨hevents, he⟩ := List.append_inj' hsplit' rfl
      exact .inl ⟨rest, by rw [List.singleton_inj.mp he], hevents, hreads⟩
  · rintro (⟨rest, rfl, hsplit, hreads⟩ | ⟨rfl, rfl, rfl, hreads⟩)
    · exact ⟨by rw [hsplit, List.append_assoc, List.cons_append], hreads⟩
    · exact ⟨rfl, hreads⟩

theorem reload_mem_concat_iff : .request .reload ∈ later ++ [e] ↔
    .request .reload ∈ later ∨ e = .request .reload := by
  rw [List.mem_append, List.mem_singleton, eq_comm (a := e)]

theorem unread_concat_iff : Unread platform start (events ++ [e]) ↔
    (e = .request .reload ∨ Unread platform start events) ∧
      ∀ r, e = .request r → r.Reads (start.after platform events) →
        ∃ issues, givenAfter platform start events r = .error issues := by
  constructor
  · intro h
    refine ⟨or_iff_not_imp_left.mpr fun hreload before r rest hread hrest ↦ ?_, ?_⟩
    · refine h before r (rest ++ [e]) (readAmong_concat_iff.mpr (.inl ⟨rest, rfl, hread⟩)) ?_
      rw [reload_mem_concat_iff]
      exact not_or.mpr ⟨hrest, hreload⟩
    · rintro r rfl hreads
      exact h events r [] (readAmong_concat_iff.mpr (.inr ⟨rfl, rfl, rfl, hreads⟩)) nofun
  · rintro ⟨hold, hnew⟩ before r later hread hlater
    obtain ⟨rest, rfl, hrest⟩ | ⟨rfl, rfl, he, hreads⟩ := readAmong_concat_iff.mp hread
    · rw [reload_mem_concat_iff, not_or] at hlater
      exact hold.resolve_left hlater.2 before r rest hrest hlater.1
    · exact hnew r he hreads

theorem inForce_concat_iff : InForce platform start (events ++ [e]) c ↔
    (e ≠ .request .reload ∧ InForce platform start events c) ∨
      ∃ r, e = .request r ∧ r.Reads (start.after platform events) ∧
        givenAfter platform start events r = .ok c ∧
        (r = .reload ∨ Unread platform start events) := by
  constructor
  · rintro ⟨before, r, later, hread, hlater, hgiven, hfirst⟩
    obtain ⟨rest, rfl, hrest⟩ | ⟨rfl, rfl, he, hreads⟩ := readAmong_concat_iff.mp hread
    · rw [reload_mem_concat_iff, not_or] at hlater
      exact .inl ⟨hlater.2, before, r, rest, hrest, hlater.1, hgiven, hfirst⟩
    · exact .inr ⟨r, he, hreads, hgiven, hfirst⟩
  · rintro (⟨hreload, before, r, rest, hread, hrest, hgiven, hfirst⟩ |
      ⟨r, rfl, hreads, hgiven, hfirst⟩)
    · refine ⟨before, r, rest ++ [e], readAmong_concat_iff.mpr (.inl ⟨rest, rfl, hread⟩), ?_,
        hgiven, hfirst⟩
      rw [reload_mem_concat_iff]
      exact not_or.mpr ⟨hrest, hreload⟩
    · exact ⟨events, r, [], readAmong_concat_iff.mpr (.inr ⟨rfl, rfl, rfl, hreads⟩), nofun, hgiven,
        hfirst⟩

/-- A session keeps the settings that are in force. -/
theorem kept_after (platform : Platform) (hstart : start.kept = none) (events : List Event) :
    (∀ c, (start.after platform events).kept = some c ↔ InForce platform start events c) ∧
      ((start.after platform events).kept = none ↔ Unread platform start events) := by
  induction events using List.reverseRecOn with
  | nil =>
    have hread {before r later} : ¬ ReadAmong platform start [] before r later := fun h ↦
      absurd h.split (by simp)
    have hafter : start.after platform [] = start := rfl
    rw [hafter, hstart]
    exact ⟨fun c ↦ ⟨nofun, fun ⟨_, _, _, h, _⟩ ↦ absurd h hread⟩,
      fun _ _ _ _ h ↦ absurd h hread, fun _ ↦ rfl⟩
  | append_singleton events e ih =>
    simp only [after_concat, kept_next_eq_some_iff, kept_next_eq_none_iff, inForce_concat_iff,
      unread_concat_iff, given_after, ih.1, ih.2, implies_true, and_self]

/-- Whatever happens around a session, a request that needs settings is answered by those that the
environment gave at the first successful read since the last reload, or since the start. When there
are none, and at every reload, the environment is read at that moment: the request is answered by
what it gives, which is in force from then on, unless it gives no settings, which is then all that
is said and leaves nothing in force. A request that needs no settings neither reads nor keeps any;
such are a call of arguments that state their facts and the load of nothing. Of the reader of
settings no more is asked than that it does as documented. -/
theorem requests_see_settings_in_force (initials : String) (platform : Platform)
    (hdocumented : SettingsReader.Documented initials platform.readSettings) (env : Environment)
    (definitions : List (String × Option MethodDef)) (events : List Event) (r : Request) :
    let start : Session := { environment := env, definitions := definitions }
    let s := start.after platform events
    let now := env.changes (events.flatMap Event.changes ++ r.changes)
    (∀ c, s.kept = some c ↔ InForce platform start events c) ∧
    (∀ c, r.Reads s → r ≠ .reload → InForce platform start events c →
      AnsweredBy platform.codecs c s r (s.answer platform r)) ∧
    (r.Reads s → r = .reload ∨ s.kept = none → ¬ Settings.Unterminated initials now →
      ∃ c, platform.readSettings now = .ok c ∧
        c.terminator = (Settings.findFolded? (initials ++ Settings.terminatorName) now).getD
          ({} : Settings).terminator ∧
        c.encoding = (Settings.findFolded? (initials ++ Settings.encodingName) now).getD
          ({} : Settings).encoding ∧
        AnsweredBy platform.codecs c s r (s.answer platform r) ∧
        InForce platform start (events ++ [.request r]) c) ∧
    (r.Reads s → r = .reload ∨ s.kept = none → Settings.Unterminated initials now →
      s.answer platform r = ⟨.invalidSettings [⟨[.field Settings.terminatorName], .tooShort⟩], [],
        { s with environment := now, kept := none }⟩) ∧
    (¬ r.Reads s → (s.answer platform r).session = s ∧ ∀ env kept,
      ({ s with environment := env, kept := kept }.answer platform r).reply =
          (s.answer platform r).reply ∧
        ({ s with environment := env, kept := kept }.answer platform r).skipped =
          (s.answer platform r).skipped) ∧
    (∀ definition method facts name, s.definition? name = some definition →
      s.answer platform (.call method (facts.map .stated) name) =
        ⟨.outcome (definition.bind method facts), [], s⟩) ∧
    ∀ parse, ¬ Request.Reads s (.loadAll parse []) := by
  intro start s now
  have hstart : start.kept = none := rfl
  obtain ⟨hforce, hunread⟩ := kept_after platform hstart events
  have hgiven : given platform s r = platform.readSettings now := given_after
  refine ⟨hforce, ?_, ?_, ?_, answer_of_not_reads, ?_, fun _ h ↦ h rfl⟩
  · intro c hreads hreload hc
    exact answer_of_kept hreads hreload ((hforce c).mpr hc)
  · intro hreads hfresh hterminated
    obtain ⟨c, hc, hterminator, hencoding⟩ := hdocumented.terminated now hterminated
    refine ⟨c, hc, hterminator, hencoding, answer_of_given hreads hfresh (hgiven.trans hc),
      inForce_concat_iff.mpr ?_⟩
    exact .inr ⟨r, rfl, hreads, hc, hfresh.imp_right hunread.mp⟩
  · intro hreads hfresh hunterminated
    have herror := hdocumented.unterminated now hunterminated
    rw [answer_of_not_given hreads hfresh (hgiven.trans herror), after_environment,
      ← Environment.changes_append]
  · intro definition method facts name hdefinition
    exact answer_call_stated hdefinition platform method facts

end Session

namespace UnsetTerminator

/-- The method of `def f(size:)`. -/
def method : MethodDef where
  name := "f"
  params := { keyword := [⟨"size:", false, rfl⟩] }
  source := "def f(size:)"

def start : Session where
  definitions := [("f", some method)]

def platform : Platform where
  codecs := .common
  readSettings env := Settings.ofSources "RUBYSIG_" { environment := env }

/-- The settings are read, then the terminator is set to nothing, and the settings are reloaded. -/
def events : List Session.Event :=
  [.request (.change []), .change [("RUBYSIG_DEFINITION_TERMINATOR", some "")], .request .reload]

/-- The terminator is set again. -/
def restored : Session.Event :=
  .change [("RUBYSIG_DEFINITION_TERMINATOR", some ";end")]

/-- The hash in `f({size: 1})`. -/
def hash : Argument where
  first := {
    kind := "hash"
    start := 2
    stop := 11
    children := [
      { kind := "pair"
        children := [{ kind := "hash_key_symbol", role := some "key", start := 3, stop := 7 }] }] }

/-- A call that passes the hash. -/
def call : Request :=
  .call "f" [.taken "f({size: 1})".toUTF8.toList hash] "f"

theorem reads_call {s : Session} (h : s.definitions = start.definitions) : call.Reads s := by
  refine ⟨method, ?_, _, hash, rfl, Or.inl rfl⟩
  rw [Session.definition?, h]
  rfl

end UnsetTerminator

open UnsetTerminator

namespace Session

/-- A call that passes a hash taken from program text fails for want of settings, and once the
terminator is set again it is answered by the settings of that moment. -/
theorem requests_see_settings_in_force_of_call :
    SettingsReader.Documented "RUBYSIG_" platform.readSettings ∧
      ((start.after platform events).answer platform call).reply =
        .invalidSettings [⟨[.field Settings.terminatorName], .tooShort⟩] ∧
      ∃ c, c.terminator = ";end" ∧
        ((start.after platform (events ++ [restored])).answer platform call).session.kept =
          some c := by
  have hdocumented : SettingsReader.Documented "RUBYSIG_" platform.readSettings :=
    Settings.documented_ofSources "RUBYSIG_"
  obtain ⟨-, -, -, hfails, -⟩ := requests_see_settings_in_force "RUBYSIG_" platform hdocumented []
    start.definitions events call
  obtain ⟨-, -, hreads, -⟩ := requests_see_settings_in_force "RUBYSIG_" platform hdocumented []
    start.definitions (events ++ [restored]) call
  have hanswer := hfails (reads_call (by decide +kernel)) (Or.inr (by decide +kernel))
    (by decide +kernel)
  obtain ⟨c, -, hterminator, -, hby, -⟩ := hreads (reads_call (by decide +kernel))
    (Or.inr (by decide +kernel)) (by decide +kernel)
  refine ⟨hdocumented, congrArg Answer.reply hanswer, c, ?_, hby.kept_eq⟩
  rw [hterminator]
  decide +kernel

/-- A call reads the settings: with none to be had it fails, and with settings to be had it is bound
and the session keeps them. -/
theorem call_reads_settings :
    (start.after platform events).kept = none ∧
      ((start.after platform events).answer platform call).reply =
        .invalidSettings [⟨[.field Settings.terminatorName], .tooShort⟩] ∧
      (start.after platform (events ++ [restored])).kept = none ∧
      ((start.after platform (events ++ [restored])).answer platform call).reply = .outcome .ok ∧
      ((start.after platform (events ++ [restored])).answer platform call).session.kept ≠ none := by
  decide +kernel

end Session

end CallBinding
