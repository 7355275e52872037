import CallBinding.Report

/-!
A session: an environment that changes, settings that are read from it once and then kept, and
definitions under names. Settings are kept from the first read that succeeds until they are
reloaded, whatever happens to the environment in between; a read that fails keeps nothing.

Settings are needed to read program text, and also by an argument that was taken from program text
earlier: it has no more than bytes and nodes, and decodes them by the encoding of the settings when
it is asked for its text or its labels (`CallArgument.asked`).
-/

set_option autoImplicit false
set_option relaxedAutoImplicit false

namespace CallBinding

/-- What a session is given from outside: encodings, and a reader of settings. -/
structure Platform where
  codecs : Text.Codecs
  readSettings : SettingsReader

structure Session where
  environment : Environment := []
  kept : Option Settings := none
  definitions : List (String × Option MethodDef) := []

/-- An argument that a session is asked to bind. It states its facts, or it was taken from program
text of which the bytes are known. -/
inductive CallArgument
  | stated (facts : ArgumentFacts)
  | taken (bytes : List UInt8) (argument : Argument)

/-- A request to a session. Program text comes with the reader that it is read by. -/
inductive Request
  | change (changed : List VariableChange)
  | reload
  | load (parse : Parse) (text : String) (name : String)
  | loadAll (parse : Parse) (texts : List String)
  | loadChanged (parse : Parse) (records : List (List (String × String)))
  | check (parse : Parse) (text : String) (name : String)
  | call (method : String) (args : List CallArgument) (name : String)

/-- What a session answers. -/
inductive Reply
  | settings (value : Settings)
  | definition (value : Option MethodDef)
  | definitions (values : List MethodDef)
  | changed (records : List (List (String × MethodDef)))
  | report (value : Report)
  | outcome (value : Outcome)
  | noDefinition
  | invalidSettings (issues : List Issue)
  | raised (fault : DefinitionFault)
  deriving DecidableEq

/-- An answer, the texts that were skipped for it, and the session after it. -/
structure Answer where
  reply : Reply
  skipped : List Skipped := []
  session : Session

namespace Session

/-- The settings that the session works by, and the session that keeps them. -/
def settings (platform : Platform) (s : Session) : Checked Settings × Session :=
  match s.kept with
  | some kept => (.ok kept, s)
  | none =>
    match platform.readSettings s.environment with
    | .ok read => (.ok read, { s with kept := some read })
    | .error issues => (.error issues, s)

/-- An answer that needs the settings of the session. -/
def withSettings (platform : Platform) (s : Session) (answer : Settings → Session → Answer) :
    Answer :=
  match s.settings platform with
  | (.ok settings, s) => answer settings s
  | (.error issues, s) => ⟨.invalidSettings issues, [], s⟩

/-- The definition under a name, when there is one. -/
def definition? (s : Session) (name : String) : Option MethodDef :=
  (KeyedList.get? name s.definitions).join

/-- Something that is done in a session. It may stop with a reply. -/
abbrev Action := ExceptT Reply (StateM Session)

/-- Decodes some bytes by the settings of the session. -/
def decoding {α : Type} (platform : Platform) (bytes : List UInt8)
    (read : Encoded → Except Failure α) : Action α := fun s ↦
  match s.settings platform with
  | (.ok settings, s) =>
    match read ⟨bytes, platform.codecs.decode settings.encoding⟩ with
    | .ok a => (.ok a, s)
    | .error f => (.error (.raised (.unreadable f)), s)
  | (.error issues, s) => (.error (.invalidSettings issues), s)

end Session

namespace CallArgument

/-- An argument as binding asks it in a session. -/
def asked (platform : Platform) : CallArgument → AskedArgument Session.Action
  | stated facts => facts.asked
  | taken bytes a => {
      source := Session.decoding platform bytes fun e ↦ e.argumentText a
      isHash := a.isHash
      isLiteral := a.isLiteral
      labels := Session.decoding platform bytes fun e ↦ e.labels a
      hasSplat := a.hasSplat }

end CallArgument

namespace Session

/-- The answer to one request. -/
def answer (platform : Platform) (s : Session) : Request → Answer
  | .change changed =>
    { s with environment := s.environment.changes changed }.withSettings platform
      fun settings s ↦ ⟨.settings settings, [], s⟩
  | .reload =>
    { s with kept := none }.withSettings platform fun settings s ↦ ⟨.settings settings, [], s⟩
  | .load parse text name =>
    s.withSettings platform fun settings s ↦
      let loaded := MethodDef.load platform.codecs settings parse text
      match loaded.value with
      | .ok d =>
        ⟨.definition d, loaded.skipped,
          { s with definitions := KeyedList.put name d s.definitions }⟩
      | .error fault => ⟨.raised fault, loaded.skipped, s⟩
  | .loadAll parse texts =>
    if texts = [] then ⟨.definitions [], [], s⟩
    else s.withSettings platform fun settings s ↦
      let loaded := MethodDef.loadAll platform.codecs settings parse texts
      match loaded.value with
      | .ok ds => ⟨.definitions ds, loaded.skipped, s⟩
      | .error fault => ⟨.raised fault, loaded.skipped, s⟩
  | .loadChanged parse records =>
    if records.all List.isEmpty then ⟨.changed (records.map fun _ ↦ []), [], s⟩
    else s.withSettings platform fun settings s ↦
      let loaded := MethodDef.loadChanged platform.codecs settings parse
        (records.map KeyedList.ofPairs)
      match loaded.value with
      | .ok changed => ⟨.changed changed, loaded.skipped, s⟩
      | .error fault => ⟨.raised fault, loaded.skipped, s⟩
  | .check parse text name =>
    match s.definition? name with
    | none => ⟨.noDefinition, [], s⟩
    | some definition =>
      s.withSettings platform fun settings s ↦
        match definition.check platform.codecs settings parse text with
        | .ok report => ⟨.report report, [], s⟩
        | .error f => ⟨.raised (.unreadable f), [], s⟩
  | .call method args name =>
    match s.definition? name with
    | none => ⟨.noDefinition, [], s⟩
    | some definition =>
      match definition.bindAsked method (args.map (CallArgument.asked platform)) s with
      | (.ok outcome, s) => ⟨.outcome outcome, [], s⟩
      | (.error reply, s) => ⟨reply, [], s⟩

/-- The answers to some requests, one after the other. -/
def run (platform : Platform) (s : Session) : List Request → List Answer
  | [] => []
  | request :: rest =>
    let first := s.answer platform request
    first :: first.session.run platform rest

end Session

end CallBinding
