import CallBinding.Params.Checked
import CallBinding.Settings

/-!
Method definitions from program text. A definition is written without the end of its body: the text
is closed by the terminator of the settings, encoded and read, and its first statement has to be a
method. The nodes of its parameter list are sorted into slots one after the other, and each text
that goes into a slot is decoded when it is come to.

Every way to fail is a `DefinitionFault` of some kind. `MethodDef.build` takes the first one that it
meets when its kind is one that it handles (`FailureKind.isHandled`), and turns it into a rejection
of the text; a fault of any other kind escapes it. The slots, the name and the text are put together
behind the handler, where no fault is expected.
-/

set_option autoImplicit false
set_option relaxedAutoImplicit false

namespace CallBinding

theorem bind_eq_ok_iff {ε α β : Type} {x : Except ε α} {f : α → Except ε β} {b : β} :
    x >>= f = .ok b ↔ ∃ a, x = .ok a ∧ f a = .ok b := by
  cases x with
  | error e => exact ⟨nofun, nofun⟩
  | ok a =>
    constructor
    · intro h
      exact ⟨a, rfl, h⟩
    · rintro ⟨_, ha, h⟩
      injection ha with ha
      rw [← ha] at h
      exact h

theorem mapError_eq_ok_iff {ε δ α : Type} {x : Except ε α} {f : ε → δ} {a : α} :
    x.mapError f = .ok a ↔ x = .ok a := by
  cases x with
  | error e => exact ⟨nofun, nofun⟩
  | ok b =>
    constructor
    · intro h
      injection h with h
      rw [h]
    · intro h
      injection h with h
      rw [h]
      rfl

/-- Why a text is not the definition of a method. -/
inductive DefinitionFault
  /-- The text cannot be encoded, or some part of it cannot be decoded. -/
  | unreadable (f : Failure)
  | broken
  | empty
  | notMethod (kind : String)
  | unnamed
  | partialOptional
  | unnamedKeyword
  | invalid (v : Invalid)
  deriving DecidableEq

namespace DefinitionFault

def kind : DefinitionFault → FailureKind
  | unreadable f => f.kind
  | invalid _ => .validation
  | _ => .lookup

/-- The text of a fault. A record that failed its checks is told of by `render`. -/
def message (render : Invalid → String) : DefinitionFault → String
  | unreadable f => f.message
  | broken => "syntax error in definition"
  | empty => "empty program"
  | notMethod kind => "expected a method definition, found " ++ kind
  | unnamed => "method definition has no name"
  | partialOptional => "optional parameter without name or default"
  | unnamedKeyword => "keyword parameter without name"
  | invalid v => render v

end DefinitionFault

/-- A text that is not the definition of a method: the text that was read, and the fault. -/
structure Rejection where
  code : String
  fault : DefinitionFault
  deriving DecidableEq

namespace Rejection

/-- The text of the fault. What is said of a record may show the text that was read. -/
def details (render : String → Invalid → String) (r : Rejection) : String :=
  r.fault.message (render r.code)

def message (render : String → Invalid → String) (r : Rejection) : String :=
  "Can't parse method definition.\nCode: " ++ r.code ++ "\nError: " ++ r.details render

end Rejection

/-- The kinds of faults that a text is rejected for. -/
def FailureKind.isHandled (kind : FailureKind) : Bool :=
  kind.isA .lookup || kind.isA .value

/-- How building a definition fails: the text is rejected, or a fault escapes. -/
inductive BuildError
  | rejected (r : Rejection)
  | escaped (fault : DefinitionFault)
  deriving DecidableEq

/-- A reader of the texts of nodes. -/
abbrev NodeReader := Node → Except DefinitionFault String

def Source.reader (s : Source) : NodeReader :=
  fun n ↦ .ok (s.text n)

def Encoded.reader (e : Encoded) : NodeReader :=
  fun n ↦ (e.text n).mapError .unreadable

/-- Kinds that define a method. -/
def definitionKinds : List String :=
  ["method", "singleton_method"]

/-- The nodes that are not comments. -/
def withoutComments (nodes : List Node) : List Node :=
  nodes.filter fun n ↦ n.kind ≠ "comment"

/-- The method that a tree begins with. -/
def Tree.definition (t : Tree) : Except DefinitionFault Node :=
  if t.broken then .error .broken
  else match withoutComments t.root.namedChildren with
    | [] => .error .empty
    | n :: _ => if definitionKinds.contains n.kind then .ok n else .error (.notMethod n.kind)

/-- The name of a method definition. -/
def Node.definitionName (read : NodeReader) (definition : Node) : Except DefinitionFault String :=
  match definition.child? "name" with
  | none => .error .unnamed
  | some name => read name

/-- The parameter nodes of a method definition. -/
def Node.parameterNodes (definition : Node) : List Node :=
  match definition.child? "parameters" with
  | none => []
  | some list => withoutComments list.namedChildren

/-- The splat of a parameter list that passes on whatever it is given. -/
def forwarded : String := "..."

namespace ParamsDraft

/-- Required parameters bind from the back once an optional parameter or a splat is declared. -/
def addRequired (d : ParamsDraft) (name : String) : ParamsDraft :=
  if d.optional ≠ [] || d.rest.isSome then { d with postRest := d.postRest ++ [name] }
  else { d with normal := d.normal ++ [name] }

def addOptional (read : NodeReader) (d : ParamsDraft) (n : Node) :
    Except DefinitionFault ParamsDraft :=
  match n.child? "name", n.child? "value" with
  | some name, some value => do
    let name ← read name
    let value ← read value
    return { d with optional := d.optional ++ [⟨name, value⟩] }
  | _, _ => .error .partialOptional

/-- The keyword parameter with a label, which has to be one. -/
def keywordOf (label : String) (hasDefault : Bool) : Except DefinitionFault KeywordParam :=
  if h : isLabel label = true then .ok ⟨label, hasDefault, h⟩
  else .error (.invalid ⟨KeywordParam.model, [⟨[.field "label"], .notLabel⟩]⟩)

def addKeyword (read : NodeReader) (d : ParamsDraft) (n : Node) :
    Except DefinitionFault ParamsDraft :=
  match n.child? "name" with
  | none => .error .unnamedKeyword
  | some name => do
    let name ← read name
    let keyword ← keywordOf (name ++ ":") (n.child? "value").isSome
    return { d with keyword := d.keyword ++ [keyword] }

/-- The name of a splat, or its sign when it has none. -/
def splatName (read : NodeReader) (sign : String) (n : Node) : Except DefinitionFault String :=
  match n.child? "name" with
  | some name => read name
  | none => .ok sign

/-- Sorts one node of a parameter list into its slot. A block parameter has no slot. -/
def add (read : NodeReader) (d : ParamsDraft) (n : Node) : Except DefinitionFault ParamsDraft :=
  match n.kind with
  | "identifier" | "destructured_parameter" => return d.addRequired (← read n)
  | "optional_parameter" => d.addOptional read n
  | "splat_parameter" => return { d with rest := some (← splatName read "*" n) }
  | "keyword_parameter" => d.addKeyword read n
  | "hash_splat_parameter" => return { d with keywordRest := some (← splatName read "**" n) }
  | "forward_parameter" => return { d with rest := some forwarded, keywordRest := some forwarded }
  | _ => return d

end ParamsDraft

namespace Params

/-- The slots of the nodes of a parameter list. -/
def readNodes (read : NodeReader) (nodes : List Node) : Except DefinitionFault Params := do
  let draft ← nodes.foldlM (ParamsDraft.add read) {}
  match draft.finish with
  | .ok params => .ok params
  | .error labels => .error (.invalid ⟨model, [⟨[], .repeatedKeywords labels⟩]⟩)

/-- The slots of nodes of which every text can be read. -/
def ofNodes (src : Source) (nodes : List Node) : Except DefinitionFault Params :=
  readNodes src.reader nodes

end Params

namespace MethodDef

/-- The name and the slots of the method that a closed definition declares. -/
def read (codecs : Text.Codecs) (settings : Settings) (parse : Parse) (code : String) :
    Except DefinitionFault (String × Params) := do
  let e ← (settings.encoded codecs code).mapError .unreadable
  let definition ← (parse e.bytes).definition
  let name ← definition.definitionName e.reader
  let params ← Params.readNodes e.reader definition.parameterNodes
  return (name, params)

/-- The definition made of a name, of slots that have passed their checks, and of a text. -/
def ofParts (name : String) (params : Params) (source : String) : Checked MethodDef :=
  (Checked.both (Checked.within (.field "name") (Data.toText (.text name))) <|
    Checked.both (.ok params)
      (Checked.within (.field "source") (Data.toText (.text source)))).map
    fun (name, params, source) ↦ ⟨name, params, source⟩

theorem ofParts_eq (name : String) (params : Params) (source : String) :
    ofParts name params source = .ok ⟨name, params, source⟩ :=
  rfl

/-- The method that a text defines, once the terminator of the settings closes it. -/
def build (codecs : Text.Codecs) (settings : Settings) (parse : Parse) (text : String) :
    Except BuildError MethodDef :=
  let code := text ++ settings.terminator
  match read codecs settings parse code with
  | .ok (name, params) =>
    (ofParts name params text).mapError fun issues ↦ .escaped (.invalid ⟨model, issues⟩)
  | .error fault =>
    if fault.kind.isHandled then .error (.rejected ⟨code, fault⟩) else .error (.escaped fault)

variable {codecs : Text.Codecs} {settings : Settings} {parse : Parse} {text : String}

theorem read_eq_ok_iff {code name : String} {params : Params} :
    read codecs settings parse code = .ok (name, params) ↔
      ∃ e definition, settings.encoded codecs code = .ok e ∧
        (parse e.bytes).definition = .ok definition ∧
          definition.definitionName e.reader = .ok name ∧
            Params.readNodes e.reader definition.parameterNodes = .ok params := by
  simp only [read, bind_eq_ok_iff, mapError_eq_ok_iff, pure, Except.pure, Except.ok.injEq,
    Prod.mk.injEq]
  constructor
  · rintro ⟨e, he, definition, hdefinition, _, hname, _, hparams, rfl, rfl⟩
    exact ⟨e, definition, he, hdefinition, hname, hparams⟩
  · rintro ⟨e, definition, he, hdefinition, hname, hparams⟩
    exact ⟨e, he, definition, hdefinition, name, hname, params, hparams, rfl, rfl⟩

/-- A definition is built exactly from what is read of the closed text. -/
theorem build_eq_ok_iff {d : MethodDef} :
    build codecs settings parse text = .ok d ↔
      read codecs settings parse (text ++ settings.terminator) = .ok (d.name, d.params) ∧
        d.source = text := by
  unfold build
  dsimp only
  cases read codecs settings parse (text ++ settings.terminator) with
  | error fault =>
    refine iff_of_false ?_ nofun
    dsimp only
    split <;> exact nofun
  | ok result =>
    obtain ⟨name, params⟩ := result
    dsimp only
    rw [ofParts_eq]
    constructor
    · intro h
      injection h with h
      rw [← h]
      exact ⟨rfl, rfl⟩
    · rintro ⟨h, rfl⟩
      injection h with h
      injection h with hname hparams
      rw [hname, hparams]
      rfl

end MethodDef

end CallBinding
