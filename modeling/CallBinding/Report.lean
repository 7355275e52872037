import CallBinding.Bind
import CallBinding.CallSite
import CallBinding.Definition

/-!
Checking the calls in a program text against a method definition, and loading the definitions to
check against. A text that is rejected is skipped and the reason kept; it does not stop the texts
after it from being loaded. A fault that escapes the building of a definition does.

The calls of a text are found first, and then bound one after the other. Their arguments are read
when binding asks for them.
-/

set_option autoImplicit false
set_option relaxedAutoImplicit false

namespace CallBinding

/-- A call and the outcome of binding it. -/
structure CallCheck where
  call : CallSite
  outcome : Outcome
  deriving DecidableEq

def CallCheck.bindable (c : CallCheck) : Bool :=
  c.outcome.bindable

/-- The calls by the name of a definition, each with its outcome. -/
structure Report where
  definition : MethodDef
  checks : List CallCheck := []
  deriving DecidableEq

namespace Report

/-- The checks of the calls that do not bind. -/
def broken (r : Report) : List CallCheck :=
  r.checks.filter fun c ↦ !c.bindable

/-- The positions of the broken checks. -/
def brokenPositions (r : Report) : List Nat :=
  (r.checks.zipIdx.filter fun (c, _) ↦ !c.bindable).map Prod.snd

def success (r : Report) : Bool :=
  r.broken.isEmpty

/-- The report on the calls of a tree. -/
def ofTree (definition : MethodDef) (src : Source) (t : Tree) : Report :=
  ⟨definition, ((t.callSites src).filter fun call ↦ call.name = definition.name).map
    fun call ↦ ⟨call, definition.bind call.name call.argumentFacts⟩⟩

end Report

/-- The report on the calls of a program text. -/
def MethodDef.check (codecs : Text.Codecs) (settings : Settings) (parse : Parse)
    (definition : MethodDef) (text : String) : Except Failure Report := do
  let e ← settings.encoded codecs text
  let calls ← e.seenCalls (parse e.bytes)
  let checks ← (calls.filter fun call ↦ call.name = definition.name).mapM fun call ↦
    return CallCheck.mk (call.site e.source)
      (← definition.bindAsked call.name (call.args.map e.asked))
  return ⟨definition, checks⟩

/-- The calls of a program text. -/
def callSites (codecs : Text.Codecs) (settings : Settings) (parse : Parse) (text : String) :
    Except Failure (List CallSite) := do
  let e ← settings.encoded codecs text
  e.callSites (parse e.bytes)

/-- A text that was to be loaded and was rejected. -/
structure Skipped where
  source : String
  rejection : Rejection
  deriving DecidableEq

def Skipped.warning (render : String → Invalid → String) (s : Skipped) : String :=
  "Skipping definition candidate " ++ Text.quoted s.source ++ ": " ++ s.rejection.details render

/-- What loading gives, unless a fault escapes it, and the texts that were skipped on the way. -/
structure Loaded (α : Type) where
  value : Except DefinitionFault α
  skipped : List Skipped := []

namespace Loaded

variable {α β : Type}

/-- What is loaded after something else. Nothing is when a fault has escaped. -/
def bind (l : Loaded α) (f : α → Loaded β) : Loaded β :=
  match l.value with
  | .ok a => ⟨(f a).value, l.skipped ++ (f a).skipped⟩
  | .error fault => ⟨.error fault, l.skipped⟩

def map (f : α → β) (l : Loaded α) : Loaded β :=
  ⟨l.value.map f, l.skipped⟩

/-- What several loads give, one after the other. -/
def sequence : List (Loaded α) → Loaded (List α)
  | [] => ⟨.ok [], []⟩
  | l :: rest => l.bind fun a ↦ (sequence rest).map (a :: ·)

end Loaded

namespace MethodDef

variable (codecs : Text.Codecs) (settings : Settings) (parse : Parse)

/-- Loads one definition. -/
def load (text : String) : Loaded (Option MethodDef) :=
  match build codecs settings parse text with
  | .ok d => ⟨.ok (some d), []⟩
  | .error (.rejected r) => ⟨.ok none, [⟨text, r⟩]⟩
  | .error (.escaped fault) => ⟨.error fault, []⟩

/-- Loads the definitions among some texts. -/
def loadAll (texts : List String) : Loaded (List MethodDef) :=
  (Loaded.sequence (texts.map (load codecs settings parse))).map (List.filterMap id)

/-- Loads the sides of a changed method that define one. -/
def loadSides (sides : List (String × String)) : Loaded (List (String × MethodDef)) :=
  (Loaded.sequence <| sides.map fun (side, text) ↦
    (load codecs settings parse text).map fun d ↦ d.map fun m ↦ (side, m)).map (List.filterMap id)

/-- Loads the sides of several changed methods. -/
def loadChanged (records : List (List (String × String))) :
    Loaded (List (List (String × MethodDef))) :=
  Loaded.sequence (records.map (loadSides codecs settings parse))

end MethodDef

end CallBinding
