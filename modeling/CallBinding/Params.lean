/-!
The parameter list of a method, sorted into the slots that arguments are bound to, and the method
definition that owns it. A slot set never declares one keyword label twice, and the labels that
occur in a list more than once are listed in ascending order (`repeatedLabels`).
-/

set_option autoImplicit false
set_option relaxedAutoImplicit false

namespace CallBinding

/-- Whether a text is a label: its last character is a colon, and a character of the same line
stands before that colon. -/
def isLabel (text : String) : Bool :=
  match text.toList.reverse with
  | ':' :: c :: _ => c != '\n'
  | _ => false

/-- The text without its last character. -/
def withoutLast (text : String) : String :=
  String.ofList text.toList.dropLast

/-- The text without the one colon it may end in. -/
def withoutTrailingColon (text : String) : String :=
  if text.toList.getLast? = some ':' then withoutLast text else text

/-- A positional parameter with a default expression. -/
structure OptionalParam where
  name : String
  default : String
  deriving DecidableEq

/-- A keyword parameter, named by its label. -/
structure KeywordParam where
  label : String
  hasDefault : Bool
  isLabel_label : isLabel label = true
  deriving DecidableEq

namespace KeywordParam

/-- The label without its colon. -/
def name (k : KeywordParam) : String :=
  withoutLast k.label

/-- A keyword without a default has to be passed. -/
def required (k : KeywordParam) : Bool :=
  !k.hasDefault

end KeywordParam

/-- The labels that occur at least twice, each once, in ascending order. -/
def repeatedLabels (labels : List String) : List String :=
  ((labels.filter fun l ↦ 1 < labels.count l).eraseDups).mergeSort fun a b ↦ decide (a ≤ b)

/-- The slots of a parameter list, in the order in which they are declared. -/
structure Params where
  normal : List String := []
  optional : List OptionalParam := []
  rest : Option String := none
  postRest : List String := []
  keyword : List KeywordParam := []
  keywordRest : Option String := none
  labels_nodup : (keyword.map KeywordParam.label).Nodup := by simp
  deriving DecidableEq

namespace Params

/-- Whether a call may end in a hash of keywords. -/
def takesKeywords (p : Params) : Bool :=
  !p.keyword.isEmpty || p.keywordRest.isSome

/-- Whether a call has to end in a hash of keywords. -/
def requiresKeywords (p : Params) : Bool :=
  p.keyword.any KeywordParam.required

def keywordNames (p : Params) : List String :=
  p.keyword.map KeywordParam.name

def requiredKeywordNames (p : Params) : List String :=
  (p.keyword.filter KeywordParam.required).map KeywordParam.name

end Params

/-- Slots as they are collected, before the labels are known to be distinct. -/
structure ParamsDraft where
  normal : List String := []
  optional : List OptionalParam := []
  rest : Option String := none
  postRest : List String := []
  keyword : List KeywordParam := []
  keywordRest : Option String := none

/-- The slot set of a draft, or the labels that it declares more than once. -/
def ParamsDraft.finish (d : ParamsDraft) : Except (List String) Params :=
  if h : (d.keyword.map KeywordParam.label).Nodup then
    .ok ⟨d.normal, d.optional, d.rest, d.postRest, d.keyword, d.keywordRest, h⟩
  else
    .error (repeatedLabels (d.keyword.map KeywordParam.label))

/-- A method: its name, its slots, and the text that declares it. -/
structure MethodDef where
  name : String
  params : Params := {}
  source : String := ""
  deriving DecidableEq

end CallBinding
