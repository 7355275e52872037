import CallBinding.Data
import CallBinding.Params

/-!
Parameters and method definitions from values that have not been checked. The labels of a slot set
are compared only when every slot passed its checks.
-/

set_option autoImplicit false
set_option relaxedAutoImplicit false

namespace CallBinding

namespace Data

/-- A text that is a label. -/
def toLabel (d : Data) : Checked { s : String // isLabel s = true } := do
  let s ← d.toText
  if h : isLabel s = true then .ok ⟨s, h⟩ else Checked.fault .notLabel

end Data

namespace OptionalParam

def model : String := "OptionalParameter"

def ofData : Data → Checked OptionalParam :=
  Data.ofRecord model fun fields ↦
    (Checked.both (Data.required Data.toText fields "name")
      (Data.required Data.toText fields "default")).map fun (name, value) ↦ ⟨name, value⟩

end OptionalParam

namespace KeywordParam

def model : String := "KeywordParameter"

def ofData : Data → Checked KeywordParam :=
  Data.ofRecord model fun fields ↦
    (Checked.both (Data.required Data.toLabel fields "label")
      (Data.required Data.toBool fields "has_default")).map
      fun (label, hasDefault) ↦ ⟨label.1, hasDefault, label.2⟩

end KeywordParam

namespace Params

def model : String := "ParameterSlotSet"

/-- The slots of a record, before their labels are compared. -/
def draftOfFields (fields : List (String × Data)) : Checked ParamsDraft :=
  let texts := Data.toList Data.toText
  (Checked.both (Data.optional [] texts fields "normal") <|
    Checked.both (Data.optional [] (Data.toList OptionalParam.ofData) fields "optional") <|
    Checked.both (Data.optional none Data.toText? fields "rest") <|
    Checked.both (Data.optional [] texts fields "post_rest") <|
    Checked.both (Data.optional [] (Data.toList KeywordParam.ofData) fields "keyword")
      (Data.optional none Data.toText? fields "keyword_rest")).map
    fun (normal, opt, rest, postRest, keyword, keywordRest) ↦
      ⟨normal, opt, rest, postRest, keyword, keywordRest⟩

def ofData : Data → Checked Params :=
  Data.ofRecord model fun fields ↦ do
    let draft ← draftOfFields fields
    match draft.finish with
    | .ok params => .ok params
    | .error labels => Checked.fault (.repeatedKeywords labels)

end Params

namespace MethodDef

def model : String := "MethodDefinition"

def ofData : Data → Checked MethodDef :=
  Data.ofRecord model fun fields ↦
    (Checked.both (Data.required Data.toText fields "name") <|
      Checked.both (Data.optional {} Params.ofData fields "parameters")
        (Data.optional "" Data.toText fields "source")).map
      fun (name, params, source) ↦ ⟨name, params, source⟩

end MethodDef

/-- The issue of assigning to a field of a record that has passed its checks: such a record never
changes. -/
def Issue.ofAssignment (field : String) : Issue :=
  ⟨[.field field], .frozen⟩

end CallBinding
