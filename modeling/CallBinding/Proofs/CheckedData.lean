import CallBinding.Params.Checked

/-!
Parameters and definitions written out as data. What has been built holds values that have passed
their checks, so that checking it once more, field by field, finds nothing and gives it back
(`MethodDef.ofData_toData`).
-/

set_option autoImplicit false
set_option relaxedAutoImplicit false

namespace CallBinding

/-! ### Checks that pass -/

namespace Data

variable {α : Type} {check : Data → Checked α} {write : α → Data} {fields : List (String × Data)}
  {name : String} {d : Data} {a default : α}

/-- A text that may be absent, as a value. -/
def ofText? : Option String → Data
  | none => .null
  | some s => .text s

theorem toText_text (s : String) : (text s).toText = .ok s :=
  rfl

theorem toBool_bool (b : Bool) : (bool b).toBool = .ok b :=
  rfl

theorem toText?_ofText? (s : Option String) : (ofText? s).toText? = .ok s := by
  cases s <;> rfl

theorem items_map (h : ∀ a, check (write a) = .ok a) (index : Nat) (as : List α) :
    Checked.items check index (as.map write) = .ok as := by
  induction as generalizing index with
  | nil => rfl
  | cons a rest ih =>
    rw [List.map_cons, Checked.items, ih, h]
    rfl

theorem toList_map (h : ∀ a, check (write a) = .ok a) (as : List α) :
    toList check (.list (as.map write)) = .ok as :=
  items_map h 0 as

theorem required_of_field (hfield : field? fields name = some d) (h : check d = .ok a) :
    required check fields name = .ok a := by
  rw [required, hfield]
  dsimp only
  rw [h]
  rfl

theorem optional_of_field (hfield : field? fields name = some d) (h : check d = .ok a) :
    optional default check fields name = .ok a := by
  rw [optional, hfield]
  dsimp only
  rw [h]
  rfl

end Data

/-! ### Parameters and definitions -/

namespace OptionalParam

def toData (o : OptionalParam) : Data :=
  .record [("name", .text o.name), ("default", .text o.default)]

theorem ofData_toData (o : OptionalParam) : ofData o.toData = .ok o :=
  rfl

end OptionalParam

namespace KeywordParam

def toData (k : KeywordParam) : Data :=
  .record [("label", .text k.label), ("has_default", .bool k.hasDefault)]

theorem ofData_toData (k : KeywordParam) : ofData k.toData = .ok k := by
  have hlabel : (Data.text k.label).toLabel = .ok ⟨k.label, k.isLabel_label⟩ :=
    dif_pos k.isLabel_label
  rw [toData, ofData, Data.ofRecord, Data.required_of_field rfl hlabel,
    Data.required_of_field rfl (Data.toBool_bool k.hasDefault)]
  rfl

end KeywordParam

namespace Params

def toData (p : Params) : Data :=
  .record [("normal", .list (p.normal.map .text)),
    ("optional", .list (p.optional.map OptionalParam.toData)),
    ("rest", .ofText? p.rest),
    ("post_rest", .list (p.postRest.map .text)),
    ("keyword", .list (p.keyword.map KeywordParam.toData)),
    ("keyword_rest", .ofText? p.keywordRest)]

theorem ofData_toData (p : Params) : ofData p.toData = .ok p := by
  have htexts (names : List String) :
      Data.toList Data.toText (.list (names.map .text)) = .ok names :=
    Data.toList_map Data.toText_text names
  have hdraft (fields : List (String × Data)) (hfields : p.toData = .record fields) :
      draftOfFields fields =
        .ok ⟨p.normal, p.optional, p.rest, p.postRest, p.keyword, p.keywordRest⟩ := by
    injection hfields with hfields
    subst hfields
    rw [draftOfFields, Data.optional_of_field rfl (htexts p.normal),
      Data.optional_of_field rfl (Data.toList_map OptionalParam.ofData_toData p.optional),
      Data.optional_of_field rfl (Data.toText?_ofText? p.rest),
      Data.optional_of_field rfl (htexts p.postRest),
      Data.optional_of_field rfl (Data.toList_map KeywordParam.ofData_toData p.keyword),
      Data.optional_of_field rfl (Data.toText?_ofText? p.keywordRest)]
    rfl
  have hfinish : ParamsDraft.finish
      ⟨p.normal, p.optional, p.rest, p.postRest, p.keyword, p.keywordRest⟩ = .ok p :=
    dif_pos p.labels_nodup
  rw [toData, ofData, Data.ofRecord, hdraft _ rfl]
  dsimp only [bind, Except.bind]
  rw [hfinish]

end Params

namespace MethodDef

def toData (d : MethodDef) : Data :=
  .record [("name", .text d.name), ("parameters", d.params.toData), ("source", .text d.source)]

/-- A definition that is checked as data comes back as it was. -/
theorem ofData_toData (d : MethodDef) : ofData d.toData = .ok d := by
  rw [toData, ofData, Data.ofRecord, Data.required_of_field rfl (Data.toText_text d.name),
    Data.optional_of_field rfl (Params.ofData_toData d.params),
    Data.optional_of_field rfl (Data.toText_text d.source)]
  rfl

end MethodDef

end CallBinding
