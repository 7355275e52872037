import CallBinding.Proofs.CheckedData
import CallBinding.Proofs.CommonEncodings
import CallBinding.Proofs.Decoding
import CallBinding.Proofs.FaultOrder
import CallBinding.Proofs.KeySpelling

/-!
Which fault a text is rejected for. Reading a definition goes through the parts of the text in the
order of their faults and stops at the first one. Each step of the reading reports the first of its
own faults (`Reports`), and what is composed of steps reports the first fault of all
(`Reports.bind`). Every fault is of a kind that is handled (`DefinitionFault.Caused`), so none
escapes. `build_reports_first_fault` states this for the whole: it fails exactly when there is a
fault, only as a rejection of the closed text, and with the first fault that there is.
-/

set_option autoImplicit false
set_option relaxedAutoImplicit false

namespace CallBinding

/-! ### Reporting the first fault -/

/-- A computation gives a result when there are no faults, and fails with the first of them when
there are some. -/
inductive Reports {α : Type} : Except DefinitionFault α → List DefinitionFault → Prop
  | ok (a : α) : Reports (.ok a) []
  | error (fault : DefinitionFault) (later : List DefinitionFault) :
      Reports (.error fault) (fault :: later)

namespace Reports

variable {α β : Type} {x : Except DefinitionFault α} {f : α → Except DefinitionFault β}
  {faults later : List DefinitionFault} {fault : DefinitionFault}

/-- The faults of a second step come behind those of the first, and are met only when there is none
among those. -/
theorem bind (h : Reports x faults) (hf : ∀ a, x = .ok a → Reports (f a) later) :
    Reports (x >>= f) (faults ++ later) := by
  cases h with
  | ok a => exact hf a rfl
  | error fault more => exact .error fault (more ++ later)

theorem map (h : Reports x faults) (g : α → β) : Reports (x >>= fun a ↦ return g a) faults := by
  have hbind := h.bind fun a _ ↦ .ok (g a)
  rwa [List.append_nil] at hbind

theorem error_iff (h : Reports x faults) : x = .error fault ↔ faults.head? = some fault := by
  cases h with
  | ok a => exact ⟨nofun, nofun⟩
  | error first more => simp

theorem eq_nil_of_ok {a : α} (h : Reports (.ok a) faults) : faults = [] := by
  cases h with
  | ok => rfl

end Reports

namespace Reports

variable {condition : Prop} [Decidable condition] {fault : DefinitionFault}

theorem ok_of_not {α : Type} (a : α) (h : ¬ condition) :
    Reports (.ok a) (faultIf condition fault) := by
  rw [faultIf_neg h]
  exact .ok a

theorem error_of {α : Type} (h : condition) :
    Reports (.error fault : Except DefinitionFault α) (faultIf condition fault) := by
  rw [faultIf_pos h]
  exact .error fault []

end Reports

theorem Encoded.reports_reader (e : Encoded) (m : Node) :
    Reports (e.reader m) (e.textFaults m) := by
  unfold reader textFaults
  cases e.text m with
  | ok text => exact .ok text
  | error f => exact .error _ _

/-! ### Each step reports the first of its faults -/

namespace ParamsDraft

variable {d : ParamsDraft} {e : Encoded} {n : Node}

theorem reports_addOptional (hkind : n.kind = "optional_parameter") :
    Reports (d.addOptional e.reader n) (e.parameterFaults n) := by
  unfold addOptional
  split
  case h_1 name value hname hvalue =>
    have hfaults : e.parameterFaults n = e.textFaults name ++ e.textFaults value := by
      simp [Encoded.parameterFaults, faultIf, Node.textNodes, hkind, hname, hvalue]
    rw [hfaults]
    exact (e.reports_reader name).bind fun name _ ↦ (e.reports_reader value).map _
  case h_2 hpartial =>
    have hfaults : e.parameterFaults n = [.partialOptional] := by
      cases hname : n.child? "name" with
      | none => simp [Encoded.parameterFaults, faultIf, Node.textNodes, hkind, hname]
      | some name =>
        have hvalue : n.child? "value" = none :=
          Option.eq_none_iff_forall_ne_some.mpr (hpartial name · hname)
        simp [Encoded.parameterFaults, faultIf, Node.textNodes, hkind, hname, hvalue]
    rw [hfaults]
    exact .error _ _

theorem reports_addKeyword (hkind : n.kind = "keyword_parameter") :
    Reports (d.addKeyword e.reader n) (e.parameterFaults n) := by
  unfold addKeyword
  split
  case h_1 hname =>
    have hfaults : e.parameterFaults n = [.unnamedKeyword] := by
      simp [Encoded.parameterFaults, faultIf, Node.textNodes, Encoded.declaredLabel?, hkind, hname]
    rw [hfaults]
    exact .error _ _
  case h_2 name hname =>
    have hfaults : e.parameterFaults n = e.textFaults name ++
        faultIf (∃ label ∈ e.declaredLabel? n, isLabel label = false) .notLabel := by
      simp [Encoded.parameterFaults, faultIf, Node.textNodes, hkind, hname]
    rw [hfaults]
    refine (e.reports_reader name).bind fun text hread ↦ ?_
    have hlabel : e.declaredLabel? n = some (text ++ ":") :=
      Encoded.declaredLabel?_eq_some_iff.mpr ⟨name, text, hname, mapError_eq_ok_iff.mp hread, rfl⟩
    refine Reports.map ?_ _
    unfold keywordOf
    split_ifs with h
    · exact .ok_of_not _ (by simp [hlabel, h])
    · exact .error_of ⟨_, hlabel, Bool.eq_false_iff.mpr h⟩

/-- A splat without a name has nothing to read. -/
theorem reports_splatName (sign : String) (n : Node) :
    Reports (splatName e.reader sign n) ((n.child? "name").toList.flatMap e.textFaults) := by
  unfold splatName
  cases n.child? "name" with
  | none => exact .ok sign
  | some name =>
    rw [Option.toList_some, List.flatMap_singleton]
    exact e.reports_reader name

theorem reports_add (d : ParamsDraft) (e : Encoded) (n : Node) :
    Reports (d.add e.reader n) (e.parameterFaults n) := by
  have hother (hoptional : n.kind ≠ "optional_parameter") (hkeyword : n.kind ≠ "keyword_parameter")
      {x : Except DefinitionFault ParamsDraft}
      (h : Reports x (n.textNodes.flatMap e.textFaults)) : Reports x (e.parameterFaults n) := by
    rwa [Encoded.parameterFaults_of_other hoptional hkeyword]
  unfold add
  split
  case h_1 hkind | h_2 hkind =>
    refine hother (by rw [hkind]; decide) (by rw [hkind]; decide) ?_
    have htexts : n.textNodes = [n] := by simp only [Node.textNodes, hkind]
    rw [htexts, List.flatMap_singleton]
    exact (e.reports_reader n).map _
  case h_3 hkind => exact reports_addOptional hkind
  case h_4 hkind | h_6 hkind =>
    refine hother (by rw [hkind]; decide) (by rw [hkind]; decide) ?_
    have htexts : n.textNodes = (n.child? "name").toList := by simp only [Node.textNodes, hkind]
    rw [htexts]
    exact (reports_splatName _ n).map _
  case h_5 hkind => exact reports_addKeyword hkind
  case h_7 hkind =>
    refine hother (by rw [hkind]; decide) (by rw [hkind]; decide) ?_
    have htexts : n.textNodes = [] := by simp [Node.textNodes, hkind]
    rw [htexts]
    exact .ok _
  case h_8 hrequired hdestructured hoptional hsplat hkeyword hhash hforward =>
    refine hother hoptional hkeyword ?_
    unfold Node.textNodes
    split <;> first | contradiction | exact .ok _

/-- Sorting the nodes of a parameter list reports the first fault of the first node that has one. -/
theorem reports_foldlM_add (e : Encoded) (nodes : List Node) (d : ParamsDraft) :
    Reports (nodes.foldlM (add e.reader) d) (nodes.flatMap e.parameterFaults) := by
  induction nodes generalizing d with
  | nil => exact .ok d
  | cons n rest ih =>
    rw [List.foldlM_cons, List.flatMap_cons]
    exact (reports_add d e n).bind fun next _ ↦ ih next

/-- Nodes that can be sorted declare the labels that the draft has. -/
theorem labels_foldlM_reader {nodes : List Node} {draft : ParamsDraft}
    (h : nodes.foldlM (add e.reader) {} = .ok draft) :
    draft.keyword.map KeywordParam.label = e.declaredLabels nodes := by
  have hlabels : draft.keyword.map KeywordParam.label = e.source.declaredLabels nodes :=
    labels_foldlM_add (Gives.foldlM (gives_add e.gives_reader) nodes {} draft h)
  have hnone : ∀ n ∈ nodes, e.parameterFaults n = [] := by
    have hreports := reports_foldlM_add e nodes {}
    rw [h] at hreports
    exact List.flatMap_eq_nil_iff.mp hreports.eq_nil_of_ok
  rw [hlabels, Source.declaredLabels, Encoded.declaredLabels]
  refine List.filterMap_congr fun n hn ↦ ?_
  obtain ⟨hmem, hkind⟩ := List.mem_filter.mp hn
  unfold Encoded.declaredLabel?
  cases hname : n.child? "name" with
  | none => rfl
  | some name =>
    cases htext : e.text name with
    | ok text =>
      have hsource := e.reads_text name
      rw [htext] at hsource
      simp only [Option.map_some, Option.bind_some, htext, hsource.eq_of_ok]
      rfl
    | error f =>
      have hfault : DefinitionFault.unreadable f ∈ e.parameterFaults n :=
        Encoded.mem_parameterFaults_iff.mpr <| .undecodable
          (by simp [Node.textNodes, of_decide_eq_true hkind, hname]) htext
      rw [hnone n hmem] at hfault
      exact absurd hfault List.not_mem_nil

end ParamsDraft

/-- Keywords that are declared twice are reported when every node has been sorted. -/
theorem Params.reports_readNodes (e : Encoded) (nodes : List Node) :
    Reports (readNodes e.reader nodes) (nodes.flatMap e.parameterFaults ++
      faultIf (¬ (e.declaredLabels nodes).Nodup) (.repeated (e.declaredLabels nodes))) := by
  refine (ParamsDraft.reports_foldlM_add e nodes {}).bind fun draft hdraft ↦ ?_
  have hlabels := ParamsDraft.labels_foldlM_reader hdraft
  unfold ParamsDraft.finish
  rw [← hlabels]
  by_cases hnodup : (draft.keyword.map KeywordParam.label).Nodup
  · rw [dif_pos hnodup]
    exact .ok_of_not _ (not_not_intro hnodup)
  · rw [dif_neg hnodup]
    exact .error_of hnodup

theorem Node.reports_definitionName (e : Encoded) (n : Node) :
    Reports (n.definitionName e.reader) (faultIf ((n.child? "name").isNone = true) .unnamed ++
      (n.child? "name").toList.flatMap e.textFaults) := by
  unfold definitionName
  cases n.child? "name" with
  | none => exact .error _ _
  | some name =>
    rw [Option.toList_some, List.flatMap_singleton]
    exact e.reports_reader name

/-- What is done with the method that a tree begins with reports its faults behind those of the tree
and of the kind of the method. -/
theorem Tree.reports_definition_bind {α : Type} (t : Tree) {f : Node → Except DefinitionFault α}
    {later : Node → List DefinitionFault} (hf : ∀ n, Reports (f n) (later n)) :
    Reports (t.definition >>= f) (faultIf (t.broken = true) .broken ++
      match withoutComments t.root.namedChildren with
      | [] => [.empty]
      | n :: _ => faultIf (n.kind ∉ definitionKinds) (.notMethod n.kind) ++ later n) := by
  unfold definition
  by_cases hbroken : t.broken = true
  · rw [if_pos hbroken, faultIf_pos hbroken]
    exact .error _ _
  · rw [if_neg hbroken, faultIf_neg hbroken, List.nil_append]
    cases withoutComments t.root.namedChildren with
    | nil => exact .error _ _
    | cons n more =>
      have hkinds : definitionKinds.contains n.kind = true ↔ n.kind ∈ definitionKinds :=
        List.contains_iff_mem
      dsimp only
      by_cases hkind : n.kind ∈ definitionKinds
      · rw [faultIf_neg (not_not_intro hkind), List.nil_append, if_pos (hkinds.mpr hkind)]
        exact hf n
      · rw [faultIf_pos hkind, if_neg (hkinds.not.mpr hkind)]
        exact .error _ _

namespace MethodDef
/-- Reading a closed definition reports the first of its faults. -/
theorem reports_read (codecs : Text.Codecs) (settings : Settings) (parse : Parse) (code : String) :
    Reports (read codecs settings parse code) (faults codecs settings parse code) := by
  unfold read faults Settings.encoded
  cases codecs.encode settings.encoding code with
  | error f => exact .error _ _
  | ok bytes =>
    refine (parse bytes).reports_definition_bind fun n ↦ ?_
    exact (n.reports_definitionName _).bind fun name _ ↦
      (Params.reports_readNodes _ n.parameterNodes).map _

end MethodDef

/-! ### The kind of a fault -/

/-- Failures of text and bytes are failures of a value. -/
theorem FailureKind.isA_value_of_isA_unicode {kind : FailureKind} (h : kind.isA .unicode = true) :
    kind.isA .value = true := by
  induction kind with
  | special name above ih =>
    simp only [isA, lineage, List.contains_cons] at h ih ⊢
    exact ih h
  | other name => simp [isA, lineage] at h
  | _ => revert h; decide

/-- The kind of a fault: that of the failure when a text cannot be encoded or decoded, which is the
one that goes with the encoding; a record that fails its checks for labels; and else something that
is not there. -/
structure DefinitionFault.Caused (reading : FailureKind) (fault : DefinitionFault) : Prop where
  unreadable : ∀ f, fault = .unreadable f → fault.kind = f.kind ∧ f.kind.isA reading = true
  invalid : ∀ v, fault = .invalid v →
    fault.kind = .validation ∧ (fault = .notLabel ∨ ∃ labels, fault = .repeated labels)
  other : (∀ f, fault ≠ .unreadable f) → (∀ v, fault ≠ .invalid v) → fault.kind = .lookup

namespace DefinitionFault

variable {fault : DefinitionFault} {reading : FailureKind}

theorem caused_of_failure {f : Failure} (h : Text.Codecs.DocumentedFailure reading f) :
    (unreadable f).Caused reading where
  unreadable f' hf := by
    injection hf with hf
    subst hf
    exact ⟨rfl, h.isA_kind⟩
  invalid v hv := absurd hv nofun
  other hread _ := absurd rfl (hread f)

theorem caused_notLabel : notLabel.Caused reading where
  unreadable _ hf := absurd hf nofun
  invalid _ _ := ⟨rfl, Or.inl rfl⟩
  other _ hvalid := absurd rfl (hvalid _)

theorem caused_repeated (labels : List String) : (repeated labels).Caused reading where
  unreadable _ hf := absurd hf nofun
  invalid _ _ := ⟨rfl, Or.inr ⟨labels, rfl⟩⟩
  other _ hvalid := absurd rfl (hvalid _)

theorem caused_of_lookup (hread : ∀ f, fault ≠ .unreadable f) (hvalid : ∀ v, fault ≠ .invalid v)
    (hkind : fault.kind = .lookup) : fault.Caused reading where
  unreadable f hf := absurd hf (hread f)
  invalid v hv := absurd hv (hvalid v)
  other _ _ := hkind

/-- Every fault of such a kind is handled. -/
theorem Caused.isHandled {codecs : Text.Codecs} {name : String}
    (h : fault.Caused (codecs.failureKind name)) : fault.kind.isHandled = true := by
  cases fault with
  | unreadable f =>
    obtain ⟨hkind, hisA⟩ := h.unreadable f rfl
    rw [hkind, FailureKind.isHandled, Bool.or_eq_true]
    unfold Text.Codecs.failureKind at hisA
    split_ifs at hisA with hknown hmalformed
    · exact Or.inr (FailureKind.isA_value_of_isA_unicode hisA)
    · exact Or.inr hisA
    · exact Or.inl hisA
  | _ => rfl

/-- A fault is told of when failures of encodings and records that fail their checks are. -/
theorem message_ne_empty {render : Invalid → String} (hrender : ∀ v, render v ≠ "")
    (hfailure : ∀ f, fault = .unreadable f → f.message ≠ "") : fault.message render ≠ "" := by
  cases fault with
  | unreadable f => exact hfailure f rfl
  | notMethod kind => exact append_ne_empty_of_left _ (by decide)
  | invalid v => exact hrender v
  | broken => exact (by decide : "syntax error in definition" ≠ "")
  | empty => exact (by decide : "empty program" ≠ "")
  | unnamed => exact (by decide : "method definition has no name" ≠ "")
  | partialOptional => exact (by decide : "optional parameter without name or default" ≠ "")
  | unnamedKeyword => exact (by decide : "keyword parameter without name" ≠ "")

end DefinitionFault

/-- The faults of a tree are caused as documented when the failures to decode its text are. -/
theorem Encoded.TreeHasFault.caused {e : Encoded} {t : Tree} {fault : DefinitionFault}
    {reading : FailureKind} (h : e.TreeHasFault t fault)
    (hdecode : ∀ bytes f, e.decode bytes = .error f → Text.Codecs.DocumentedFailure reading f) :
    fault.Caused reading := by
  cases h with
  | broken => exact DefinitionFault.caused_of_lookup nofun nofun rfl
  | empty => exact DefinitionFault.caused_of_lookup nofun nofun rfl
  | first _ h =>
    cases h with
    | notMethod => exact DefinitionFault.caused_of_lookup nofun nofun rfl
    | unnamed => exact DefinitionFault.caused_of_lookup nofun nofun rfl
    | undecodable _ h => exact DefinitionFault.caused_of_failure (hdecode _ _ h)
    | repeated => exact DefinitionFault.caused_repeated _
    | parameter _ h =>
      cases h with
      | partialOptional => exact DefinitionFault.caused_of_lookup nofun nofun rfl
      | unnamedKeyword => exact DefinitionFault.caused_of_lookup nofun nofun rfl
      | undecodable _ h => exact DefinitionFault.caused_of_failure (hdecode _ _ h)
      | notLabel => exact DefinitionFault.caused_notLabel

namespace MethodDef

section Documented

variable {codecs : Text.Codecs} (hcodecs : codecs.Documented) {settings : Settings} {parse : Parse}
  {text code : String} {fault : DefinitionFault}
include hcodecs

/-- A text that is not read is one for which an encoding failed as documented. -/
theorem HasFault.documented {f : Failure}
    (h : HasFault codecs settings parse code (.unreadable f)) :
    Text.Codecs.DocumentedFailure (codecs.failureKind settings.encoding) f := by
  cases h with
  | unknownEncoding _ h => exact hcodecs.encode_failure _ _ _ h
  | unencodable _ h => exact hcodecs.encode_failure _ _ _ h
  | inTree _ h =>
    cases h with
    | first _ h =>
      cases h with
      | undecodable _ h => exact hcodecs.decode_failure _ _ _ h
      | parameter _ h =>
        cases h with
        | undecodable _ h => exact hcodecs.decode_failure _ _ _ h

theorem HasFault.caused (h : HasFault codecs settings parse code fault) :
    fault.Caused (codecs.failureKind settings.encoding) := by
  cases h with
  | unknownEncoding _ h => exact DefinitionFault.caused_of_failure (hcodecs.encode_failure _ _ _ h)
  | unencodable _ h => exact DefinitionFault.caused_of_failure (hcodecs.encode_failure _ _ _ h)
  | inTree _ h => exact h.caused fun bytes f ↦ hcodecs.decode_failure _ bytes f

/-- Every fault of reading is handled, and putting a definition together has none. -/
theorem build_eq_error_iff {error : BuildError} :
    build codecs settings parse text = .error error ↔
      ∃ r, error = .rejected r ∧ r.code = text ++ settings.terminator ∧
        (faults codecs settings parse (text ++ settings.terminator)).head? = some r.fault := by
  have hreports := reports_read codecs settings parse (text ++ settings.terminator)
  unfold build
  dsimp only
  cases hread : read codecs settings parse (text ++ settings.terminator) with
  | ok result =>
    rw [hread] at hreports
    refine ⟨nofun, ?_⟩
    rintro ⟨r, -, -, hfirst⟩
    rw [hreports.eq_nil_of_ok] at hfirst
    exact absurd hfirst nofun
  | error fault =>
    have hfirst := (reports_read codecs settings parse _).error_iff.mp hread
    have hfault : HasFault codecs settings parse _ fault :=
      mem_faults_iff.mp (List.mem_of_head? hfirst)
    dsimp only
    rw [if_pos (hfault.caused hcodecs).isHandled, hfirst]
    constructor
    · intro h
      injection h with h
      exact ⟨_, h.symm, rfl, rfl⟩
    · rintro ⟨⟨code, fault'⟩, rfl, rfl, hsame⟩
      injection hsame with hsame
      rw [hsame]

theorem exists_build_eq_error_iff : (∃ error, build codecs settings parse text = .error error) ↔
    ∃ fault, HasFault codecs settings parse (text ++ settings.terminator) fault := by
  simp only [build_eq_error_iff hcodecs, ← mem_faults_iff]
  constructor
  · rintro ⟨_, r, -, -, hfirst⟩
    exact ⟨r.fault, List.mem_of_head? hfirst⟩
  · rintro ⟨fault, hfault⟩
    obtain ⟨first, hfirst⟩ := Option.isSome_iff_exists.mp
      (List.isSome_head?.mpr (List.ne_nil_of_mem hfault))
    exact ⟨_, ⟨_, first⟩, rfl, rfl, hfirst⟩

end Documented

/-- A text fails to define a method exactly when there is a fault. It is then rejected, whatever
the fault: the first one in the order in which they count, with the closed text. What is said of it
is never empty, and its kind is the one that goes with the encoding when a text cannot be encoded or
decoded, one of validation when it is about labels, and else one of something that is not there. A
text without a fault gives a definition that keeps the text as it was before it was closed, and that
passes its checks as data. Of encodings and of the texts for failed checks no more is asked than
that they do as documented and are not empty. -/
theorem build_reports_first_fault (codecs : Text.Codecs) (hcodecs : codecs.Documented)
    (render : String → Invalid → String) (hrender : ∀ code v, render code v ≠ "")
    (settings : Settings) (parse : Parse) (text : String) :
    ((∃ error, build codecs settings parse text = .error error) ↔
      ∃ fault, HasFault codecs settings parse (text ++ settings.terminator) fault) ∧
    (∀ fault, fault ∈ faults codecs settings parse (text ++ settings.terminator) ↔
      HasFault codecs settings parse (text ++ settings.terminator) fault) ∧
    (∀ error, build codecs settings parse text = .error error ↔
      ∃ r, error = .rejected r ∧ r.code = text ++ settings.terminator ∧
        (faults codecs settings parse (text ++ settings.terminator)).head? = some r.fault) ∧
    (∀ r, build codecs settings parse text = .error (.rejected r) →
      r.details render ≠ "" ∧ r.fault.Caused (codecs.failureKind settings.encoding)) ∧
    ∀ d, build codecs settings parse text = .ok d → d.source = text ∧ ofData d.toData = .ok d := by
  refine ⟨exists_build_eq_error_iff hcodecs, fun _ ↦ mem_faults_iff,
    fun _ ↦ build_eq_error_iff hcodecs, ?said, ?built⟩
  case said =>
    intro r hr
    obtain ⟨r', hr', -, hfirst⟩ := (build_eq_error_iff hcodecs).mp hr
    injection hr' with hr'
    subst hr'
    have hfault : HasFault codecs settings parse (text ++ settings.terminator) r.fault :=
      mem_faults_iff.mp (List.mem_of_head? hfirst)
    refine ⟨DefinitionFault.message_ne_empty (hrender r.code) fun f hf ↦ ?_,
      hfault.caused hcodecs⟩
    exact (HasFault.documented hcodecs (hf ▸ hfault)).message_ne
  case built =>
    intro d hd
    exact ⟨(build_eq_ok_iff.mp hd).2, d.ofData_toData⟩

end MethodDef

namespace SeveralFaults

/-- The tree of `def f(k:, a = , k:); end`, in which the optional parameter has no default and the
keyword is declared twice. -/
def tree : Tree where
  root := {
    kind := "program"
    children := [
      { kind := "comment" },
      { kind := "method"
        children := [
          { kind := "identifier", role := some "name", start := 4, stop := 5 },
          { kind := "method_parameters"
            role := some "parameters"
            children := [
              { kind := "keyword_parameter"
                children := [
                  { kind := "identifier", role := some "name", start := 6, stop := 7 }] },
              { kind := "optional_parameter"
                children := [
                  { kind := "identifier", role := some "name", start := 10, stop := 11 }] },
              { kind := "keyword_parameter"
                children := [
                  { kind := "identifier", role := some "name", start := 16, stop := 17 }] }] }] }] }

/-- The tree of `def f(k:); end`. -/
def sound : Tree where
  root := {
    kind := "program"
    children := [
      { kind := "method"
        children := [
          { kind := "identifier", role := some "name", start := 4, stop := 5 },
          { kind := "method_parameters"
            role := some "parameters"
            children := [
              { kind := "keyword_parameter"
                children := [
                  { kind := "identifier", role := some "name", start := 6, stop := 7 }] }] }] }] }

/-- The tree of `def f; end`. -/
def bare : Tree where
  root := {
    kind := "program"
    children := [
      { kind := "method"
        children := [{ kind := "identifier", role := some "name", start := 4, stop := 5 }] }] }

end SeveralFaults

open SeveralFaults

/-- A fault of a parameter counts before keywords that are declared twice. -/
theorem MethodDef.build_reports_first_fault_of_several :
    Text.Codecs.common.Documented ∧
      build .common {} (fun _ ↦ tree) "def f(k:, a = , k:)" =
        .error (.rejected ⟨"def f(k:, a = , k:); end", .partialOptional⟩) ∧
      DefinitionFault.partialOptional.message (fun v ↦ "1 validation error for " ++ v.model) ≠ "" ∧
      build .common {} (fun _ ↦ sound) "def f(k:)" =
        .ok ⟨"f", { keyword := [⟨"k:", false, rfl⟩] }, "def f(k:)"⟩ ∧
      ofData (toData ⟨"f", { keyword := [⟨"k:", false, rfl⟩] }, "def f(k:)"⟩) =
        .ok ⟨"f", { keyword := [⟨"k:", false, rfl⟩] }, "def f(k:)"⟩ := by
  have hrender (code : String) (v : Invalid) : "1 validation error for " ++ v.model ≠ "" :=
    append_ne_empty_of_left _ (by decide)
  obtain ⟨-, -, hfirst, hsaid, -⟩ := build_reports_first_fault .common
    Text.Codecs.documented_common (fun _ v ↦ "1 validation error for " ++ v.model) hrender {}
    (fun _ ↦ tree) "def f(k:, a = , k:)"
  obtain ⟨-, -, -, -, hbuilt⟩ := build_reports_first_fault .common
    Text.Codecs.documented_common (fun _ v ↦ "1 validation error for " ++ v.model) hrender {}
    (fun _ ↦ sound) "def f(k:)"
  have hrejected := (hfirst (.rejected ⟨"def f(k:, a = , k:); end", .partialOptional⟩)).mpr
    ⟨_, rfl, by decide +kernel, by decide +kernel⟩
  have hsound : build .common {} (fun _ ↦ sound) "def f(k:)" =
      .ok ⟨"f", { keyword := [⟨"k:", false, rfl⟩] }, "def f(k:)"⟩ := by
    decide +kernel
  exact ⟨Text.Codecs.documented_common, hrejected, (hsaid _ hrejected).1, hsound,
    (hbuilt _ hsound).2⟩

/-! ### A text that cannot be decoded -/

namespace Text.Codecs

/-- The encodings of which one is for host names. It writes plain letters as they are, and it does
not decode when errors are to be passed over. -/
def withHostNames : Codecs where
  knows name := common.knows (written name)
  encode name text := common.encode (written name) text
  decode name bytes :=
    if name = "idna" ∧ bytes ≠ [] then
      .error ⟨.unicode, undecodedMessage⟩
    else common.decode (written name) bytes
where
  /-- The encoding in which the letters are written. -/
  written (name : String) : String := if name = "idna" then "ascii" else name
  undecodedMessage : String :=
    "decoding with 'idna' codec failed (UnicodeError: Unsupported error handling ignore)"

theorem failureKind_withHostNames (name : String) :
    withHostNames.failureKind name = common.failureKind (withHostNames.written name) := by
  by_cases h : name = "idna"
  · rw [h]
    rfl
  · have hwritten : withHostNames.written name = name := if_neg h
    simp only [failureKind, withHostNames, hwritten]

theorem documented_withHostNames : withHostNames.Documented where
  encode_unknown name := documented_common.encode_unknown (withHostNames.written name)
  encode_failure name text f h := by
    rw [failureKind_withHostNames]
    exact documented_common.encode_failure (withHostNames.written name) text f h
  decode_failure name bytes f h := by
    rw [failureKind_withHostNames]
    simp only [withHostNames] at h
    split_ifs at h with hname
    · injection h with h
      rw [hname.1, ← h]
      exact ⟨rfl, by decide⟩
    · exact documented_common.decode_failure _ _ _ h

end Text.Codecs

/-- A text in an encoding that is known and can write it, with a sound tree of a method that has a
name and no parameters, is rejected because the name cannot be decoded. -/
theorem MethodDef.build_rejects_undecodable_name :
    Text.Codecs.withHostNames.Documented ∧ Text.Codecs.withHostNames.knows "idna" = true ∧
      (∃ bytes, Text.Codecs.withHostNames.encode "idna" "def f; end" = .ok bytes) ∧
      (∃ definition, bare.definition = .ok definition ∧ definition.kind = "method" ∧
        (definition.child? "name").isSome = true ∧ definition.parameterNodes = []) ∧
      build .withHostNames { encoding := "idna" } (fun _ ↦ bare) "def f" =
        .error (.rejected ⟨"def f; end", .unreadable
          ⟨.unicode, Text.Codecs.withHostNames.undecodedMessage⟩⟩) :=
  ⟨Text.Codecs.documented_withHostNames, by decide +kernel, ⟨_, rfl⟩, ⟨_, rfl, rfl, rfl, rfl⟩,
    by decide +kernel⟩

end CallBinding
