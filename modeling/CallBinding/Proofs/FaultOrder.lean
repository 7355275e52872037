import CallBinding.Definition
import Mathlib.Data.List.Basic
import Mathlib.Tactic.SplitIfs

/-!
The faults of a text that should define a method. A text has a fault when a condition on its
encoding, on the tree of the closed text, or on a node of its parameter list is met
(`MethodDef.HasFault`). The faults of a text stand in an order (`MethodDef.faults`): the encoding,
the tree, the first statement, its name, the parameters one after the other, and last of all
keywords that are declared twice. A text that cannot be decoded is a fault where it is come to. A
fault is in the order exactly when its condition is met (`MethodDef.mem_faults_iff`).
-/

set_option autoImplicit false
set_option relaxedAutoImplicit false

namespace CallBinding

/-! ### Conditions -/

/-- The fault of a condition, when the condition is met. -/
def faultIf (condition : Prop) [Decidable condition] (fault : DefinitionFault) :
    List DefinitionFault :=
  if condition then [fault] else []

section Condition

variable {condition : Prop} [Decidable condition] {fault : DefinitionFault}

theorem mem_faultIf_iff {fault' : DefinitionFault} :
    fault' ∈ faultIf condition fault ↔ condition ∧ fault' = fault := by
  unfold faultIf
  split_ifs with h <;> simp [h]

theorem faultIf_pos (h : condition) : faultIf condition fault = [fault] :=
  if_pos h

theorem faultIf_neg (h : ¬ condition) : faultIf condition fault = [] :=
  if_neg h

end Condition

/-! ### What is wrong with a definition -/

namespace DefinitionFault

/-- What is said of a keyword whose name makes no label. -/
def notLabel : DefinitionFault :=
  .invalid ⟨KeywordParam.model, [⟨[.field "label"], .notLabel⟩]⟩

/-- What is said of labels that are declared more than once. -/
def repeated (labels : List String) : DefinitionFault :=
  .invalid ⟨Params.model, [⟨[], .repeatedKeywords (repeatedLabels labels)⟩]⟩

end DefinitionFault

/-- The nodes of which the texts go into the slots of a parameter, in the order in which they are
read. -/
def Node.textNodes (n : Node) : List Node :=
  match n.kind with
  | "identifier" | "destructured_parameter" => [n]
  | "optional_parameter" =>
    match n.child? "name", n.child? "value" with
    | some name, some value => [name, value]
    | _, _ => []
  | "splat_parameter" | "keyword_parameter" | "hash_splat_parameter" => (n.child? "name").toList
  | _ => []

namespace Encoded

/-- The label that the name of a keyword parameter makes, when the name can be decoded. -/
def declaredLabel? (e : Encoded) (n : Node) : Option String :=
  (n.child? "name").bind fun name ↦ (e.text name).toOption.map (· ++ ":")

/-- The labels that the nodes of a parameter list declare. -/
def declaredLabels (e : Encoded) (nodes : List Node) : List String :=
  (nodes.filter fun n ↦ n.kind = "keyword_parameter").filterMap e.declaredLabel?

/-- What is wrong with a node of a parameter list. -/
inductive ParameterHasFault (e : Encoded) (n : Node) : DefinitionFault → Prop
  | partialOptional (hkind : n.kind = "optional_parameter")
      (h : n.child? "name" = none ∨ n.child? "value" = none) :
      ParameterHasFault e n .partialOptional
  | unnamedKeyword (hkind : n.kind = "keyword_parameter") (h : n.child? "name" = none) :
      ParameterHasFault e n .unnamedKeyword
  | undecodable {m : Node} {f : Failure} (hm : m ∈ n.textNodes) (h : e.text m = .error f) :
      ParameterHasFault e n (.unreadable f)
  | notLabel {name : Node} {text : String} (hkind : n.kind = "keyword_parameter")
      (hname : n.child? "name" = some name) (htext : e.text name = .ok text)
      (h : isLabel (text ++ ":") = false) : ParameterHasFault e n .notLabel

/-- What is wrong with a statement that should define a method. -/
inductive StatementHasFault (e : Encoded) (n : Node) : DefinitionFault → Prop
  | notMethod (hmethod : n.kind ≠ "method") (hsingleton : n.kind ≠ "singleton_method") :
      StatementHasFault e n (.notMethod n.kind)
  | unnamed (h : n.child? "name" = none) : StatementHasFault e n .unnamed
  | undecodable {name : Node} {f : Failure} (hname : n.child? "name" = some name)
      (h : e.text name = .error f) : StatementHasFault e n (.unreadable f)
  | parameter {p : Node} {fault : DefinitionFault} (hp : p ∈ n.parameterNodes)
      (h : e.ParameterHasFault p fault) : StatementHasFault e n fault
  | repeated (h : ¬ (e.declaredLabels n.parameterNodes).Nodup) :
      StatementHasFault e n (.repeated (e.declaredLabels n.parameterNodes))

/-- What is wrong with a tree, whose first statement should define a method. -/
inductive TreeHasFault (e : Encoded) (t : Tree) : DefinitionFault → Prop
  | broken (h : t.broken = true) : TreeHasFault e t .broken
  | empty (h : ∀ n ∈ t.root.namedChildren, n.kind = "comment") : TreeHasFault e t .empty
  | first {n : Node} {fault : DefinitionFault}
      (hfirst : (withoutComments t.root.namedChildren).head? = some n)
      (h : e.StatementHasFault n fault) : TreeHasFault e t fault

end Encoded

/-- What is wrong with a closed definition. -/
inductive MethodDef.HasFault (codecs : Text.Codecs) (settings : Settings) (parse : Parse)
    (code : String) : DefinitionFault → Prop
  | unknownEncoding {f : Failure} (hunknown : codecs.knows settings.encoding = false)
      (h : codecs.encode settings.encoding code = .error f) :
      HasFault codecs settings parse code (.unreadable f)
  | unencodable {f : Failure} (hknown : codecs.knows settings.encoding = true)
      (h : codecs.encode settings.encoding code = .error f) :
      HasFault codecs settings parse code (.unreadable f)
  | inTree {bytes : List UInt8} {fault : DefinitionFault}
      (hbytes : codecs.encode settings.encoding code = .ok bytes)
      (h : Encoded.TreeHasFault ⟨bytes, codecs.decode settings.encoding⟩ (parse bytes) fault) :
      HasFault codecs settings parse code fault

/-! ### The faults in order -/

namespace Encoded

variable {e : Encoded} {t : Tree} {n m : Node} {fault : DefinitionFault}

/-- The fault of a text that cannot be decoded. -/
def textFaults (e : Encoded) (m : Node) : List DefinitionFault :=
  match e.text m with
  | .ok _ => []
  | .error f => [.unreadable f]

/-- The faults of one node of a parameter list. -/
def parameterFaults (e : Encoded) (n : Node) : List DefinitionFault :=
  faultIf (n.kind = "optional_parameter" ∧
      ((n.child? "name").isNone = true ∨ (n.child? "value").isNone = true)) .partialOptional ++
    (faultIf (n.kind = "keyword_parameter" ∧ (n.child? "name").isNone = true) .unnamedKeyword ++
      (n.textNodes.flatMap e.textFaults ++
        faultIf (n.kind = "keyword_parameter" ∧
          ∃ label ∈ e.declaredLabel? n, isLabel label = false) .notLabel))

/-- The faults of a statement that should define a method. -/
def statementFaults (e : Encoded) (n : Node) : List DefinitionFault :=
  faultIf (n.kind ∉ definitionKinds) (.notMethod n.kind) ++
    (faultIf ((n.child? "name").isNone = true) .unnamed ++
        (n.child? "name").toList.flatMap e.textFaults ++
      (n.parameterNodes.flatMap e.parameterFaults ++
        faultIf (¬ (e.declaredLabels n.parameterNodes).Nodup)
          (.repeated (e.declaredLabels n.parameterNodes))))

/-- The faults of a tree. -/
def treeFaults (e : Encoded) (t : Tree) : List DefinitionFault :=
  faultIf (t.broken = true) .broken ++
    match withoutComments t.root.namedChildren with
    | [] => [.empty]
    | n :: _ => e.statementFaults n

theorem mem_textFaults_iff :
    fault ∈ e.textFaults m ↔ ∃ f, e.text m = .error f ∧ fault = .unreadable f := by
  unfold textFaults
  cases e.text m with
  | ok text => simp
  | error f => simp

theorem declaredLabel?_eq_some_iff {label : String} : e.declaredLabel? n = some label ↔
    ∃ name text, n.child? "name" = some name ∧ e.text name = .ok text ∧ label = text ++ ":" := by
  unfold declaredLabel?
  cases n.child? "name" with
  | none => simp
  | some name =>
    cases htext : e.text name with
    | error f => simp [htext, Except.toOption]
    | ok text => simp [htext, Except.toOption, eq_comm]

theorem parameterFaults_of_other (hoptional : n.kind ≠ "optional_parameter")
    (hkeyword : n.kind ≠ "keyword_parameter") :
    e.parameterFaults n = n.textNodes.flatMap e.textFaults := by
  simp [parameterFaults, faultIf, hoptional, hkeyword]

theorem mem_parameterFaults_iff : fault ∈ e.parameterFaults n ↔ e.ParameterHasFault n fault := by
  simp only [parameterFaults, List.mem_append, mem_faultIf_iff, Option.isNone_iff_eq_none,
    List.mem_flatMap, mem_textFaults_iff, Option.mem_def, declaredLabel?_eq_some_iff]
  constructor
  · rintro (⟨⟨hkind, h⟩, rfl⟩ | ⟨⟨hkind, h⟩, rfl⟩ | ⟨m, hm, f, h, rfl⟩ |
      ⟨⟨hkind, _, ⟨name, text, hname, htext, rfl⟩, h⟩, rfl⟩)
    · exact .partialOptional hkind h
    · exact .unnamedKeyword hkind h
    · exact .undecodable hm h
    · exact .notLabel hkind hname htext h
  · rintro (⟨hkind, h⟩ | ⟨hkind, h⟩ | ⟨hm, h⟩ | ⟨hkind, hname, htext, h⟩)
    · exact Or.inl ⟨⟨hkind, h⟩, rfl⟩
    · exact Or.inr (Or.inl ⟨⟨hkind, h⟩, rfl⟩)
    · exact Or.inr (Or.inr (Or.inl ⟨_, hm, _, h, rfl⟩))
    · exact Or.inr (Or.inr (Or.inr ⟨⟨hkind, _, ⟨_, _, hname, htext, rfl⟩, h⟩, rfl⟩))

theorem mem_statementFaults_iff : fault ∈ e.statementFaults n ↔ e.StatementHasFault n fault := by
  have hkind : n.kind ∉ definitionKinds ↔ n.kind ≠ "method" ∧ n.kind ≠ "singleton_method" := by
    simp [definitionKinds]
  simp only [statementFaults, List.mem_append, mem_faultIf_iff, List.mem_flatMap,
    Option.isNone_iff_eq_none, Option.mem_toList, mem_textFaults_iff, mem_parameterFaults_iff,
    hkind]
  constructor
  · rintro (⟨⟨hmethod, hsingleton⟩, rfl⟩ | (⟨h, rfl⟩ | ⟨name, hname, f, h, rfl⟩) |
      ⟨p, hp, h⟩ | ⟨h, rfl⟩)
    · exact .notMethod hmethod hsingleton
    · exact .unnamed h
    · exact .undecodable hname h
    · exact .parameter hp h
    · exact .repeated h
  · rintro (⟨hmethod, hsingleton⟩ | h | ⟨hname, h⟩ | ⟨hp, h⟩ | h)
    · exact Or.inl ⟨⟨hmethod, hsingleton⟩, rfl⟩
    · exact Or.inr (Or.inl (Or.inl ⟨h, rfl⟩))
    · exact Or.inr (Or.inl (Or.inr ⟨_, hname, _, h, rfl⟩))
    · exact Or.inr (Or.inr (Or.inl ⟨_, hp, h⟩))
    · exact Or.inr (Or.inr (Or.inr ⟨h, rfl⟩))

theorem mem_treeFaults_iff : fault ∈ e.treeFaults t ↔ e.TreeHasFault t fault := by
  have hempty : withoutComments t.root.namedChildren = [] ↔
      ∀ n ∈ t.root.namedChildren, n.kind = "comment" := by
    simp [withoutComments, List.filter_eq_nil_iff]
  rw [treeFaults, List.mem_append, mem_faultIf_iff]
  constructor
  · rintro (⟨h, rfl⟩ | h)
    · exact .broken h
    · split at h
      case h_1 hnil =>
        rw [List.mem_singleton.mp h]
        exact .empty (hempty.mp hnil)
      case h_2 n more hcons => exact .first (by rw [hcons]; rfl) (mem_statementFaults_iff.mp h)
  · rintro (h | h | ⟨hfirst, h⟩)
    · exact Or.inl ⟨h, rfl⟩
    · rw [hempty.mpr h]
      exact Or.inr (List.mem_singleton.mpr rfl)
    · obtain ⟨more, hcons⟩ := List.head?_eq_some_iff.mp hfirst
      rw [hcons]
      exact Or.inr (mem_statementFaults_iff.mpr h)

end Encoded

namespace MethodDef

variable {codecs : Text.Codecs} {settings : Settings} {parse : Parse} {text code : String}
  {fault : DefinitionFault}

/-- The faults of a closed definition, in the order in which they count. -/
def faults (codecs : Text.Codecs) (settings : Settings) (parse : Parse) (code : String) :
    List DefinitionFault :=
  match codecs.encode settings.encoding code with
  | .error f => [.unreadable f]
  | .ok bytes => Encoded.treeFaults ⟨bytes, codecs.decode settings.encoding⟩ (parse bytes)

/-- The faults of a closed definition are those whose conditions are met. -/
theorem mem_faults_iff :
    fault ∈ faults codecs settings parse code ↔ HasFault codecs settings parse code fault := by
  unfold faults
  cases hbytes : codecs.encode settings.encoding code with
  | error f =>
    rw [List.mem_singleton]
    constructor
    · rintro rfl
      cases hknows : codecs.knows settings.encoding with
      | false => exact .unknownEncoding hknows hbytes
      | true => exact .unencodable hknows hbytes
    · rintro (⟨-, h⟩ | ⟨-, h⟩ | ⟨h, -⟩)
      · rw [hbytes] at h
        injection h with h
        rw [h]
      · rw [hbytes] at h
        injection h with h
        rw [h]
      · rw [hbytes] at h
        exact absurd h nofun
  | ok bytes =>
    refine Iff.trans Encoded.mem_treeFaults_iff ⟨.inTree hbytes, ?_⟩
    rintro (⟨-, h⟩ | ⟨-, h⟩ | ⟨h, hfault⟩)
    · rw [hbytes] at h
      exact absurd h nofun
    · rw [hbytes] at h
      exact absurd h nofun
    · rw [hbytes] at h
      injection h with h
      rwa [h]

end MethodDef

end CallBinding
