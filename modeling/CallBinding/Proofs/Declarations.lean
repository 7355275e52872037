import CallBinding.Definition
import CallBinding.Proofs.EncodedText
import CallBinding.Proofs.KeywordLabels
import Mathlib.Logic.Relator
import Mathlib.Tactic.Tauto

/-!
What the nodes of a parameter list declare. A node declares parameters according to its kind
(`Source.Declares`): one in most cases, two when it forwards whatever it is given, none when it is
of a kind that has no slot. Sorting a node puts the parameters that it declares into their slots
(`ParamsDraft.add_eq_ok_iff`), and only a required parameter is put by what stands before it.

Nodes lay parameters out when they declare them in order (`Source.LaysOut`). Any parameters are laid
out by some nodes of some source (`Source.exists_laysOut`).
-/

set_option autoImplicit false
set_option relaxedAutoImplicit false

namespace CallBinding

/-! ### What a node declares -/

namespace Node

def isRequired (n : Node) : Bool :=
  ["identifier", "destructured_parameter"].contains n.kind

def isOptional (n : Node) : Bool :=
  n.kind == "optional_parameter"

def isSplat (n : Node) : Bool :=
  ["splat_parameter", "forward_parameter"].contains n.kind

def isKeyword (n : Node) : Bool :=
  n.kind == "keyword_parameter"

def isKeywordSplat (n : Node) : Bool :=
  ["hash_splat_parameter", "forward_parameter"].contains n.kind

/-- Required parameters behind such a node bind from the back. -/
def turns (n : Node) : Bool :=
  n.isOptional || n.isSplat

def hasSlot (n : Node) : Bool :=
  n.isRequired || n.isOptional || n.isSplat || n.isKeyword || n.isKeywordSplat

variable {n : Node}

theorem isRequired_iff :
    n.isRequired = true ↔ n.kind = "identifier" ∨ n.kind = "destructured_parameter" := by
  simp [isRequired]

theorem isSplat_iff :
    n.isSplat = true ↔ n.kind = "splat_parameter" ∨ n.kind = "forward_parameter" := by
  simp [isSplat]

theorem isKeywordSplat_iff :
    n.isKeywordSplat = true ↔ n.kind = "hash_splat_parameter" ∨ n.kind = "forward_parameter" := by
  simp [isKeywordSplat]

theorem hasSlot_eq_false_iff : n.hasSlot = false ↔
    n.kind ≠ "identifier" ∧ n.kind ≠ "destructured_parameter" ∧ n.kind ≠ "optional_parameter" ∧
      n.kind ≠ "splat_parameter" ∧ n.kind ≠ "keyword_parameter" ∧
        n.kind ≠ "hash_splat_parameter" ∧ n.kind ≠ "forward_parameter" := by
  simp only [hasSlot, isRequired, isOptional, isSplat, isKeyword, isKeywordSplat,
    Bool.or_eq_false_iff, List.contains_cons, List.contains_nil, beq_eq_false_iff_ne, ne_eq]
  tauto

theorem flags_of_isRequired (h : n.isRequired = true) : n.isOptional = false ∧
    n.isSplat = false ∧ n.isKeyword = false ∧ n.isKeywordSplat = false := by
  obtain hkind | hkind := isRequired_iff.mp h
  all_goals simp [isOptional, isSplat, isKeyword, isKeywordSplat, hkind]

theorem flags_of_not_hasSlot (h : n.hasSlot = false) : n.isRequired = false ∧
    n.isOptional = false ∧ n.isSplat = false ∧ n.isKeyword = false ∧ n.isKeywordSplat = false := by
  simpa [hasSlot, and_assoc] using h

theorem turns_of_isRequired (h : n.isRequired = true) : n.turns = false := by
  simp [turns, flags_of_isRequired h]

end Node

/-- A parameter of a method, as it is declared. -/
inductive Param
  | required (name : String)
  | optional (o : OptionalParam)
  | splat (name : String)
  | keyword (k : KeywordParam)
  | keywordSplat (name : String)

namespace Source

/-- The name of a splat: three points when it forwards, and its sign when it has no name. -/
def splatText (src : Source) (sign : String) (n : Node) : String :=
  if n.kind = "forward_parameter" then "..." else ((n.child? "name").map src.text).getD sign

/-- A node declares a parameter with a default. -/
def DeclaresOptional (src : Source) (n : Node) (o : OptionalParam) : Prop :=
  ∃ name value, n.child? "name" = some name ∧ n.child? "value" = some value ∧
    o.name = src.text name ∧ o.default = src.text value

/-- A node declares a keyword, which has a default when the node has a value. -/
def DeclaresKeyword (src : Source) (n : Node) (k : KeywordParam) : Prop :=
  ∃ name, n.child? "name" = some name ∧ k.label = src.text name ++ ":" ∧
    k.hasDefault = (n.child? "value").isSome

theorem rightUnique_declaresOptional (src : Source) :
    Relator.RightUnique src.DeclaresOptional := by
  rintro n ⟨text, default⟩ ⟨text', default'⟩ ⟨name, value, hname, hvalue, rfl, rfl⟩
    ⟨name', value', hname', hvalue', rfl, rfl⟩
  simp_all

theorem rightUnique_declaresKeyword (src : Source) :
    Relator.RightUnique src.DeclaresKeyword := by
  rintro n ⟨label, hasDefault, hlabel⟩ ⟨label', hasDefault', hlabel'⟩ ⟨name, hname, rfl, rfl⟩
    ⟨name', hname', rfl, rfl⟩
  simp_all

/-- The parameters that a node declares. -/
inductive Declares (src : Source) (n : Node) : List Param → Prop
  | required (hkind : n.isRequired = true) : Declares src n [.required (src.text n)]
  | optional {o : OptionalParam} (hkind : n.kind = "optional_parameter")
      (h : src.DeclaresOptional n o) : Declares src n [.optional o]
  | splat (hkind : n.kind = "splat_parameter") : Declares src n [.splat (src.splatText "*" n)]
  | keyword {k : KeywordParam} (hkind : n.kind = "keyword_parameter")
      (h : src.DeclaresKeyword n k) : Declares src n [.keyword k]
  | keywordSplat (hkind : n.kind = "hash_splat_parameter") :
      Declares src n [.keywordSplat (src.splatText "**" n)]
  | forward (hkind : n.kind = "forward_parameter") :
      Declares src n [.splat "...", .keywordSplat "..."]
  | nothing (hkind : n.hasSlot = false) : Declares src n []

/-- A list of nodes declares parameters in order. -/
inductive LaysOut (src : Source) : List Node → List Param → Prop
  | nil : LaysOut src [] []
  | cons {n : Node} {nodes : List Node} {params more : List Param}
      (hn : src.Declares n params) (hnodes : LaysOut src nodes more) :
      LaysOut src (n :: nodes) (params ++ more)

theorem splatText_of_name {src : Source} {sign kind : String} {name : Node}
    (hkind : kind ≠ "forward_parameter") (hrole : name.role = some "name") :
    src.splatText sign { kind := kind, children := [name] } = src.text name := by
  simp [splatText, hkind, Node.child?, hrole]

end Source

/-- The texts that the node of a parameter spans. -/
def Param.texts : Param → List String
  | .required name => [name]
  | .optional o => [o.name, o.default]
  | .splat name => [name]
  | .keyword k => [k.name]
  | .keywordSplat name => [name]

namespace Source

/-- A parameter is declared by a node when its texts are spans. -/
theorem exists_declares_of_spans {src : Source} {param : Param}
    (h : ∀ text ∈ param.texts, ∃ start stop, src.span start stop = text) :
    ∃ n, src.Declares n [param] := by
  have hnode (text : String) (htext : text ∈ param.texts) (kind : String) (role : Option String) :
      ∃ n : Node, n.kind = kind ∧ n.role = role ∧ src.text n = text := by
    obtain ⟨start, stop, hspan⟩ := h text htext
    exact ⟨{ kind := kind, role := role, start := start, stop := stop }, rfl, rfl, hspan⟩
  -- the child that carries the name of a parameter
  have hnamed (text : String) (htext : text ∈ param.texts) :=
    hnode text htext "identifier" (some "name")
  cases param with
  | required name =>
    obtain ⟨n, hkind, -, rfl⟩ := hnode name (by simp [Param.texts]) "identifier" none
    exact ⟨n, .required (Node.isRequired_iff.mpr (Or.inl hkind))⟩
  | optional o =>
    obtain ⟨name, -, hrole, hname⟩ := hnamed o.name (by simp [Param.texts])
    obtain ⟨value, -, hvalueRole, hvalue⟩ :=
      hnode o.default (by simp [Param.texts]) "integer" (some "value")
    refine ⟨{ kind := "optional_parameter", children := [name, value] }, .optional rfl ?_⟩
    exact ⟨name, value, by simp [Node.child?, hrole], by simp [Node.child?, hrole, hvalueRole],
      hname.symm, hvalue.symm⟩
  | splat name =>
    obtain ⟨n, -, hrole, rfl⟩ := hnamed name (by simp [Param.texts])
    refine ⟨{ kind := "splat_parameter", children := [n] }, ?_⟩
    rw [← splatText_of_name (show "splat_parameter" ≠ "forward_parameter" by decide) hrole]
    exact .splat rfl
  | keyword k =>
    obtain ⟨name, -, hrole, hname⟩ := hnamed k.name (by simp [Param.texts])
    have hlabel : k.label = src.text name ++ ":" := by rw [hname, k.name_append_colon]
    cases hdefault : k.hasDefault with
    | false =>
      refine ⟨{ kind := "keyword_parameter", children := [name] }, .keyword rfl ?_⟩
      exact ⟨name, by simp [Node.child?, hrole], hlabel, by simp [Node.child?, hrole, hdefault]⟩
    | true =>
      refine ⟨{ kind := "keyword_parameter"
                children := [name, { kind := "integer", role := some "value" }] },
        .keyword rfl ?_⟩
      exact ⟨name, by simp [Node.child?, hrole], hlabel, by simp [Node.child?, hrole, hdefault]⟩
  | keywordSplat name =>
    obtain ⟨n, -, hrole, rfl⟩ := hnamed name (by simp [Param.texts])
    refine ⟨{ kind := "hash_splat_parameter", children := [n] }, ?_⟩
    rw [← splatText_of_name (show "hash_splat_parameter" ≠ "forward_parameter" by decide) hrole]
    exact .keywordSplat rfl

/-- Any parameters are declared by some nodes of some source. -/
theorem exists_laysOut (params : List Param) :
    ∃ (src : Source) (nodes : List Node), src.LaysOut nodes params := by
  obtain ⟨src, hspans⟩ := exists_spans (params.flatMap Param.texts)
  refine ⟨src, ?_⟩
  induction params with
  | nil => exact ⟨[], .nil⟩
  | cons param rest ih =>
    rw [List.flatMap_cons] at hspans
    obtain ⟨nodes, hnodes⟩ := ih fun text htext ↦ hspans text (List.mem_append_right _ htext)
    obtain ⟨n, hn⟩ := exists_declares_of_spans fun text htext ↦
      hspans text (List.mem_append_left _ htext)
    exact ⟨n :: nodes, .cons hn hnodes⟩

end Source

/-! ### One step of the sorting -/

namespace ParamsDraft

variable {src : Source} {d next : ParamsDraft} {n : Node} {nodes : List Node}

/-- Puts one parameter into its slot. -/
def put (d : ParamsDraft) : Param → ParamsDraft
  | .required name => d.addRequired name
  | .optional o => { d with optional := d.optional ++ [o] }
  | .splat name => { d with rest := some name }
  | .keyword k => { d with keyword := d.keyword ++ [k] }
  | .keywordSplat name => { d with keywordRest := some name }

theorem splatName_eq {sign : String} (hkind : n.kind ≠ "forward_parameter") :
    splatName src.reader sign n = .ok (src.splatText sign n) := by
  rw [Source.splatText, if_neg hkind, splatName]
  cases n.child? "name" <;> rfl

theorem addOptional_eq_ok_iff : d.addOptional src.reader n = .ok next ↔
    ∃ o, src.DeclaresOptional n o ∧ next = d.put (.optional o) := by
  unfold addOptional
  split
  case h_1 name value hname hvalue =>
    constructor
    · intro h
      injection h with h
      exact ⟨_, ⟨name, value, hname, hvalue, rfl, rfl⟩, h.symm⟩
    · rintro ⟨⟨text, default⟩, ⟨name', value', hname', hvalue', rfl, rfl⟩, rfl⟩
      rw [hname] at hname'
      rw [hvalue] at hvalue'
      injection hname' with hname'
      injection hvalue' with hvalue'
      rw [hname', hvalue']
      rfl
  case h_2 hpartial =>
    constructor
    · exact nofun
    · rintro ⟨o, ⟨name, value, hname, hvalue, -⟩, -⟩
      exact absurd hvalue (hpartial name value hname)

theorem keywordOf_eq_ok_iff {label : String} {hasDefault : Bool} {k : KeywordParam} :
    keywordOf label hasDefault = .ok k ↔ k.label = label ∧ k.hasDefault = hasDefault := by
  unfold keywordOf
  split_ifs with hlabel
  · constructor
    · intro h
      injection h with h
      exact h ▸ ⟨rfl, rfl⟩
    · rintro ⟨rfl, rfl⟩
      rfl
  · refine ⟨nofun, ?_⟩
    rintro ⟨rfl, -⟩
    exact absurd k.isLabel_label hlabel

theorem addKeyword_eq_ok_iff : d.addKeyword src.reader n = .ok next ↔
    ∃ k, src.DeclaresKeyword n k ∧ next = d.put (.keyword k) := by
  unfold addKeyword
  split
  case h_1 hname =>
    constructor
    · exact nofun
    · rintro ⟨k, ⟨name, hname', -⟩, -⟩
      rw [hname] at hname'
      exact absurd hname' nofun
  case h_2 name hname =>
    constructor
    · intro h
      obtain ⟨text, htext, h⟩ := bind_eq_ok_iff.mp h
      obtain ⟨k, hk, hnext⟩ := bind_eq_ok_iff.mp h
      obtain ⟨hlabel, hdefault⟩ := keywordOf_eq_ok_iff.mp hk
      injection htext with htext
      rw [← htext] at hlabel
      injection hnext with hnext
      exact ⟨k, ⟨name, hname, hlabel, hdefault⟩, hnext.symm⟩
    · rintro ⟨k, ⟨name', hname', hlabel, hdefault⟩, rfl⟩
      rw [hname] at hname'
      injection hname' with hname'
      subst hname'
      exact bind_eq_ok_iff.mpr ⟨src.text name, rfl,
        bind_eq_ok_iff.mpr ⟨k, keywordOf_eq_ok_iff.mpr ⟨hlabel, hdefault⟩, rfl⟩⟩

/-- A node is sorted by putting the parameters that it declares. -/
theorem add_eq_ok_iff : d.add src.reader n = .ok next ↔
    ∃ params, src.Declares n params ∧ next = params.foldl put d := by
  constructor
  · intro h
    unfold add at h
    split at h
    case h_1 hkind =>
      injection h with h
      exact ⟨_, .required (Node.isRequired_iff.mpr (Or.inl hkind)), h.symm⟩
    case h_2 hkind =>
      injection h with h
      exact ⟨_, .required (Node.isRequired_iff.mpr (Or.inr hkind)), h.symm⟩
    case h_3 hkind =>
      obtain ⟨o, ho, hnext⟩ := addOptional_eq_ok_iff.mp h
      exact ⟨_, .optional hkind ho, hnext⟩
    case h_4 hkind =>
      rw [splatName_eq (by simp [hkind])] at h
      injection h with h
      exact ⟨_, .splat hkind, h.symm⟩
    case h_5 hkind =>
      obtain ⟨k, hk, hnext⟩ := addKeyword_eq_ok_iff.mp h
      exact ⟨_, .keyword hkind hk, hnext⟩
    case h_6 hkind =>
      rw [splatName_eq (by simp [hkind])] at h
      injection h with h
      exact ⟨_, .keywordSplat hkind, h.symm⟩
    case h_7 hkind =>
      injection h with h
      exact ⟨_, .forward hkind, h.symm⟩
    case h_8 hrequired hdestructured hoptional hsplat hkeyword hhash hforward =>
      injection h with h
      exact ⟨[], .nothing (Node.hasSlot_eq_false_iff.mpr ⟨hrequired, hdestructured, hoptional,
        hsplat, hkeyword, hhash, hforward⟩), h.symm⟩
  · rintro ⟨params, hparams, rfl⟩
    cases hparams with
    | required hkind =>
      obtain hkind | hkind := Node.isRequired_iff.mp hkind
      all_goals
        simp only [add, hkind]
        rfl
    | optional hkind h =>
      simp only [add, hkind]
      exact addOptional_eq_ok_iff.mpr ⟨_, h, rfl⟩
    | splat hkind =>
      simp only [add, hkind, splatName_eq (show n.kind ≠ "forward_parameter" by simp [hkind])]
      rfl
    | keyword hkind h =>
      simp only [add, hkind]
      exact addKeyword_eq_ok_iff.mpr ⟨_, h, rfl⟩
    | keywordSplat hkind =>
      simp only [add, hkind, splatName_eq (show n.kind ≠ "forward_parameter" by simp [hkind])]
      rfl
    | forward hkind =>
      simp only [add, hkind]
      rfl
    | nothing hkind =>
      obtain ⟨hrequired, hdestructured, hoptional, hsplat, hkeyword, hhash, hforward⟩ :=
        Node.hasSlot_eq_false_iff.mp hkind
      unfold add
      split <;> first | contradiction | rfl

/-- Nodes are sorted by putting the parameters that they declare. -/
theorem foldlM_of_laysOut {params : List Param} (h : src.LaysOut nodes params) (d : ParamsDraft) :
    nodes.foldlM (add src.reader) d = .ok (params.foldl put d) := by
  induction h generalizing d with
  | nil => rfl
  | cons hn hnodes ih =>
    rw [List.foldlM_cons, add_eq_ok_iff.mpr ⟨_, hn, rfl⟩, List.foldl_append]
    exact ih _

end ParamsDraft

end CallBinding
