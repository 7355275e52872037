import CallBinding.Proofs.Declarations
import Mathlib.Data.List.Forall2
import Mathlib.Data.List.Induction

/-!
Which slots a parameter list fills. `ParamsDraft.SortedFrom` describes the slots by the nodes alone:
the required parameters are cut at the first node that has a default or is a splat, optional
parameters and keywords are those of their nodes in order, and each of the two splats is the one
declared last. Each step of the sorting keeps this (`SortedFrom.concat`), and no other slots fit the
same nodes (`SortedFrom.unique`).

In the other direction a slot set is laid out as nodes in the order of its slots
(`Params.inOrder`), and sorting those nodes gives it back.
-/

set_option autoImplicit false
set_option relaxedAutoImplicit false

namespace CallBinding

theorem exists_of_forall₂ {α β : Type} {R : α → β → Prop} {as : List α} {bs : List β}
    (h : List.Forall₂ R as bs) : ∀ a ∈ as, ∃ b, R a b := by
  induction h with
  | nil => exact nofun
  | cons hab _ ih => exact List.forall_mem_cons.mpr ⟨⟨_, hab⟩, ih⟩

/-! ### The slots of a list of nodes -/

namespace Node

variable {n : Node}

/-- The required parameters before the first node that turns. -/
def requiredInFront (nodes : List Node) : List Node :=
  (nodes.takeWhile fun n ↦ !n.turns).filter isRequired

/-- The required parameters behind the first node that turns. -/
def requiredAtBack (nodes : List Node) : List Node :=
  (nodes.dropWhile fun n ↦ !n.turns).filter isRequired

theorem requiredInFront_cons (n : Node) (nodes : List Node) : requiredInFront (n :: nodes) =
    if n.turns then [] else [n].filter isRequired ++ requiredInFront nodes := by
  cases h : n.turns <;> cases hn : n.isRequired <;> simp [requiredInFront, h, hn]

theorem requiredAtBack_cons (n : Node) (nodes : List Node) : requiredAtBack (n :: nodes) =
    if n.turns then (n :: nodes).filter isRequired else requiredAtBack nodes := by
  cases h : n.turns <;> simp [requiredAtBack, h]

theorem requiredInFront_concat (nodes : List Node) (n : Node) :
    requiredInFront (nodes ++ [n]) =
      requiredInFront nodes ++ if n.isRequired && !nodes.any turns then [n] else [] := by
  induction nodes with
  | nil =>
    have hnil : requiredInFront [] = [] := rfl
    rw [List.nil_append, requiredInFront_cons, hnil]
    cases h : n.isRequired with
    | false => simp [h]
    | true => simp [h, turns_of_isRequired h]
  | cons m rest ih =>
    rw [List.cons_append, requiredInFront_cons, ih, requiredInFront_cons]
    cases h : m.turns <;> simp [h]

theorem requiredAtBack_concat (nodes : List Node) (n : Node) :
    requiredAtBack (nodes ++ [n]) =
      requiredAtBack nodes ++ if n.isRequired && nodes.any turns then [n] else [] := by
  induction nodes with
  | nil =>
    have hnil : requiredAtBack [] = [] := rfl
    rw [List.nil_append, requiredAtBack_cons, hnil]
    cases h : n.isRequired with
    | false => simp [h]
    | true => simp [turns_of_isRequired h]
  | cons m rest ih =>
    rw [List.cons_append, requiredAtBack_cons, ih, requiredAtBack_cons]
    cases h : m.turns with
    | false => simp [h]
    | true =>
      rw [if_pos rfl, if_pos rfl, ← List.cons_append, List.filter_append, List.filter_singleton]
      simp [h]

end Node

namespace ParamsDraft

variable {src : Source} {d next : ParamsDraft} {n : Node} {nodes : List Node} {params : List Param}

/-- Required parameters bind from the back from now on. -/
def turned (d : ParamsDraft) : Bool :=
  d.optional ≠ [] || d.rest.isSome

theorem addRequired_eq (d : ParamsDraft) (name : String) : d.addRequired name =
    { d with
      normal := d.normal ++ if d.turned then [] else [name]
      postRest := d.postRest ++ if d.turned then [name] else [] } := by
  cases h : d.turned <;> simp_all [addRequired, turned]

section Slots

variable (hn : src.Declares n params)
include hn

theorem normal_foldl_put : (params.foldl put d).normal =
    d.normal ++ if n.isRequired && !d.turned then [src.text n] else [] := by
  cases hn with
  | required hkind => cases h : d.turned <;> simp [put, addRequired_eq, h, hkind]
  | nothing hkind => simp [Node.flags_of_not_hasSlot hkind]
  | _ hkind => simp [put, Node.isRequired, hkind]

theorem optional_foldl_put : ∃ more, (params.foldl put d).optional = d.optional ++ more ∧
    List.Forall₂ src.DeclaresOptional ([n].filter Node.isOptional) more := by
  cases hn with
  | required hkind => exact ⟨[], by simp [put, addRequired_eq, Node.flags_of_isRequired hkind]⟩
  | @optional o hkind h => exact ⟨[o], rfl, by simp [Node.isOptional, hkind, h]⟩
  | nothing hkind => exact ⟨[], by simp [Node.flags_of_not_hasSlot hkind]⟩
  | _ hkind => exact ⟨[], by simp [put, Node.isOptional, hkind]⟩

theorem rest_foldl_put : (params.foldl put d).rest =
    if n.isSplat then some (src.splatText "*" n) else d.rest := by
  cases hn with
  | required hkind => simp [put, addRequired_eq, Node.flags_of_isRequired hkind]
  | nothing hkind => simp [Node.flags_of_not_hasSlot hkind]
  | forward hkind => simp [put, Node.isSplat, Source.splatText, hkind]
  | _ hkind => simp [put, Node.isSplat, hkind]

theorem postRest_foldl_put : (params.foldl put d).postRest =
    d.postRest ++ if n.isRequired && d.turned then [src.text n] else [] := by
  cases hn with
  | required hkind => cases h : d.turned <;> simp [put, addRequired_eq, h, hkind]
  | nothing hkind => simp [Node.flags_of_not_hasSlot hkind]
  | _ hkind => simp [put, Node.isRequired, hkind]

theorem keyword_foldl_put : ∃ more, (params.foldl put d).keyword = d.keyword ++ more ∧
    List.Forall₂ src.DeclaresKeyword ([n].filter Node.isKeyword) more := by
  cases hn with
  | required hkind => exact ⟨[], by simp [put, addRequired_eq, Node.flags_of_isRequired hkind]⟩
  | @keyword k hkind h => exact ⟨[k], rfl, by simp [Node.isKeyword, hkind, h]⟩
  | nothing hkind => exact ⟨[], by simp [Node.flags_of_not_hasSlot hkind]⟩
  | _ hkind => exact ⟨[], by simp [put, Node.isKeyword, hkind]⟩

theorem keywordRest_foldl_put : (params.foldl put d).keywordRest =
    if n.isKeywordSplat then some (src.splatText "**" n) else d.keywordRest := by
  cases hn with
  | required hkind => simp [put, addRequired_eq, Node.flags_of_isRequired hkind]
  | nothing hkind => simp [Node.flags_of_not_hasSlot hkind]
  | forward hkind => simp [put, Node.isKeywordSplat, Source.splatText, hkind]
  | _ hkind => simp [put, Node.isKeywordSplat, hkind]

end Slots

/-- The slots that a list of nodes fills. -/
structure SortedFrom (src : Source) (nodes : List Node) (d : ParamsDraft) : Prop where
  normal : d.normal = (Node.requiredInFront nodes).map src.text
  optional : List.Forall₂ src.DeclaresOptional (nodes.filter Node.isOptional) d.optional
  rest : d.rest = (nodes.filter Node.isSplat).getLast?.map (src.splatText "*")
  postRest : d.postRest = (Node.requiredAtBack nodes).map src.text
  keyword : List.Forall₂ src.DeclaresKeyword (nodes.filter Node.isKeyword) d.keyword
  keywordRest : d.keywordRest =
    (nodes.filter Node.isKeywordSplat).getLast?.map (src.splatText "**")

namespace SortedFrom

theorem empty : SortedFrom src [] {} :=
  ⟨rfl, .nil, rfl, rfl, .nil, rfl⟩

/-- Required parameters bind from the back exactly behind a node that turns. -/
theorem turned_eq (h : d.SortedFrom src nodes) : d.turned = nodes.any Node.turns := by
  have hoptional : d.optional = [] ↔ nodes.filter Node.isOptional = [] := by
    rw [← List.length_eq_zero_iff, ← h.optional.length_eq, List.length_eq_zero_iff]
  rw [Bool.eq_iff_iff, turned, h.rest]
  simp [hoptional, Node.turns, and_or_left, exists_or]

theorem concat (h : d.SortedFrom src nodes) (hn : src.Declares n params) :
    (params.foldl put d).SortedFrom src (nodes ++ [n]) where
  normal := by
    rw [normal_foldl_put hn, h.normal, h.turned_eq, Node.requiredInFront_concat]
    split_ifs <;> simp
  optional := by
    obtain ⟨more, hmore, hdeclares⟩ := optional_foldl_put (d := d) hn
    rw [hmore, List.filter_append]
    exact List.rel_append h.optional hdeclares
  rest := by
    rw [rest_foldl_put hn, h.rest, List.filter_append]
    cases hsplat : n.isSplat <;> simp [hsplat]
  postRest := by
    rw [postRest_foldl_put hn, h.postRest, h.turned_eq, Node.requiredAtBack_concat]
    split_ifs <;> simp
  keyword := by
    obtain ⟨more, hmore, hdeclares⟩ := keyword_foldl_put (d := d) hn
    rw [hmore, List.filter_append]
    exact List.rel_append h.keyword hdeclares
  keywordRest := by
    rw [keywordRest_foldl_put hn, h.keywordRest, List.filter_append]
    cases hsplat : n.isKeywordSplat <;> simp [hsplat]

/-- What is sorted node by node is sorted from the list. -/
theorem of_foldlM (h : nodes.foldlM (add src.reader) {} = .ok d) : d.SortedFrom src nodes := by
  induction nodes using List.reverseRecOn generalizing d with
  | nil =>
    injection h with h
    exact h ▸ empty
  | append_singleton front n ih =>
    rw [List.foldlM_append] at h
    obtain ⟨before, hfront, hlast⟩ := bind_eq_ok_iff.mp h
    rw [List.foldlM_cons] at hlast
    obtain ⟨after, hadd, hnil⟩ := bind_eq_ok_iff.mp hlast
    injection hnil with hnil
    obtain ⟨params, hn, rfl⟩ := add_eq_ok_iff.mp hadd
    exact hnil ▸ (ih hfront).concat hn

/-- One list of nodes fills the slots in one way. -/
theorem unique {d' : ParamsDraft} (h : d.SortedFrom src nodes) (h' : d'.SortedFrom src nodes) :
    d = d' := by
  have hoptional := (Source.rightUnique_declaresOptional src).forall₂ h.optional h'.optional
  have hkeyword := (Source.rightUnique_declaresKeyword src).forall₂ h.keyword h'.keyword
  cases d
  cases d'
  simp only [ParamsDraft.mk.injEq]
  exact ⟨h.normal.trans h'.normal.symm, hoptional, h.rest.trans h'.rest.symm,
    h.postRest.trans h'.postRest.symm, hkeyword, h.keywordRest.trans h'.keywordRest.symm⟩

/-- Each node of a list that fills slots declares its parameters. -/
theorem exists_declares (h : d.SortedFrom src nodes) (hmem : n ∈ nodes) :
    ∃ params, src.Declares n params := by
  cases hslot : n.hasSlot with
  | false => exact ⟨_, .nothing hslot⟩
  | true =>
    rw [Node.hasSlot] at hslot
    simp only [Bool.or_eq_true] at hslot
    obtain (((hkind | hkind) | hkind) | hkind) | hkind := hslot
    · exact ⟨_, .required hkind⟩
    · obtain ⟨o, ho⟩ := exists_of_forall₂ h.optional n (List.mem_filter.mpr ⟨hmem, hkind⟩)
      exact ⟨_, .optional (beq_iff_eq.mp hkind) ho⟩
    · obtain hkind | hkind := Node.isSplat_iff.mp hkind
      · exact ⟨_, .splat hkind⟩
      · exact ⟨_, .forward hkind⟩
    · obtain ⟨k, hk⟩ := exists_of_forall₂ h.keyword n (List.mem_filter.mpr ⟨hmem, hkind⟩)
      exact ⟨_, .keyword (beq_iff_eq.mp hkind) hk⟩
    · obtain hkind | hkind := Node.isKeywordSplat_iff.mp hkind
      · exact ⟨_, .keywordSplat hkind⟩
      · exact ⟨_, .forward hkind⟩

end SortedFrom

/-- Nodes of which each declares its parameters can be sorted. -/
theorem exists_foldlM_eq (h : ∀ n ∈ nodes, ∃ params, src.Declares n params) (d : ParamsDraft) :
    ∃ next, nodes.foldlM (add src.reader) d = .ok next := by
  induction nodes generalizing d with
  | nil => exact ⟨d, rfl⟩
  | cons n rest ih =>
    obtain ⟨params, hn⟩ := h n List.mem_cons_self
    obtain ⟨next, hnext⟩ := ih (fun m hm ↦ h m (List.mem_cons_of_mem n hm)) (params.foldl put d)
    rw [List.foldlM_cons, add_eq_ok_iff.mpr ⟨params, hn, rfl⟩]
    exact ⟨next, hnext⟩

/-- A node without a slot is passed over. -/
theorem foldlM_filter_hasSlot (nodes : List Node) (d : ParamsDraft) :
    (nodes.filter Node.hasSlot).foldlM (add src.reader) d = nodes.foldlM (add src.reader) d := by
  induction nodes generalizing d with
  | nil => rfl
  | cons n rest ih =>
    cases hslot : n.hasSlot with
    | false =>
      have hpassed : d.add src.reader n = .ok d := add_eq_ok_iff.mpr ⟨[], .nothing hslot, rfl⟩
      rw [List.filter_cons_of_neg (by simp [hslot]), List.foldlM_cons, hpassed, ih]
      rfl
    | true =>
      rw [List.filter_cons_of_pos hslot, List.foldlM_cons, List.foldlM_cons]
      exact congrArg _ (funext ih)

end ParamsDraft

/-! ### Slot sets -/

namespace Params

variable {src : Source} {nodes : List Node} {p : Params}

def draft (p : Params) : ParamsDraft :=
  ⟨p.normal, p.optional, p.rest, p.postRest, p.keyword, p.keywordRest⟩

theorem finish_eq_ok_iff {d : ParamsDraft} : d.finish = .ok p ↔ d = p.draft := by
  unfold ParamsDraft.finish
  split_ifs with hnodup
  · constructor
    · intro h
      injection h with h
      rw [← h]
      rfl
    · rintro rfl
      rfl
  · refine ⟨nofun, ?_⟩
    rintro rfl
    exact absurd p.labels_nodup hnodup

theorem ofNodes_eq_ok_iff :
    ofNodes src nodes = .ok p ↔ nodes.foldlM (ParamsDraft.add src.reader) {} = .ok p.draft := by
  rw [ofNodes, readNodes, bind_eq_ok_iff]
  constructor
  · rintro ⟨d, hd, h⟩
    split at h
    case h_1 params hfinish =>
      injection h with h
      rw [hd, ← h, finish_eq_ok_iff.mp hfinish]
    case h_2 => exact absurd h nofun
  · intro h
    refine ⟨_, h, ?_⟩
    rw [finish_eq_ok_iff.mpr rfl]

/-- The parameters of a slot set, in the order in which they are declared. -/
def inOrder (p : Params) : List Param :=
  p.normal.map .required ++ p.optional.map .optional ++ p.rest.toList.map .splat ++
    p.postRest.map .required ++ p.keyword.map .keyword ++ p.keywordRest.toList.map .keywordSplat

/-- Parameters of one slot are put into it in order. -/
theorem foldl_put_map {α : Type} {f : α → Param} {g : List α → ParamsDraft}
    (hstep : ∀ as a, (g as).put (f a) = g (as ++ [a])) (as : List α) :
    (as.map f).foldl ParamsDraft.put (g []) = g as := by
  induction as using List.reverseRecOn with
  | nil => rfl
  | append_singleton front a ih =>
    rw [List.map_append, List.foldl_append, ih]
    exact hstep front a

/-- Parameters that are put in the order of the slots fill the slots that they come from, unless
required parameters behind the splat would be taken for those in front. -/
theorem foldl_put_inOrder (h : p.postRest = [] ∨ p.optional ≠ [] ∨ p.rest ≠ none) :
    p.inOrder.foldl ParamsDraft.put {} = p.draft := by
  obtain ⟨normal, optional, rest, postRest, keyword, keywordRest, hnodup⟩ := p
  have hnormal : (normal.map Param.required).foldl ParamsDraft.put {} = { normal } :=
    foldl_put_map (g := fun names ↦ { normal := names }) (fun _ _ ↦ rfl) normal
  have hoptional : (optional.map Param.optional).foldl ParamsDraft.put { normal } =
      { normal, optional } :=
    foldl_put_map (g := fun os ↦ { normal, optional := os }) (fun _ _ ↦ rfl) optional
  have hrest : (rest.toList.map Param.splat).foldl ParamsDraft.put { normal, optional } =
      { normal, optional, rest } := by
    cases rest <;> rfl
  have hpostRest : (postRest.map Param.required).foldl ParamsDraft.put
      { normal, optional, rest } = { normal, optional, rest, postRest } := by
    obtain hempty | hturned := h
    · dsimp only at hempty
      rw [hempty]
      rfl
    · have hback (names : List String) :
          ParamsDraft.turned { normal, optional, rest, postRest := names } = true := by
        simpa [ParamsDraft.turned, Option.isSome_iff_ne_none] using hturned
      exact foldl_put_map (g := fun names ↦ { normal, optional, rest, postRest := names })
        (fun names name ↦ by simp [ParamsDraft.put, ParamsDraft.addRequired_eq, hback]) postRest
  have hkeyword : (keyword.map Param.keyword).foldl ParamsDraft.put
      { normal, optional, rest, postRest } = { normal, optional, rest, postRest, keyword } :=
    foldl_put_map (g := fun ks ↦ { normal, optional, rest, postRest, keyword := ks })
      (fun _ _ ↦ rfl) keyword
  have hkeywordRest : (keywordRest.toList.map Param.keywordSplat).foldl ParamsDraft.put
      { normal, optional, rest, postRest, keyword } =
        { normal, optional, rest, postRest, keyword, keywordRest } := by
    cases keywordRest <;> rfl
  simp only [inOrder, List.foldl_append]
  rw [hnormal, hoptional, hrest, hpostRest, hkeyword, hkeywordRest]
  rfl

/-- The slots of a parameter list follow what its nodes declare. A list has the slots `p` exactly
when `p` is sorted from it, in which case the required parameters of both ends are all of them in
order; nodes without a slot make no difference, not even to how a list fails; and a slot set comes
back from every list of nodes that declares its parameters in order, of which there is one,
unless required parameters stand at its back with neither a default nor a splat before them. -/
theorem slots_follow_declarations :
    (∀ (src : Source) (nodes : List Node) (p : Params),
      ofNodes src nodes = .ok p ↔ p.draft.SortedFrom src nodes) ∧
    (∀ (src : Source) (nodes : List Node) (p : Params), ofNodes src nodes = .ok p →
      p.normal ++ p.postRest = (nodes.filter Node.isRequired).map src.text) ∧
    (∀ (src : Source) (nodes nodes' : List Node),
      nodes.filter Node.hasSlot = nodes'.filter Node.hasSlot →
        ofNodes src nodes = ofNodes src nodes') ∧
    ∀ p : Params, (p.postRest = [] ∨ p.optional ≠ [] ∨ p.rest ≠ none) →
      (∀ (src : Source) (nodes : List Node),
        src.LaysOut nodes p.inOrder → ofNodes src nodes = .ok p) ∧
      ∃ (src : Source) (nodes : List Node), src.LaysOut nodes p.inOrder := by
  refine ⟨?sorted, ?required, ?passed, ?laid⟩
  case sorted =>
    intro src nodes p
    rw [ofNodes_eq_ok_iff]
    refine ⟨.of_foldlM, fun h ↦ ?_⟩
    obtain ⟨d, hd⟩ := ParamsDraft.exists_foldlM_eq (fun n hn ↦ h.exists_declares hn) {}
    rw [hd, (ParamsDraft.SortedFrom.of_foldlM hd).unique h]
  case required =>
    intro src nodes p h
    have hsorted := ParamsDraft.SortedFrom.of_foldlM (ofNodes_eq_ok_iff.mp h)
    calc p.normal ++ p.postRest
        = (Node.requiredInFront nodes ++ Node.requiredAtBack nodes).map src.text := by
          rw [List.map_append, ← hsorted.normal, ← hsorted.postRest]
          rfl
      _ = (nodes.filter Node.isRequired).map src.text := by
          rw [Node.requiredInFront, Node.requiredAtBack, ← List.filter_append,
            List.takeWhile_append_dropWhile]
  case passed =>
    intro src nodes nodes' h
    rw [ofNodes, ofNodes, readNodes, readNodes, ← ParamsDraft.foldlM_filter_hasSlot nodes, h,
      ParamsDraft.foldlM_filter_hasSlot nodes']
  case laid =>
    intro p h
    refine ⟨fun src nodes hlaid ↦ ?_, Source.exists_laysOut p.inOrder⟩
    rw [ofNodes_eq_ok_iff, ParamsDraft.foldlM_of_laysOut hlaid, foldl_put_inOrder h]

end Params

namespace BlockAtEnd

/-- The parameter list of `def f(a, *, c, at: 1, &b)`. -/
def source : Source where
  bytes := "a, *, c, at: 1, &b".toList.map fun c ↦ UInt8.ofNat c.toNat
  decode := Text.Codec.ascii.decode

def nodes : List Node := [
  { kind := "identifier", start := 0, stop := 1 },
  { kind := "splat_parameter", start := 3, stop := 4 },
  { kind := "identifier", start := 6, stop := 7 },
  { kind := "keyword_parameter"
    start := 9
    stop := 14
    children := [
      { kind := "identifier", role := some "name", start := 9, stop := 11 },
      { kind := "integer", role := some "value", start := 13, stop := 14 }] },
  { kind := "block_parameter", start := 16, stop := 18 }]

def params : Params where
  normal := ["a"]
  rest := some "*"
  postRest := ["c"]
  keyword := [⟨"at:", true, rfl⟩]

end BlockAtEnd

open BlockAtEnd

/-- The block fills no slot, and the splat without a name parts the required parameters. -/
theorem Params.slots_follow_declarations_of_block_at_end :
    ofNodes source nodes = .ok params ∧
      params.normal ++ params.postRest = ["a", "c"] ∧
      ofNodes source nodes.dropLast = .ok params := by
  obtain ⟨-, hrequired, hpassed, hlaid⟩ := slots_follow_declarations
  have hnodes : source.LaysOut nodes ([.required "a"] ++ ([.splat "*"] ++ ([.required "c"] ++
      ([.keyword ⟨"at:", true, rfl⟩] ++ ([] ++ []))))) :=
    .cons (.required rfl) <| .cons (.splat rfl) <| .cons (.required rfl) <|
      .cons (.keyword rfl ⟨_, rfl, rfl, rfl⟩) <| .cons (.nothing rfl) .nil
  have hparams := (hlaid params (Or.inr (Or.inr nofun))).1 source nodes hnodes
  refine ⟨hparams, hrequired source nodes params hparams, ?_⟩
  rw [hpassed source nodes.dropLast nodes rfl, hparams]

end CallBinding
