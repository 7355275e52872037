import CallBinding.Proofs.BrokenCalls
import CallBinding.Proofs.NamesInScope
import Mathlib.Data.List.Chain

/-!
Calls in the order of the text. The walk keeps its nodes on a stack, and still visits a node before
all that stands below it and the children of a node one after the other, as the recursion over the
tree does (`walk_singleton`). The calls of a program text are those of the places visited that are
calls (`Occurrence.IsCall`), in that order.

What is read off a place is its row, and rows say nothing of the order of a walk unless the offsets
agree with the shape of the tree (`Occurrence.WellFormed`). Where they do, a place that comes first
in the tree starts no later (`WellFormed.start_le_of_lex`), so that the lines of the calls do not
decrease (`callSites_in_document_order`).
-/

set_option autoImplicit false
set_option relaxedAutoImplicit false

namespace CallBinding

namespace Occurrence

variable {o a b target : Occurrence} {c : Node} {i : Nat} {path path' : List Nat}

/-! ### Calls at the places of a walk -/

/-- What the stack visits from one place is that place, and then what it visits from each of its
children in order. -/
theorem walk_singleton (o : Occurrence) : walk [o] = o :: o.children.flatMap fun c ↦ walk [c] := by
  simp only [Node.walk_eq_flatMap, List.flatMap_singleton]
  exact Node.map_snd_located o

/-- A place is a call: an identifier that stands for one, or a call that names its method. -/
def IsCall (src : Source) (o : Occurrence) : Prop :=
  (o.node.kind = "identifier" ∧ o.isBareCall src = true) ∨
    (o.node.kind = "call" ∧ (o.node.child? "method").isSome = true)

instance (src : Source) (o : Occurrence) : Decidable (o.IsCall src) :=
  inferInstanceAs (Decidable (_ ∨ _))

/-- The node that has the name of a call: an identifier itself, or the method of a call. -/
def nameNode (o : Occurrence) : Node :=
  if o.node.kind = "identifier" then o.node else (o.node.child? "method").getD o.node

/-- The call that is seen at a place which is one. -/
def site (src : Source) (o : Occurrence) : CallSite :=
  o.siteOf src (src.text o.nameNode)

theorem callsTo_nameNode {src : Source} (h : o.IsCall src) :
    o.CallsTo src (src.text o.nameNode) := by
  obtain ⟨hkind, hbare⟩ | ⟨hkind, hmethod⟩ := h
  · rw [nameNode, if_pos hkind]
    exact Or.inr ⟨hkind, rfl, hbare⟩
  · obtain ⟨method, hmethod⟩ := Option.isSome_iff_exists.mp hmethod
    have hnot : o.node.kind ≠ "identifier" := by
      rw [hkind]
      decide
    rw [nameNode, if_neg hnot, hmethod]
    exact Or.inl ⟨hkind, by rw [hmethod]; rfl⟩

theorem CallsTo.isCall {src : Source} {name : String} (h : o.CallsTo src name) :
    o.IsCall src := by
  obtain ⟨hkind, hmethod⟩ | ⟨hkind, -, hbare⟩ := h
  · obtain ⟨method, hmethod, -⟩ := Option.map_eq_some_iff.mp hmethod
    exact Or.inr ⟨hkind, Option.isSome_iff_exists.mpr ⟨method, hmethod⟩⟩
  · exact Or.inl ⟨hkind, hbare⟩

/-- A place gives one call when it is a call, and none otherwise. -/
theorem callSite?_eq_ite (src : Source) (o : Occurrence) :
    o.callSite? src = if o.IsCall src then some (o.site src) else none := by
  by_cases hcall : o.IsCall src
  · rw [if_pos hcall, callSite?_of_callsTo (callsTo_nameNode hcall), site]
  · rw [if_neg hcall]
    cases hsite : o.callSite? src with
    | none => rfl
    | some call => exact absurd (callsTo_of_callSite? hsite).isCall hcall

/-! ### Offsets that agree with the shape of a tree -/

/-- Offsets agree with the shape of a tree: a child starts no earlier than its parent, nothing at or
below a child starts later than the next named child, and rows do not decrease from one start to a
later one. -/
structure WellFormed (origin : Occurrence) : Prop where
  parent_le : ∀ path o, origin.Reaches path o → ∀ c ∈ o.children, o.node.start ≤ c.node.start
  next_ge : ∀ path o, origin.Reaches path o →
    o.children.IsChain fun c next ↦ ∀ below m, c.Reaches below m → m.node.start ≤ next.node.start
  row_le : ∀ path a path' b, origin.Reaches path a → origin.Reaches path' b →
    a.node.start ≤ b.node.start → a.node.row ≤ b.node.row

namespace WellFormed

theorem child (h : o.WellFormed) (hchild : o.node.children[i]? = some c) (hnamed : c.named = true) :
    (Occurrence.mk c (o.node :: o.ancestors)).WellFormed where
  parent_le path m hm := h.parent_le (i :: path) m (.step hchild hnamed hm)
  next_ge path m hm := h.next_ge (i :: path) m (.step hchild hnamed hm)
  row_le path a path' b ha hb :=
    h.row_le (i :: path) a (i :: path') b (.step hchild hnamed ha) (.step hchild hnamed hb)

theorem start_le_of_reaches (h : o.WellFormed) (htarget : o.Reaches path target) :
    o.node.start ≤ target.node.start := by
  induction htarget with
  | here o => exact Nat.le_refl _
  | @step o target c i path hchild hnamed _ ih =>
    have hc : ⟨c, o.node :: o.ancestors⟩ ∈ o.children :=
      List.mem_map.mpr ⟨c, Node.mem_namedChildren_iff.mpr ⟨i, hchild, hnamed⟩, rfl⟩
    exact (h.parent_le [] o (.here o) _ hc).trans (ih (h.child hchild hnamed))

/-- Nothing at or below a child starts later than any child behind it, be it the next one or not. -/
theorem pairwise_children (h : o.WellFormed) : o.children.Pairwise fun c later ↦
    ∀ below m, c.Reaches below m → m.node.start ≤ later.node.start := by
  have htrans : IsTrans Occurrence fun c later ↦
      ∀ below m, c.Reaches below m → m.node.start ≤ later.node.start :=
    ⟨fun _ next _ hnext hlater below m hm ↦
      (hnext below m hm).trans (hlater [] next (.here next))⟩
  exact List.isChain_iff_pairwise.mp (h.next_ge [] o (.here o))

/-- A place whose path comes first starts no later. -/
theorem start_le_of_lex (h : o.WellFormed) (ha : o.Reaches path a) (hb : o.Reaches path' b)
    (hlex : List.Lex (· < ·) path path') : a.node.start ≤ b.node.start := by
  induction hlex generalizing o with
  | nil =>
    cases ha with
    | here => exact h.start_le_of_reaches hb
  | cons _ ih =>
    cases ha with
    | step hchild hnamed ha =>
      exact ih (h.child hchild hnamed) ha ((reaches_cons_iff hchild).mp hb).2
  | @rel i _ j _ hlt =>
    -- the two paths part here, into a child and a later one
    cases ha with
    | @step _ _ c _ _ hchild hnamed ha =>
      cases hb with
      | @step _ _ d _ _ hchild' hnamed' hb =>
        have hsiblings := h.pairwise_children
        rw [children, List.pairwise_map, Node.namedChildren, List.pairwise_filter] at hsiblings
        obtain ⟨hi, hc⟩ := List.getElem?_eq_some_iff.mp hchild
        obtain ⟨hj, hd⟩ := List.getElem?_eq_some_iff.mp hchild'
        have hcd := List.pairwise_iff_getElem.mp hsiblings i j hi hj hlt
        rw [hc, hd] at hcd
        exact (hcd hnamed hnamed' _ a ha).trans
          ((h.child hchild' hnamed').start_le_of_reaches hb)

end WellFormed

/-- Whether offsets agree with the shape of a tree is settled by comparing its places. -/
theorem wellFormed_iff : o.WellFormed ↔
    (∀ place ∈ o.node.located o.ancestors,
      (∀ c ∈ place.2.children, place.2.node.start ≤ c.node.start) ∧
        place.2.children.IsChain fun c next ↦
          ∀ below ∈ c.node.located c.ancestors, below.2.node.start ≤ next.node.start) ∧
      ∀ a ∈ o.node.located o.ancestors, ∀ b ∈ o.node.located o.ancestors,
        a.2.node.start ≤ b.2.node.start → a.2.node.row ≤ b.2.node.row := by
  simp only [Prod.forall, Node.mem_located_iff]
  constructor
  · intro h
    exact ⟨fun path m hm ↦ ⟨h.parent_le path m hm, h.next_ge path m hm⟩,
      fun path a ha path' b hb ↦ h.row_le path a path' b ha hb⟩
  · rintro ⟨hplaces, hrows⟩
    exact ⟨fun path m hm ↦ (hplaces path m hm).1, fun path m hm ↦ (hplaces path m hm).2,
      fun path a path' b ha hb ↦ hrows path a ha path' b hb⟩

instance (o : Occurrence) : Decidable o.WellFormed :=
  decidable_of_iff' _ wellFormed_iff

end Occurrence

namespace Tree

/-- The places of a tree that are calls, in the order of the tree. -/
def callPlaces (src : Source) (t : Tree) : List (List Nat × Occurrence) :=
  (t.root.located []).filter fun place ↦ place.2.IsCall src

theorem callSites_eq_map_callPlaces (src : Source) (t : Tree) :
    t.callSites src = (t.callPlaces src).map fun place ↦ place.2.site src := by
  rw [callSites, Node.occurrences_eq_map_located, List.filterMap_map, callPlaces,
    ← List.filterMap_eq_map, List.filterMap_filter]
  refine List.filterMap_congr fun place _ ↦ ?_
  simp only [Function.comp_apply, Occurrence.callSite?_eq_ite, decide_eq_true_eq]

/-- The walk visits each place of a tree once and in the order of the text, as the recursion over
the tree lists them, and what is seen as a call is one call for each of these places that is a call.
In a tree whose offsets agree with its shape the lines of the calls do not decrease. -/
theorem callSites_in_document_order (src : Source) (t : Tree) :
    (∀ o, Occurrence.walk [o] = o :: o.children.flatMap fun c ↦ Occurrence.walk [c]) ∧
    t.occurrences = (t.root.located []).map Prod.snd ∧
    (∀ path o, (path, o) ∈ t.root.located [] ↔ Occurrence.Reaches ⟨t.root, []⟩ path o) ∧
    ((t.root.located []).Pairwise fun a b ↦ List.Lex (· < ·) a.1 b.1) ∧
    ((t.root.located []).map Prod.fst).Nodup ∧
    t.callSites src = (t.callPlaces src).map (fun place ↦ place.2.site src) ∧
    ((Occurrence.mk t.root []).WellFormed →
      (t.callSites src).Pairwise fun a b ↦ a.line ≤ b.line) := by
  have hlex := Node.pairwise_located [] t.root
  refine ⟨Occurrence.walk_singleton, Node.occurrences_eq_map_located t,
    fun _ _ ↦ Node.mem_located_iff, hlex, ?once, callSites_eq_map_callPlaces src t, ?lines⟩
  case once =>
    rw [List.Nodup, List.pairwise_map]
    refine hlex.imp fun hab heq ↦ ?_
    rw [heq] at hab
    exact List.lex_irrefl Nat.lt_irrefl _ hab
  case lines =>
    intro hformed
    rw [callSites_eq_map_callPlaces, List.pairwise_map]
    refine List.Pairwise.filter _ (hlex.imp_of_mem fun {a b} ha hb hab ↦ ?_)
    have ha := Node.mem_located_iff.mp ha
    have hb := Node.mem_located_iff.mp hb
    have hrow := hformed.row_le a.1 a.2 b.1 b.2 ha hb (hformed.start_le_of_lex ha hb hab)
    exact Nat.succ_le_succ hrow

end Tree

namespace NestedCalls

/-- The text of a call in the arguments of another one, and a call on the next line. -/
def text : Source :=
  Text.Codec.utf8.source "f(g)\nh".toUTF8.toList

def tree : Tree where
  root := {
    kind := "program"
    stop := 6
    children := [
      { kind := "call"
        stop := 4
        children := [
          { kind := "identifier", role := some "method", stop := 1 },
          { kind := "argument_list"
            role := some "arguments"
            start := 1
            stop := 4
            children := [{ kind := "identifier", start := 2, stop := 3 }] }] },
      { kind := "identifier", start := 5, stop := 6, row := 1 }] }

end NestedCalls

open NestedCalls

/-- The outer call comes before the one among its arguments, and both before the next line. -/
theorem Tree.callSites_in_document_order_of_nested_calls :
    (Occurrence.mk tree.root []).WellFormed ∧
      (tree.callSites text).map CallSite.name = ["f", "g", "h"] ∧
      (tree.callSites text).Pairwise fun a b ↦ a.line ≤ b.line := by
  have hformed : (Occurrence.mk tree.root []).WellFormed := by decide +kernel
  obtain ⟨-, -, -, -, -, -, hlines⟩ := callSites_in_document_order text tree
  exact ⟨hformed, by decide +kernel, hlines hformed⟩

end CallBinding
