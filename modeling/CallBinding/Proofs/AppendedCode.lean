import CallBinding.Proofs.ScopeIsolation
import CallBinding.Proofs.TextPrefix

/-!
Code at the end of a program changes nothing in front of it. Whether a name is a call is decided by
a search through its whole scope, which for the code at the top is the whole program, but the search
stops at every node that does not start before the name, and so at all that is appended. Hence the
calls of a program begin with those of any part of it that it begins with (`callSites_appended`).
-/

set_option autoImplicit false
set_option relaxedAutoImplicit false

namespace CallBinding

/-! ### Places of the part -/

/-- What is passed on the way to a place stands at or below the start, or above it. -/
theorem Occurrence.Reaches.within {o target : Occurrence} {path : List Nat}
    (h : o.Reaches path target) : target.node.Within o.node ∧
      ∀ m ∈ target.ancestors, m ∈ o.ancestors ∨ m.Within o.node := by
  induction h with
  | here o => exact ⟨.refl _, fun m hm ↦ Or.inl hm⟩
  | @step o target c i path hchild hnamed hrest ih =>
    have hmem := List.mem_of_getElem? hchild
    refine ⟨.child hmem ih.1, fun m hm ↦ ?_⟩
    rcases ih.2 m hm with habove | hbelow
    · rcases List.mem_cons.mp habove with rfl | habove
      · exact Or.inr (.refl _)
      · exact Or.inl habove
    · exact Or.inr (.child hmem hbelow)

theorem Node.within_of_mem_locatedAll {nodes : List Node} {place : List Nat × Occurrence}
    (h : place ∈ locatedAll [] 0 nodes) :
    ∃ n ∈ nodes, place.2.node.Within n ∧ ∀ m ∈ place.2.ancestors, m.Within n := by
  obtain ⟨j, c, rest, -, hchild, -, hplace⟩ := mem_locatedAll_iff.mp h
  have hwithin := (mem_located_iff.mp hplace).within
  exact ⟨c, List.mem_of_getElem? hchild, hwithin.1,
    fun m hm ↦ (hwithin.2 m hm).resolve_left List.not_mem_nil⟩

theorem Node.isScope_of_program {root : Node} (hkind : root.kind = "program") :
    root.isScope = true := by
  rw [isScope, hkind]
  decide

/-- What encloses a place is compared up to the root, which is a scope. -/
theorem any_enclosing_congr {inner : List Node} {root root' : Node} {f f' : Node → Bool}
    (hscope : root.isScope = true) (hscope' : root'.isScope = true)
    (hinner : ∀ m ∈ inner, f m = f' m) (hroot : f root = f' root') :
    (enclosing (inner ++ [root])).any f = (enclosing (inner ++ [root'])).any f' := by
  induction inner with
  | nil => simp [enclosing, hscope, hscope', hroot]
  | cons m rest ih =>
    have hrest := ih fun k hk ↦ hinner k (List.mem_cons_of_mem _ hk)
    have hm := hinner m List.mem_cons_self
    simp only [List.cons_append, enclosing]
    split_ifs
    · rw [List.any_cons, List.any_cons, hm, List.any_nil, List.any_nil]
    · rw [List.any_cons, List.any_cons, hm, hrest]
    · exact hrest

/-! ### Appending -/

/-- A program consists of the code of another one and of further code behind it, which starts no
earlier than any node in front of it. The text of the part is the beginning of the whole text. -/
structure Tree.Appends (src part : Source) (whole first : Tree) (front back : List Node) :
    Prop where
  kind_whole : whole.root.kind = "program"
  kind_first : first.root.kind = "program"
  children_whole : whole.root.children = front ++ back
  children_first : first.root.children = front
  role_eq_none : ∀ c ∈ front ++ back, c.role = none
  start_le : ∀ c ∈ front, ∀ n : Node, n.Within c → ∀ later ∈ back, n.start ≤ later.start
  beginsWith : src.BeginsWith part
  endsIn : ∀ c ∈ front, c.EndsIn part

namespace Tree.Appends

variable {src part : Source} {whole first : Tree} {front back : List Node}

theorem namedChildren_whole (h : Appends src part whole first front back) :
    whole.root.namedChildren = front.filter Node.named ++ back.filter Node.named := by
  rw [Node.namedChildren, h.children_whole, List.filter_append]

theorem namedChildren_first (h : Appends src part whole first front back) :
    first.root.namedChildren = front.filter Node.named := by
  rw [Node.namedChildren, h.children_first]

/-- The two roots have no parameters. -/
theorem mentionsIn_parameters_eq (h : Appends src part whole first front back) (name : String) :
    whole.root.mentionsIn src "parameters" name = first.root.mentionsIn part "parameters" name := by
  have hnone : ∀ root : Node, root.children ⊆ front ++ back → root.child? "parameters" = none := by
    intro root hsubset
    refine List.find?_eq_none.mpr fun c hc ↦ ?_
    rw [h.role_eq_none c (hsubset hc)]
    simp
  have hwhole := hnone whole.root (h.children_whole ▸ List.Subset.refl _)
  have hfirst := hnone first.root (h.children_first ▸ List.subset_append_left _ _)
  rw [Node.mentionsIn, Node.mentionsIn, hwhole, hfirst]
  rfl

/-- A search for assignments before a node of the front passes over all that is appended. -/
theorem assigns_eq (h : Appends src part whole first front back) {c n : Node} (hc : c ∈ front)
    (hn : n.Within c) (name : String) :
    whole.root.assigns src name n.start = first.root.assigns part name n.start := by
  have hskips : ∀ m ∈ (back.filter Node.named).reverse,
      (n.start ≤ m.start || m.isScope) = true := by
    intro m hm
    have hback := (List.mem_filter.mp (List.mem_reverse.mp hm)).1
    simp [h.start_le c hc n hn m hback]
  have hends : ∀ m ∈ (front.filter Node.named).reverse, m.EndsIn part :=
    fun m hm ↦ h.endsIn m (List.mem_filter.mp (List.mem_reverse.mp hm)).1
  -- the search takes the last children first, so all that is appended is dropped at its start
  rw [Node.assigns, Node.assigns, h.namedChildren_whole, h.namedChildren_first, List.reverse_append,
    Node.search_append_of_skips hskips]
  exact h.beginsWith.search_assigns_eq hends

/-- The two roots declare the same names before a node of the front. -/
theorem declares_eq (h : Appends src part whole first front back) {c n : Node} (hc : c ∈ front)
    (hn : n.Within c) (name : String) :
    whole.root.declares src name n.start = first.root.declares part name n.start := by
  rw [Node.declares, Node.declares, h.mentionsIn_parameters_eq, h.assigns_eq hc hn]

/-- A place stands as a statement under one of the roots when it does so under the other one. -/
theorem stands_eq (h : Appends src part whole first front back) (o : Occurrence) :
    (o.under [whole.root]).stands = (o.under [first.root]).stands := by
  unfold Occurrence.stands Occurrence.parent? Occurrence.under
  cases o.ancestors with
  | nil =>
    simp only [List.nil_append, List.head?_cons, h.kind_whole, h.kind_first]
    rfl
  | cons m rest => rfl

theorem isBareCall_eq (h : Appends src part whole first front back)
    {place : List Nat × Occurrence} (hplace : place ∈ Node.locatedAll [] 0 front) :
    (place.2.under [whole.root]).isBareCall src = (place.2.under [first.root]).isBareCall part := by
  obtain ⟨c, hc, hnode, habove⟩ := Node.within_of_mem_locatedAll hplace
  have hends := h.endsIn c hc
  have htext : src.text place.2.node = part.text place.2.node :=
    h.beginsWith.text_eq (hends.of_within hnode)
  have hinner : ∀ m ∈ place.2.ancestors,
      m.declares src (part.text place.2.node) place.2.node.start =
        m.declares part (part.text place.2.node) place.2.node.start :=
    fun m hm ↦ h.beginsWith.declares_eq (hends.of_within (habove m hm))
  have hdeclares := any_enclosing_congr (Node.isScope_of_program h.kind_whole)
    (Node.isScope_of_program h.kind_first) hinner (h.declares_eq hc hnode _)
  rw [Occurrence.isBareCall, Occurrence.isBareCall, h.stands_eq]
  simp only [Occurrence.under, htext, hdeclares]
  rfl

/-- A place of the front is the same call in the whole program as in the front alone. -/
theorem callSite?_eq (h : Appends src part whole first front back)
    {place : List Nat × Occurrence} (hplace : place ∈ Node.locatedAll [] 0 front) :
    (place.2.under [whole.root]).callSite? src = (place.2.under [first.root]).callSite? part := by
  obtain ⟨c, hc, hnode, -⟩ := Node.within_of_mem_locatedAll hplace
  exact h.beginsWith.callSite?_eq rfl ((h.endsIn c hc).of_within hnode) (h.isBareCall_eq hplace)

end Tree.Appends

/-- The calls of a tree whose root is a program are those at the places of its children. -/
theorem Tree.placedCallSites_of_program {src : Source} {t : Tree}
    (hkind : t.root.kind = "program") :
    t.placedCallSites src = sitesAt src (Node.locatedAll [t.root] 0 t.root.children) := by
  have hnone : (Occurrence.mk t.root []).callSite? src = none := by
    rw [Occurrence.callSite?, hkind, if_neg (by decide), if_neg (by decide)]
  rw [placedCallSites, Node.sitesAt_located_of_none hnone]

/-- Appending code to a program changes none of the calls that are found already: the calls of the
whole program begin with those of its front, with their names, arguments, lines and texts and at the
same places, and all further ones are at places of the code that is appended. -/
theorem Tree.callSites_appended (src part : Source) (whole first : Tree) (front back : List Node)
    (h : Appends src part whole first front back) :
    ∃ later, whole.placedCallSites src = first.placedCallSites part ++ later ∧
      whole.callSites src = first.callSites part ++ later.map Prod.snd ∧
      ∀ site ∈ later, ∃ i path, site.1 = i :: path ∧ front.length ≤ i := by
  have hfront : sitesAt src (Node.locatedAll [whole.root] 0 front) =
      sitesAt part (Node.locatedAll [first.root] 0 front) := by
    rw [Node.locatedAll_eq_map_under [whole.root], Node.locatedAll_eq_map_under [first.root]]
    exact sitesAt_map_congr fun place hplace ↦ h.callSite?_eq hplace
  have hsites : whole.placedCallSites src = first.placedCallSites part ++
      sitesAt src (Node.locatedAll [whole.root] (0 + front.length) back) := by
    rw [placedCallSites_of_program h.kind_whole, placedCallSites_of_program h.kind_first,
      h.children_whole, h.children_first, Node.locatedAll_append, sitesAt_append, hfront]
  refine ⟨_, hsites, ?_, ?_⟩
  · rw [← map_snd_placedCallSites, ← map_snd_placedCallSites, hsites, List.map_append]
  · intro site hsite
    obtain ⟨place, hplace, hpath⟩ := exists_mem_of_mem_sitesAt hsite
    obtain ⟨j, c, rest, hj, -⟩ := Node.mem_locatedAll_iff.mp hplace
    refine ⟨0 + front.length + j, rest, hpath.symm.trans hj, ?_⟩
    omega

/-! ### A use before the assignment -/

namespace Tree.AssignedLater

def use : Node :=
  { kind := "identifier", stop := 1 }

def assignment : Node where
  kind := "assignment"
  start := 2
  stop := 7
  row := 1
  children := [
    { kind := "identifier", role := some "left", start := 2, stop := 3, row := 1 },
    { kind := "integer", role := some "right", start := 6, stop := 7, row := 1 }]

/-- The node of a program with some statements. -/
def program (statements : List Node) : Tree :=
  { root := { kind := "program", stop := 7, children := statements } }

def text : Source :=
  Text.Codec.utf8.source "f\nf = 1".toUTF8.toList

def textOfUse : Source :=
  Text.Codec.utf8.source "f\n".toUTF8.toList

/-- A name that is used before it is assigned stays a call. -/
theorem callSites_appended_of_assignment :
    Appends text textOfUse (program [use, assignment]) (program [use]) [use] [assignment] ∧
      ∃ later, (program [use, assignment]).callSites text = ⟨"f", [], 1, "f"⟩ :: later := by
  have hwithin : ∀ n : Node, n.Within use → n = use := by
    intro n hn
    cases hn with
    | refl => rfl
    | child hchild _ => exact absurd hchild List.not_mem_nil
  have happends : Appends text textOfUse (program [use, assignment]) (program [use]) [use]
      [assignment] :=
    { kind_whole := rfl
      kind_first := rfl
      children_whole := rfl
      children_first := rfl
      role_eq_none := by decide
      start_le := by
        intro c hc n hn later _
        rw [List.mem_singleton.mp hc] at hn
        rw [hwithin n hn]
        exact Nat.zero_le _
      beginsWith := ⟨by decide +kernel, rfl⟩
      endsIn := by
        intro c hc n hn
        rw [List.mem_singleton.mp hc] at hn
        rw [hwithin n hn]
        decide +kernel }
  have hfirst : (program [use]).callSites textOfUse = [⟨"f", [], 1, "f"⟩] := by decide +kernel
  obtain ⟨later, -, hcalls, -⟩ := callSites_appended _ _ _ _ _ _ happends
  rw [hfirst] at hcalls
  exact ⟨happends, _, hcalls⟩

end Tree.AssignedLater

end CallBinding
