import CallBinding.CallSite
import CallBinding.Proofs.TreeWalk

/-!
Scopes shut out what is around them. Whether a name is a call is decided by climbing from it to the
nearest method, class or module and searching what lies below, so the calls below such a node do not
depend on the tree that it stands in: they are the calls of the tree of which it is the root
(`callSites_below_scope`). Call sites are compared together with the paths of their places
(`Tree.placedCallSites`), which tell the calls below the scope from those elsewhere.
-/

set_option autoImplicit false
set_option relaxedAutoImplicit false

namespace CallBinding

/-! ### Places in a larger tree -/

/-- The place of an occurrence when its tree hangs below `outer`, the nearest of them first. -/
def Occurrence.under (outer : List Node) (o : Occurrence) : Occurrence :=
  ⟨o.node, o.ancestors ++ outer⟩

namespace Node

mutual

/-- The places of a node are the same under any further ancestors. -/
theorem located_append (inner outer : List Node) : (n : Node) → n.located (inner ++ outer) =
    (n.located inner).map fun place ↦ (place.1, place.2.under outer)
  | ⟨kind, role, named, start, stop, row, children⟩ => by
    have hbelow := locatedAll_append_above
      (⟨kind, role, named, start, stop, row, children⟩ :: inner) outer 0 children
    rw [List.cons_append] at hbelow
    rw [located, located, List.map_cons, hbelow]
    rfl

theorem locatedAll_append_above (inner outer : List Node) (i : Nat) : (nodes : List Node) →
    locatedAll (inner ++ outer) i nodes =
      (locatedAll inner i nodes).map fun place ↦ (place.1, place.2.under outer)
  | [] => by rw [locatedAll, locatedAll, List.map_nil]
  | c :: rest => by
    rw [locatedAll, locatedAll, List.map_append, locatedAll_append_above inner outer (i + 1) rest]
    split_ifs with hnamed
    · rw [located_append inner outer c, List.map_map, List.map_map]
      rfl
    · rfl

end

/-- The places of some nodes under any ancestors are those of the nodes by themselves. -/
theorem locatedAll_eq_map_under (above nodes : List Node) : locatedAll above 0 nodes =
    (locatedAll [] 0 nodes).map fun place ↦ (place.1, place.2.under above) :=
  locatedAll_append_above [] above 0 nodes

theorem locatedAll_append (above : List Node) (i : Nat) (front back : List Node) :
    locatedAll above i (front ++ back) =
      locatedAll above i front ++ locatedAll above (i + front.length) back := by
  induction front generalizing i with
  | nil => rw [locatedAll, List.nil_append, List.nil_append, List.length_nil, Nat.add_zero]
  | cons c rest ih =>
    rw [List.cons_append, locatedAll, ih, locatedAll, List.append_assoc, List.length_cons,
      Nat.add_right_comm, Nat.add_assoc]

/-- No path into some siblings goes through a child at a position that none of them has. -/
theorem not_prefix_of_mem_locatedAll {above nodes : List Node} {i k : Nat} {path : List Nat}
    {place : List Nat × Occurrence} (hplace : place ∈ locatedAll above k nodes)
    (hi : i < k ∨ k + nodes.length ≤ i) : ¬ (i :: path) <+: place.1 := by
  obtain ⟨j, c, rest, hpath, hchild, -⟩ := mem_locatedAll_iff.mp hplace
  obtain ⟨hj, -⟩ := List.getElem?_eq_some_iff.mp hchild
  rw [hpath, List.cons_prefix_cons]
  rintro ⟨rfl, -⟩
  omega

/-- The places below one of the children stand between those of the children in front of it and
those of the children behind it. -/
theorem located_eq_of_child {above : List Node} {n c : Node} {i : Nat}
    (hchild : n.children[i]? = some c) (hnamed : c.named = true) :
    n.located above = (([], ⟨n, above⟩) :: locatedAll (n :: above) 0 (n.children.take i)) ++
      (c.located (n :: above)).map (fun place ↦ (i :: place.1, place.2)) ++
        locatedAll (n :: above) (i + 1) (n.children.drop (i + 1)) := by
  obtain ⟨hlt, hget⟩ := List.getElem?_eq_some_iff.mp hchild
  have hsplit : n.children = n.children.take i ++ c :: n.children.drop (i + 1) := by
    rw [← hget, List.getElem_cons_drop, List.take_append_drop]
  have hlength : (n.children.take i).length = i := by
    rw [List.length_take]
    omega
  conv_lhs => rw [located_eq_cons, hsplit, locatedAll_append, locatedAll, hlength, Nat.zero_add]
  rw [if_pos hnamed, List.cons_append, List.cons_append, List.append_assoc]

end Node

/-- The places at and below a place that is reached stand together among the places of the tree, and
no path elsewhere goes through it. -/
theorem Occurrence.Reaches.exists_located_eq {o target : Occurrence} {path : List Nat}
    (h : o.Reaches path target) :
    ∃ before after, o.node.located o.ancestors = before ++
        (target.node.located target.ancestors).map (fun place ↦ (path ++ place.1, place.2)) ++
          after ∧
      ∀ place ∈ before ++ after, ¬ path <+: place.1 := by
  induction h with
  | here o => exact ⟨[], [], by simp, by simp⟩
  | @step o target c i path hchild hnamed hrest ih =>
    -- one position is put before all paths, and the siblings come to stand around the block
    obtain ⟨before, after, hplaces, hothers⟩ := ih
    have hwithin : ∀ place ∈ before ++ after, ¬ (i :: path) <+: (i :: place.1) := by
      intro place hplace hprefix
      exact hothers place hplace (List.cons_prefix_cons.mp hprefix).2
    refine ⟨([], o) :: Node.locatedAll (o.node :: o.ancestors) 0 (o.node.children.take i) ++
        before.map (fun place ↦ (i :: place.1, place.2)),
      after.map (fun place ↦ (i :: place.1, place.2)) ++
        Node.locatedAll (o.node :: o.ancestors) (i + 1) (o.node.children.drop (i + 1)), ?_, ?_⟩
    · rw [Node.located_eq_of_child hchild hnamed, hplaces]
      simp [Function.comp_def]
    · intro place hplace
      simp only [List.cons_append, List.mem_cons, List.mem_append, List.mem_map] at hplace
      rcases hplace with rfl | (hfront | ⟨place, hbefore, rfl⟩) | ⟨place, hafter, rfl⟩ | hback
      · exact fun hprefix ↦ List.cons_ne_nil _ _ (List.prefix_nil.mp hprefix)
      · refine Node.not_prefix_of_mem_locatedAll hfront (Or.inr ?_)
        rw [Nat.zero_add, List.length_take]
        exact Nat.min_le_left _ _
      · exact hwithin place (List.mem_append_left _ hbefore)
      · exact hwithin place (List.mem_append_right _ hafter)
      · exact Node.not_prefix_of_mem_locatedAll hback (Or.inl (Nat.lt_succ_self i))

/-! ### Call sites with their places -/

/-- The calls at some places, each with the path of its place. -/
def sitesAt (src : Source) (places : List (List Nat × Occurrence)) : List (List Nat × CallSite) :=
  places.filterMap fun place ↦ (place.2.callSite? src).map fun site ↦ (place.1, site)

/-- The calls of a tree, each with the path that leads to it. -/
def Tree.placedCallSites (src : Source) (t : Tree) : List (List Nat × CallSite) :=
  sitesAt src (t.root.located [])

theorem Tree.map_snd_placedCallSites (src : Source) (t : Tree) :
    (t.placedCallSites src).map Prod.snd = t.callSites src := by
  rw [placedCallSites, sitesAt, callSites, Node.occurrences_eq_map_located, List.filterMap_map,
    List.map_filterMap]
  refine List.filterMap_congr fun place _ ↦ ?_
  rw [Option.map_map, Function.comp_apply]
  exact Option.map_id_apply

/-- The calls of a tree at the places below a path, in the order of the tree. -/
def Tree.callSitesBelow (src : Source) (path : List Nat) (t : Tree) : List CallSite :=
  ((t.placedCallSites src).filter fun site ↦ path <+: site.1 ∧ site.1 ≠ path).map Prod.snd

theorem sitesAt_append (src : Source) (front back : List (List Nat × Occurrence)) :
    sitesAt src (front ++ back) = sitesAt src front ++ sitesAt src back :=
  List.filterMap_append

theorem sitesAt_map_path (src : Source) (path : List Nat) (places : List (List Nat × Occurrence)) :
    sitesAt src (places.map fun place ↦ (path ++ place.1, place.2)) =
      (sitesAt src places).map fun site ↦ (path ++ site.1, site.2) := by
  rw [sitesAt, sitesAt, List.filterMap_map, List.map_filterMap]
  refine List.filterMap_congr fun place _ ↦ ?_
  rw [Function.comp_apply, Option.map_map]
  rfl

/-- Places that are calls of one kind give the same call sites. -/
theorem sitesAt_map_congr {src src' : Source} {f g : Occurrence → Occurrence}
    {places : List (List Nat × Occurrence)}
    (h : ∀ place ∈ places, (f place.2).callSite? src = (g place.2).callSite? src') :
    sitesAt src (places.map fun place ↦ (place.1, f place.2)) =
      sitesAt src' (places.map fun place ↦ (place.1, g place.2)) := by
  rw [sitesAt, sitesAt, List.filterMap_map, List.filterMap_map]
  refine List.filterMap_congr fun place hplace ↦ ?_
  simp only [Function.comp_apply, h place hplace]

/-- The calls of a node that is not a call itself are those below it. -/
theorem Node.sitesAt_located_of_none {src : Source} {n : Node} {above : List Node}
    (h : (Occurrence.mk n above).callSite? src = none) :
    sitesAt src (n.located above) = sitesAt src (locatedAll (n :: above) 0 n.children) := by
  rw [located_eq_cons, sitesAt, List.filterMap_cons, h, Option.map_none]
  rfl

theorem exists_mem_of_mem_sitesAt {src : Source} {places : List (List Nat × Occurrence)}
    {site : List Nat × CallSite} (h : site ∈ sitesAt src places) :
    ∃ place ∈ places, place.1 = site.1 := by
  obtain ⟨place, hplace, hsite⟩ := List.mem_filterMap.mp h
  obtain ⟨call, -, rfl⟩ := Option.map_eq_some_iff.mp hsite
  exact ⟨place, hplace, rfl⟩

/-! ### Up to the nearest scope -/

/-- Kinds of the scopes that stand inside a program. -/
def nestedScopeKinds : List String :=
  ["method", "singleton_method", "class", "singleton_class", "module"]

theorem Node.isScope_of_nested {n : Node} (hkind : n.kind ∈ nestedScopeKinds) :
    n.isScope = true := by
  have hsubset : ∀ kind ∈ nestedScopeKinds, scopeKinds.contains kind = true := by decide
  exact hsubset _ hkind

/-- What encloses a place does not go beyond the nearest scope. -/
theorem enclosing_append_scope {n : Node} (hscope : n.isScope = true) (inner outer : List Node) :
    enclosing (inner ++ n :: outer) = enclosing (inner ++ [n]) := by
  induction inner with
  | nil => simp only [List.nil_append, enclosing, hscope, if_true]
  | cons m rest ih => simp only [List.cons_append, enclosing, ih]

namespace Occurrence

variable {src : Source} {o : Occurrence} {n : Node} {outer : List Node}

theorem stands_under_cons : (o.under (n :: outer)).stands = (o.under [n]).stands := by
  have hparent : (o.under (n :: outer)).parent? = (o.under [n]).parent? := by
    simp only [parent?, under]
    cases o.ancestors with
    | nil => rfl
    | cons m rest => rfl
  rw [stands, stands, hparent]
  rfl

/-- A place below a scope is a call or not, whatever stands around the scope. -/
theorem callSite?_under_scope (hscope : n.isScope = true) :
    (o.under (n :: outer)).callSite? src = (o.under [n]).callSite? src := by
  have henclosing : enclosing (o.under (n :: outer)).ancestors =
      enclosing (o.under [n]).ancestors := enclosing_append_scope hscope _ _
  have hbare : (o.under (n :: outer)).isBareCall src = (o.under [n]).isBareCall src := by
    rw [isBareCall, isBareCall, henclosing, stands_under_cons]
    rfl
  rw [callSite?, callSite?, hbare]
  rfl

theorem callSite?_of_nested {src : Source} {o : Occurrence}
    (hkind : o.node.kind ∈ nestedScopeKinds) :
    o.callSite? src = none := by
  have hother : ∀ kind ∈ nestedScopeKinds, kind ≠ "identifier" ∧ kind ≠ "call" := by decide
  obtain ⟨hidentifier, hcall⟩ := hother _ hkind
  rw [callSite?, if_neg hidentifier, if_neg hcall]

end Occurrence

namespace Node

/-- The calls at and below a scope are all below it, and they are the same under any ancestors. -/
theorem sitesAt_located_of_nested {src : Source} {n : Node} (hkind : n.kind ∈ nestedScopeKinds)
    (outer : List Node) : sitesAt src (n.located outer) =
      sitesAt src ((locatedAll [] 0 n.children).map fun place ↦ (place.1, place.2.under [n])) := by
  rw [sitesAt_located_of_none (Occurrence.callSite?_of_nested hkind), locatedAll_eq_map_under]
  exact sitesAt_map_congr fun place _ ↦ Occurrence.callSite?_under_scope (isScope_of_nested hkind)

theorem ne_nil_of_mem_sitesAt_located {src : Source} {n : Node} (hkind : n.kind ∈ nestedScopeKinds)
    {outer : List Node} {site : List Nat × CallSite} (h : site ∈ sitesAt src (n.located outer)) :
    site.1 ≠ [] := by
  rw [sitesAt_located_of_nested hkind] at h
  obtain ⟨place, hplace, hsite⟩ := exists_mem_of_mem_sitesAt h
  obtain ⟨inner, hinner, rfl⟩ := List.mem_map.mp hplace
  obtain ⟨j, c, rest, hpath, -⟩ := mem_locatedAll_iff.mp hinner
  rw [← hsite, hpath]
  exact List.cons_ne_nil _ _

end Node

namespace Tree

variable (src : Source) {t scopeTree : Tree} {path : List Nat} {scope : Occurrence}

/-- The calls below a scope are a block of the calls of the tree, and the block is that of the tree
of which the scope is the root. -/
theorem exists_placedCallSites_eq (hreach : Occurrence.Reaches ⟨t.root, []⟩ path scope)
    (hkind : scope.node.kind ∈ nestedScopeKinds) (hroot : scopeTree.root = scope.node) :
    ∃ before after, t.placedCallSites src = before ++
        (scopeTree.placedCallSites src).map (fun site ↦ (path ++ site.1, site.2)) ++ after ∧
      (∀ site ∈ before ++ after, ¬ path <+: site.1) ∧
      ∀ site ∈ scopeTree.placedCallSites src, site.1 ≠ [] := by
  obtain ⟨before, after, hplaces, hothers⟩ := hreach.exists_located_eq
  have hscope :
      sitesAt src (scope.node.located scope.ancestors) = scopeTree.placedCallSites src := by
    rw [placedCallSites, hroot, Node.sitesAt_located_of_nested hkind,
      Node.sitesAt_located_of_nested hkind]
  refine ⟨sitesAt src before, sitesAt src after, ?_, ?_, ?_⟩
  · rw [placedCallSites, hplaces, sitesAt_append, sitesAt_append, sitesAt_map_path, hscope]
  · intro site hsite
    rw [← sitesAt_append] at hsite
    obtain ⟨place, hplace, hpath⟩ := exists_mem_of_mem_sitesAt hsite
    rw [← hpath]
    exact hothers place hplace
  · intro site hsite
    rw [← hscope] at hsite
    exact Node.ne_nil_of_mem_sitesAt_located hkind hsite

theorem callSitesBelow_eq (hreach : Occurrence.Reaches ⟨t.root, []⟩ path scope)
    (hkind : scope.node.kind ∈ nestedScopeKinds) (hroot : scopeTree.root = scope.node) :
    t.callSitesBelow src path = scopeTree.callSites src := by
  obtain ⟨before, after, hsites, hothers, hbelow⟩ :=
    exists_placedCallSites_eq src hreach hkind hroot
  have hnone : ∀ sites ⊆ before ++ after,
      (sites.filter fun site ↦ path <+: site.1 ∧ site.1 ≠ path) = [] := by
    intro sites hsubset
    rw [List.filter_eq_nil_iff]
    intro site hsite hin
    exact hothers site (hsubset hsite) (of_decide_eq_true hin).1
  rw [callSitesBelow, hsites, List.filter_append, List.filter_append,
    hnone before (List.subset_append_left _ _), hnone after (List.subset_append_right _ _),
    List.nil_append, List.append_nil, List.filter_eq_self.mpr, List.map_map,
    ← map_snd_placedCallSites]
  · rfl
  · intro site hsite
    obtain ⟨inner, hinner, rfl⟩ := List.mem_map.mp hsite
    have hne := hbelow inner hinner
    simp [hne]

/-- The calls below a method, a class or a module do not depend on what is around it. They stand
together among the calls of the tree, and are those of the tree of which the scope is the root, at
the same places below it and in the same order, so that they are the same in every tree that has the
scope in it. -/
theorem callSites_below_scope (src : Source) (t scopeTree : Tree) (path : List Nat)
    (scope : Occurrence) (hreach : Occurrence.Reaches ⟨t.root, []⟩ path scope)
    (hkind : scope.node.kind ∈ nestedScopeKinds) (hroot : scopeTree.root = scope.node) :
    (∃ before after,
      t.placedCallSites src = before ++
        (scopeTree.placedCallSites src).map (fun site ↦ (path ++ site.1, site.2)) ++ after ∧
      (∀ site ∈ before ++ after, ¬ path <+: site.1) ∧
      (∀ site ∈ scopeTree.placedCallSites src, site.1 ≠ []) ∧
      t.callSites src =
        before.map Prod.snd ++ t.callSitesBelow src path ++ after.map Prod.snd) ∧
    t.callSitesBelow src path = scopeTree.callSites src ∧
    ∀ (t' : Tree) (path' : List Nat) (scope' : Occurrence),
      Occurrence.Reaches ⟨t'.root, []⟩ path' scope' → scope'.node = scope.node →
        t'.callSitesBelow src path' = t.callSitesBelow src path := by
  have hbelow := callSitesBelow_eq src hreach hkind hroot
  refine ⟨?_, hbelow, ?_⟩
  · obtain ⟨before, after, hsites, hothers, hinner⟩ :=
      exists_placedCallSites_eq src hreach hkind hroot
    refine ⟨before, after, hsites, hothers, hinner, ?_⟩
    rw [hbelow, ← map_snd_placedCallSites, ← map_snd_placedCallSites, hsites]
    simp [Function.comp_def]
  · intro t' path' scope' hreach' hsame
    rw [hbelow]
    exact callSitesBelow_eq src hreach' (hsame ▸ hkind) (hroot.trans hsame.symm)

/-! ### A method behind an assignment -/

namespace ShadowedOutside

/-- The text of an assignment to a name, and of a method that calls the name. -/
def text : Source :=
  Text.Codec.utf8.source "f = 1\ndef g\n  f\nend".toUTF8.toList

def method : Node where
  kind := "method"
  start := 6
  stop := 19
  row := 1
  children := [
    { kind := "identifier", role := some "name", start := 10, stop := 11, row := 1 },
    { kind := "body_statement"
      role := some "body"
      start := 14
      stop := 15
      row := 2
      children := [{ kind := "identifier", start := 14, stop := 15, row := 2 }] }]

def program : Node where
  kind := "program"
  stop := 19
  children := [
    { kind := "assignment"
      stop := 5
      children := [
        { kind := "identifier", role := some "left", stop := 1 },
        { kind := "integer", role := some "right", start := 4, stop := 5 }] },
    method]

/-- The name is a variable outside of the method and a call inside. -/
theorem callSites_below_scope_of_method :
    Occurrence.Reaches ⟨program, []⟩ [1] ⟨method, [program]⟩ ∧ method.kind ∈ nestedScopeKinds ∧
      (Tree.mk program false).callSitesBelow text [1] = [⟨"f", [], 3, "f"⟩] := by
  have hreach : Occurrence.Reaches ⟨program, []⟩ [1] ⟨method, [program]⟩ :=
    .step rfl rfl (.here _)
  have hkind : method.kind ∈ nestedScopeKinds := by decide
  have hinside : (Tree.mk method false).callSites text = [⟨"f", [], 3, "f"⟩] := by
    decide +kernel
  have hbelow := (callSites_below_scope text ⟨program, false⟩ ⟨method, false⟩ [1]
    ⟨method, [program]⟩ hreach hkind rfl).2.1
  exact ⟨hreach, hkind, hbelow.trans hinside⟩

end ShadowedOutside

end Tree

end CallBinding
