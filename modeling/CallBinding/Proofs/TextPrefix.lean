import CallBinding.Proofs.BrokenCalls

/-!
Reading a part of a program from its own text. `Source.BeginsWith` says that the text of the part is
the beginning of the text of the program, and `Node.EndsIn` that no node at or below a node leaves
the part. What is read off such a node is then the same in both texts, from its text to the
assignments below it, and so is the call that is seen there, as soon as the two texts agree on
whether a bare name is a call (`Source.BeginsWith.callSite?_eq`).
-/

set_option autoImplicit false
set_option relaxedAutoImplicit false

namespace CallBinding

/-! ### Nodes of a part of the text -/

/-- A node stands at or below another one, named or not. -/
inductive Node.Within : Node → Node → Prop
  | refl (n : Node) : Within n n
  | child {m c n : Node} (hchild : c ∈ n.children) (h : Within m c) : Within m n

/-- A text begins with another one in the same encoding. -/
structure Source.BeginsWith (src part : Source) : Prop where
  bytes_prefix : part.bytes <+: src.bytes
  decode_eq : part.decode = src.decode

/-- All nodes at and below a node end inside a text. -/
def Node.EndsIn (part : Source) (n : Node) : Prop :=
  ∀ m : Node, m.Within n → m.stop ≤ part.bytes.length

namespace Node

variable {part : Source} {n m c : Node} {role : String}

theorem Within.trans {a b : Node} (h : a.Within b) (h' : b.Within c) : a.Within c := by
  induction h' with
  | refl => exact h
  | child hchild _ ih => exact .child hchild ih

theorem EndsIn.stop_le (h : n.EndsIn part) : n.stop ≤ part.bytes.length :=
  h n (.refl n)

theorem EndsIn.of_within (h : n.EndsIn part) (hm : m.Within n) : m.EndsIn part :=
  fun k hk ↦ h k (hk.trans hm)

theorem EndsIn.child (h : n.EndsIn part) (hc : c ∈ n.children) : c.EndsIn part :=
  h.of_within (.child hc (.refl c))

theorem EndsIn.namedChild (h : n.EndsIn part) (hc : c ∈ n.namedChildren) : c.EndsIn part :=
  h.child (List.mem_filter.mp hc).1

theorem EndsIn.child? (h : n.EndsIn part) (hc : n.child? role = some c) : c.EndsIn part :=
  h.child (List.mem_of_find?_eq_some hc)

end Node

/-! ### The text of such nodes -/

namespace Source.BeginsWith

variable {src part : Source} (h : src.BeginsWith part)
include h

theorem slice_eq {start stop : Nat} (hstop : stop ≤ part.bytes.length) :
    src.slice start stop = part.slice start stop := by
  obtain ⟨later, hlater⟩ := h.bytes_prefix
  rw [slice, slice, ← hlater]
  by_cases hstart : start ≤ stop
  · rw [List.drop_append_of_le_length (by omega), List.take_append_of_le_length]
    rw [List.length_drop]
    omega
  · have hempty : stop - start = 0 := by omega
    rw [hempty, List.take_zero, List.take_zero]

theorem span_eq {start stop : Nat} (hstop : stop ≤ part.bytes.length) :
    src.span start stop = part.span start stop := by
  rw [span, span, h.slice_eq hstop, h.decode_eq]

theorem text_eq {n : Node} (hn : n.EndsIn part) : src.text n = part.text n :=
  h.span_eq hn.stop_le

theorem quotedText?_eq {n : Node} (hn : n.EndsIn part) :
    src.quotedText? n = part.quotedText? n := by
  have htexts : n.namedChildren.map src.text = n.namedChildren.map part.text :=
    List.map_congr_left fun c hc ↦ h.text_eq (hn.namedChild hc)
  rw [quotedText?, quotedText?, htexts]

theorem pairLabel?_eq {n : Node} (hn : n.EndsIn part) : src.pairLabel? n = part.pairLabel? n := by
  unfold pairLabel?
  cases hkey : n.child? "key" with
  | none => rfl
  | some key =>
    have hends := hn.child? hkey
    simp only [h.text_eq hends, h.quotedText?_eq hends]

end Source.BeginsWith

/-! ### Searching -/

namespace Node

variable {skips found found' : Node → Bool} {stack : List Node}

/-- A search does not depend on what it looks for in nodes that it cannot meet. -/
theorem search_congr (h : ∀ n ∈ stack, ∀ m, m.Within n → found m = found' m) :
    search skips found stack = search skips found' stack := by
  induction stack using search.induct skips with
  | case1 => rw [search, search]
  | case2 n stack hskip ih =>
    rw [search, search, if_pos hskip, if_pos hskip]
    exact ih fun m hm ↦ h m (List.mem_cons_of_mem _ hm)
  | case3 n stack hskip ih =>
    rw [search, search, if_neg hskip, if_neg hskip, h n List.mem_cons_self n (.refl n)]
    congr 1
    refine ih fun m hm k hk ↦ ?_
    -- what is within a child that goes on the stack is within `n`
    rcases List.mem_append.mp hm with hchild | hrest
    · have hmem := (List.mem_filter.mp (List.mem_reverse.mp hchild)).1
      exact h n List.mem_cons_self k (.child hmem hk)
    · exact h m (List.mem_cons_of_mem _ hrest) k hk

/-- Nodes that are skipped make no difference to a search. -/
theorem search_append_of_skips {front : List Node} (h : ∀ n ∈ front, skips n = true) :
    search skips found (front ++ stack) = search skips found stack := by
  induction front with
  | nil => rfl
  | cons n rest ih =>
    rw [List.cons_append, search, if_pos (h n List.mem_cons_self)]
    exact ih fun m hm ↦ h m (List.mem_cons_of_mem _ hm)

end Node

/-! ### Variables and arguments -/

namespace Source.BeginsWith

variable {src part : Source} {n : Node} {name role : String} {limit : Nat} {a : Argument}
  (h : src.BeginsWith part)
include h

theorem mentions_eq (hn : n.EndsIn part) : n.mentions src name = n.mentions part name := by
  refine Node.search_congr fun m hm k hk ↦ ?_
  rw [List.mem_singleton.mp hm] at hk
  rw [h.text_eq (hn.of_within hk)]

theorem mentionsIn_eq (hn : n.EndsIn part) :
    n.mentionsIn src role name = n.mentionsIn part role name := by
  unfold Node.mentionsIn
  cases hchild : n.child? role with
  | none => rfl
  | some c => exact h.mentions_eq (hn.child? hchild)

/-- Below nodes that end in the part of the text, the same assignments are found. -/
theorem search_assigns_eq {stack : List Node} (hstack : ∀ n ∈ stack, n.EndsIn part) :
    Node.search (fun m ↦ limit ≤ m.start || m.isScope)
        (fun m ↦ m.isAssignment && m.mentionsIn src "left" name) stack =
      Node.search (fun m ↦ limit ≤ m.start || m.isScope)
        (fun m ↦ m.isAssignment && m.mentionsIn part "left" name) stack := by
  refine Node.search_congr fun n hn m hm ↦ ?_
  rw [h.mentionsIn_eq ((hstack n hn).of_within hm)]

theorem declares_eq (hn : n.EndsIn part) :
    n.declares src name limit = n.declares part name limit := by
  have hassigns : n.assigns src name limit = n.assigns part name limit :=
    h.search_assigns_eq fun c hc ↦ hn.namedChild (List.mem_reverse.mp hc)
  rw [Node.declares, Node.declares, h.mentionsIn_eq hn, hassigns]

theorem passed_eq (ha : ∀ n ∈ a.nodes, n.EndsIn part) : a.passed src = a.passed part := by
  have htext : a.text src = a.text part := by
    refine h.span_eq (ha _ ?_).stop_le
    cases hlast : a.more.getLast? with
    | none => exact List.mem_cons_self
    | some last => exact List.mem_cons_of_mem _ (List.mem_of_getLast? hlast)
  have hentries : ∀ e ∈ a.entries, e.EndsIn part := by
    intro e he
    unfold Argument.entries at he
    split_ifs at he with himplicit hhash
    · exact ha e he
    · exact (ha a.first List.mem_cons_self).namedChild he
    · exact absurd he List.not_mem_nil
  have hlabels : a.labels src = a.labels part :=
    List.filterMap_congr fun e he ↦ h.pairLabel?_eq (hentries e (List.mem_filter.mp he).1)
  rw [Argument.passed, Argument.passed, Argument.facts, Argument.facts, htext, hlabels]

end Source.BeginsWith

theorem Node.mem_namedChildren_of_mem_passedArguments {call n : Node} {a : Argument}
    (ha : a ∈ call.passedArguments) (hn : n ∈ a.nodes) :
    ∃ list, call.child? "arguments" = some list ∧ n ∈ list.namedChildren := by
  unfold passedArguments at ha
  cases hlist : call.child? "arguments" with
  | none =>
    rw [hlist] at ha
    exact absurd ha List.not_mem_nil
  | some list =>
    rw [hlist] at ha
    refine ⟨list, rfl, ?_⟩
    rcases List.mem_append.mp ha with hpositional | hhash
    · obtain ⟨e, he, rfl⟩ := List.mem_map.mp hpositional
      rw [List.mem_singleton.mp hn]
      exact (List.mem_filter.mp he).1
    · cases hkeywords : list.namedChildren.filter fun e ↦ e.IsKeyword with
      | nil =>
        rw [hkeywords] at hhash
        exact absurd hhash List.not_mem_nil
      | cons first more =>
        rw [hkeywords] at hhash
        rw [List.mem_singleton.mp hhash] at hn
        have hmem : n ∈ list.namedChildren.filter fun e ↦ e.IsKeyword := hkeywords ▸ hn
        exact (List.mem_filter.mp hmem).1

theorem Source.BeginsWith.map_passed_eq {src part : Source} (h : src.BeginsWith part) {call : Node}
    (hcall : call.EndsIn part) :
    call.arguments.map (Argument.passed src) = call.arguments.map (Argument.passed part) := by
  refine List.map_congr_left fun a ha ↦ h.passed_eq fun n hn ↦ ?_
  rw [call.arguments_eq_passedArguments] at ha
  obtain ⟨list, hlist, hmem⟩ := Node.mem_namedChildren_of_mem_passedArguments ha hn
  exact (hcall.child? hlist).namedChild hmem

/-- What is seen of a call depends on the text of its node, and on whether a bare name is a call. -/
theorem Source.BeginsWith.callSite?_eq {src part : Source} (h : src.BeginsWith part)
    {o o' : Occurrence} (hnode : o'.node = o.node) (hends : o.node.EndsIn part)
    (hbare : o.isBareCall src = o'.isBareCall part) : o.callSite? src = o'.callSite? part := by
  have htext := h.text_eq hends
  have hpassed := h.map_passed_eq hends
  unfold Occurrence.callSite?
  rw [hnode, htext, hbare, hpassed]
  cases hmethod : o.node.child? "method" with
  | none => rfl
  | some method => rw [Option.map_some, Option.map_some, h.text_eq (hends.child? hmethod)]

end CallBinding
