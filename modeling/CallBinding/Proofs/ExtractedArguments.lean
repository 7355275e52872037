import CallBinding.Proofs.ArgumentGroups
import CallBinding.Proofs.KeySpelling
import CallBinding.Proofs.OutcomeCoherence

/-!
What binding may presume of arguments that are read from a text. Binding takes the facts of an
argument as they are stated, in any combination. The facts of an argument that is read go together
(`ArgumentFacts.Consistent`): a hash is a literal, only a hash has labels and splats, and a label
ends in a colon, in whichever of its spellings the key was written and whatever was left of its text
when it was decoded.

So the two ways in which names are taken from labels agree on such an argument: it passes a declared
keyword exactly under the label of its declaration. And an argument with entries of a hash is never
turned down for not being one.
-/

set_option autoImplicit false
set_option relaxedAutoImplicit false

namespace CallBinding

/-! ### Labels -/

theorem getLast?_append_colon (text : String) : (text ++ ":").toList.getLast? = some ':' := by
  rw [String.toList_append]
  exact List.getLast?_concat

/-- A label ends in the colon that is put behind its name, in all four spellings. -/
theorem Source.getLast?_pairLabel? {src : Source} {pair : Node} {label : String}
    (h : src.pairLabel? pair = some label) : label.toList.getLast? = some ':' := by
  unfold pairLabel? at h
  cases hkey : pair.child? "key" with
  | none =>
    rw [hkey] at h
    exact absurd h nofun
  | some key =>
    simp only [hkey] at h
    split_ifs at h with hsymbol hsimple hquoted
    · injection h with h
      rw [← h]
      exact getLast?_append_colon _
    · injection h with h
      rw [← h]
      exact getLast?_append_colon _
    · obtain ⟨name, -, rfl⟩ := Option.map_eq_some_iff.mp h
      exact getLast?_append_colon name

/-! ### Facts that go together -/

/-- The facts of an argument go together: a hash is a literal, what has labels or splats another
value is a hash, and labels end in a colon. -/
structure ArgumentFacts.Consistent (arg : ArgumentFacts) : Prop where
  isLiteral : arg.isHash = true → arg.isLiteral = true
  isHash : arg.labels ≠ [] ∨ arg.hasSplat = true → arg.isHash = true
  colon_labels : ∀ label ∈ arg.labels, label.toList.getLast? = some ':'

namespace Argument

variable {a : Argument}

theorem isHash_of_mem_entries {e : Node} (h : e ∈ a.entries) : a.isHash = true := by
  unfold entries at h
  split_ifs at h with himplicit hhash
  · simp [isHash, kind, himplicit]
  · exact hhash
  · exact absurd h List.not_mem_nil

theorem consistent_facts (src : Source) (a : Argument) : (a.facts src).Consistent where
  isLiteral := isLiteral_of_isHash
  isHash := by
    rintro (hlabels | hsplat)
    · obtain ⟨label, hlabel⟩ := List.exists_mem_of_ne_nil _ hlabels
      obtain ⟨e, he, -⟩ := List.mem_filterMap.mp hlabel
      exact isHash_of_mem_entries (List.mem_filter.mp he).1
    · obtain ⟨e, he, -⟩ := List.any_eq_true.mp hsplat
      exact isHash_of_mem_entries he
  colon_labels := by
    intro label hlabel
    obtain ⟨e, -, he⟩ := List.mem_filterMap.mp hlabel
    exact Source.getLast?_pairLabel? he

end Argument

/-- Bare keywords form the last argument. -/
theorem implicitHash_of_mem_dropLast {entries : List Node} {a : Argument}
    (h : a ∈ (groupArguments entries).dropLast) : a.implicitHash = false := by
  rw [Argument.groupArguments_eq] at h
  have hsingle : a ∈ (entries.filter fun e ↦ e.IsPositional).map Argument.single := by
    cases hkeywords : Argument.ofNodes? true (entries.filter fun e ↦ e.IsKeyword) with
    | none =>
      rw [hkeywords, Option.toList_none, List.append_nil] at h
      exact List.dropLast_subset _ h
    | some hash =>
      rw [hkeywords, Option.toList_some, List.dropLast_concat] at h
      exact h
  obtain ⟨e, -, rfl⟩ := List.mem_map.mp hsingle
  rfl

/-! ### What binding makes of them -/

/-- Only for a literal that is no hash does an outcome say that the keywords should be one. -/
theorem Params.Answers.exists_literal {p : Params} {last : Option ArgumentFacts} {o : Outcome}
    (h : p.Answers last o) (hreason : o.reason = some .keywordsNotHash) :
    ∃ arg, last = some arg ∧ arg.isLiteral = true ∧ arg.isHash = false := by
  cases h with
  | literal arg hlast hhash hliteral => exact ⟨arg, hlast, hliteral, hhash⟩
  | _ => exact absurd hreason nofun

namespace ArgumentFacts.Consistent

variable {arg : ArgumentFacts}

/-- A declared keyword is among the names of an argument exactly when its label is among the
labels. -/
theorem name_mem_receivedNames_iff (h : arg.Consistent) (k : KeywordParam) :
    k.name ∈ Params.receivedNames arg ↔ k.label ∈ arg.labels := by
  rw [Params.mem_receivedNames, arg.names_iff h.colon_labels]

/-- An argument with entries of a hash is not turned down for not being one. -/
theorem reason_ne_keywordsNotHash (h : arg.Consistent)
    (hentries : arg.labels ≠ [] ∨ arg.hasSplat = true) {p : Params} {o : Outcome}
    (ho : p.Answers (some arg) o) : o.reason ≠ some .keywordsNotHash := by
  intro hreason
  obtain ⟨_, hlast, -, hvalue⟩ := ho.exists_literal hreason
  injection hlast with hlast
  rw [← hlast] at hvalue
  exact absurd ((h.isHash hentries).symm.trans hvalue) (by decide)

end ArgumentFacts.Consistent

namespace Node

/-- The arguments of every call, in every text, suit what binding presumes of arguments: their facts
go together, and none before the last is a hash of bare keywords. So one of them names a declared
keyword exactly when it has its label. And if one has labels or splats another value, neither the
check of the hash nor a call that ends in it answers that the keywords should be a hash. -/
theorem arguments_suit_binding (src : Source) (call : Node) :
    (∀ a ∈ call.arguments, (a.facts src).Consistent) ∧
    (∀ a ∈ call.arguments.dropLast, a.implicitHash = false) ∧
    (∀ a ∈ call.arguments, ∀ p : Params, ∀ k ∈ p.keyword,
      k.name ∈ Params.receivedNames (a.facts src) ↔ k.label ∈ a.labels src) ∧
    ∀ a ∈ call.arguments, a.labels src ≠ [] ∨ a.hasSplat = true →
      (∀ p : Params, (p.checkKeywordHash (some (a.facts src))).reason ≠ some .keywordsNotHash) ∧
      ∀ (d : MethodDef) (name : String) (args : List ArgumentFacts),
        args.getLast? = some (a.facts src) →
          (d.bind name args).reason ≠ some .keywordsNotHash := by
  refine ⟨fun a _ ↦ a.consistent_facts src, ?front, ?names, ?hash⟩
  case front =>
    rw [arguments_eq_groupArguments]
    exact fun a ↦ implicitHash_of_mem_dropLast
  case names =>
    exact fun a _ _ k _ ↦ (a.consistent_facts src).name_mem_receivedNames_iff k
  case hash =>
    intro a _ hentries
    have hfacts := a.consistent_facts src
    refine ⟨fun p ↦ hfacts.reason_ne_keywordsNotHash hentries (p.answers_checkKeywordHash _), ?_⟩
    intro d name args hlast
    have hanswers := (d.bindRule_bind name args).answers
    rw [hlast] at hanswers
    exact hfacts.reason_ne_keywordsNotHash hentries hanswers

end Node

namespace MixedEntries

/-- The hash among the arguments of the call. -/
def hash : Argument :=
  ⟨pair, [splat], true⟩

end MixedEntries

open MixedEntries

/-- The number goes first and is no hash of keywords. The hash goes last, names the keyword that is
declared, and is not turned down by a method that has to be called with one. -/
theorem Node.arguments_suit_binding_of_mixed_entries :
    whole.arguments = [.single two, hash] ∧ (Argument.single two).implicitHash = false ∧
      (hash.facts text).Consistent ∧ hash.labels text = ["k:"] ∧
      "k" ∈ Params.receivedNames (hash.facts text) ∧
      (MethodDef.bind ⟨"f", { normal := ["a"], keyword := [⟨"k:", false, rfl⟩] }, "def f(a, k:)"⟩
        "f" (whole.arguments.map (Argument.facts text))).reason ≠ some .keywordsNotHash := by
  obtain ⟨hconsistent, hfront, hnames, hhash⟩ := Node.arguments_suit_binding text whole
  have hmem : hash ∈ whole.arguments := List.mem_cons_of_mem _ List.mem_cons_self
  have hlabels : hash.labels text = ["k:"] := by decide +kernel
  have hlabel : "k:" ∈ hash.labels text := by
    rw [hlabels]
    exact List.mem_cons_self
  refine ⟨rfl, hfront (.single two) List.mem_cons_self, hconsistent hash hmem, hlabels, ?_, ?_⟩
  · exact (hnames hash hmem { keyword := [⟨"k:", false, rfl⟩] } _ List.mem_cons_self).mpr hlabel
  · exact (hhash hash hmem (.inr rfl)).2 _ "f" _ rfl

end CallBinding
