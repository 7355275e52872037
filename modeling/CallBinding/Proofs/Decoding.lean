import CallBinding.Proofs.AskedArguments
import CallBinding.Report
import Mathlib.Tactic.Choose

/-!
Reading a text that may fail to be decoded. What is read of an encoded text is what is there in the
text as far as it can be decoded (`Encoded.source`), unless some span cannot be decoded and the
reading fails for it (`Encoded.Reads`). One rule for each way to put readings together carries this
from spans to labels, to the calls of the text (`reads_callSites`), and to the report on them
(`MethodDef.reads_check`). So a text of which all spans can be decoded is read in full, and what is
shown of sources holds of it.

A definition has faults of its own besides, and only what is built is compared: a definition that is
built from an encoded text is the one that the source of the text declares
(`MethodDef.exists_source_of_build`).
-/

set_option autoImplicit false
set_option relaxedAutoImplicit false

namespace CallBinding

namespace Encoded

/-- A reading of an encoded text gives a value, or it fails as the decoding of some span does. -/
inductive Reads (e : Encoded) {α : Type} : Except Failure α → α → Prop
  | ok (a : α) : Reads e (.ok a) a
  | failed {start stop : Nat} {f : Failure} (h : e.span start stop = .error f) (a : α) :
      Reads e (.error f) a

namespace Reads

variable {e : Encoded} {α β : Type} {x : Except Failure α} {a : α}

theorem eq_of_ok {b : α} (h : e.Reads (.ok b) a) : b = a := by
  cases h with
  | ok => rfl

/-- A reading succeeds unless some span cannot be decoded. -/
theorem ok_or_failed (h : e.Reads x a) :
    x = .ok a ∨ ∃ start stop f, e.span start stop = .error f ∧ x = .error f := by
  cases h with
  | ok => exact Or.inl rfl
  | @failed start stop f hspan => exact Or.inr ⟨start, stop, f, hspan, rfl⟩

theorem bind {f : α → Except Failure β} {b : β} (h : e.Reads x a) (hf : e.Reads (f a) b) :
    e.Reads (x >>= f) b := by
  cases h with
  | ok => exact hf
  | failed hspan => exact .failed hspan b

theorem map (h : e.Reads x a) (f : α → β) : e.Reads (x >>= fun a ↦ return f a) (f a) :=
  h.bind (.ok _)

theorem mapM {f : α → Except Failure β} {g : α → β} {as : List α}
    (h : ∀ a ∈ as, e.Reads (f a) (g a)) : e.Reads (as.mapM f) (as.map g) := by
  induction as with
  | nil => exact .ok _
  | cons a rest ih =>
    rw [List.mapM_cons]
    exact (h a (List.mem_cons_self ..)).bind
      ((ih fun b hb ↦ h b (List.mem_cons_of_mem _ hb)).map _)

theorem anyM {f : α → Except Failure Bool} {g : α → Bool} {as : List α}
    (h : ∀ a ∈ as, e.Reads (f a) (g a)) : e.Reads (as.anyM f) (as.any g) := by
  induction as with
  | nil => exact .ok _
  | cons a rest ih =>
    rw [List.anyM, List.any_cons]
    refine (h a (List.mem_cons_self ..)).bind ?_
    cases g a with
    | true => exact .ok _
    | false => exact ih fun b hb ↦ h b (List.mem_cons_of_mem _ hb)

end Reads

variable (e : Encoded)

/-! ### Texts and labels -/

theorem reads_span (start stop : Nat) : e.Reads (e.span start stop) (e.source.span start stop) := by
  have hsource : e.source.span start stop = (e.span start stop).toOption.getD "" := rfl
  rw [hsource]
  cases h : e.span start stop with
  | ok text => exact .ok text
  | error f => exact .failed h _

theorem reads_text (n : Node) : e.Reads (e.text n) (e.source.text n) :=
  e.reads_span n.start n.stop

/-- Content is read up to the first node that is none. -/
theorem reads_contentParts (nodes : List Node) : e.Reads (e.contentParts nodes)
    (if nodes.all fun c ↦ c.kind = "string_content" then some (nodes.map e.source.text)
      else none) := by
  induction nodes with
  | nil => exact .ok _
  | cons c rest ih =>
    rw [contentParts, List.all_cons]
    by_cases hkind : c.kind = "string_content"
    · rw [if_pos hkind, decide_eq_true hkind, Bool.true_and]
      have hmore := ih.map fun more ↦ more.map (e.source.text c :: ·)
      refine (e.reads_text c).bind ?_
      cases hall : rest.all fun c ↦ c.kind = "string_content" with
      | true =>
        rw [hall] at hmore
        exact hmore
      | false =>
        rw [hall] at hmore
        exact hmore
    · rw [if_neg hkind, decide_eq_false hkind, Bool.false_and, if_neg Bool.false_ne_true]
      exact .ok _

theorem reads_quotedText? (n : Node) : e.Reads (e.quotedText? n) (e.source.quotedText? n) := by
  have hparts := (e.reads_contentParts n.namedChildren).map (Option.map String.join)
  unfold Source.quotedText?
  cases hall : n.namedChildren.all fun c ↦ c.kind = "string_content" with
  | true =>
    rw [hall] at hparts
    exact hparts
  | false =>
    rw [hall] at hparts
    exact hparts

theorem reads_pairLabel? (pair : Node) :
    e.Reads (e.pairLabel? pair) (e.source.pairLabel? pair) := by
  unfold pairLabel? Source.pairLabel?
  cases pair.child? "key" with
  | none => exact .ok none
  | some key =>
    refine (e.reads_text key).bind ?_
    dsimp only
    split_ifs
    · exact .ok _
    · exact .ok _
    · exact (e.reads_quotedText? key).map _
    · exact .ok _

end Encoded

/-! ### Names in scope -/

/-- A search finds something when one of the nodes that it meets is found. -/
theorem Node.search_eq_any_met (skips found : Node → Bool) (stack : List Node) :
    search skips found stack = (met skips stack).any found := by
  fun_induction met skips stack with
  | case1 => rw [search, List.any_nil]
  | case2 n stack hskips ih => rw [search, if_pos hskips, ih]
  | case3 n stack hskips ih => rw [search, if_neg hskips, ih, List.any_cons]

namespace Encoded

variable (e : Encoded) (name : String)

theorem reads_mentions (n : Node) : e.Reads (e.mentions name n) (n.mentions e.source name) := by
  have hnames : e.Reads
      (((Node.met (fun _ ↦ false) [n]).filter fun m ↦ m.kind = "identifier").mapM e.text)
      (((Node.met (fun _ ↦ false) [n]).filter fun m ↦ m.kind = "identifier").map e.source.text) :=
    Reads.mapM fun m _ ↦ e.reads_text m
  have hmentions : n.mentions e.source name =
      (((Node.met (fun _ ↦ false) [n]).filter fun m ↦ m.kind = "identifier").map
        e.source.text).contains name := by
    rw [Node.mentions, Node.search_eq_any_met, Bool.eq_iff_iff]
    simp only [List.any_eq_true, List.contains_iff_mem, List.mem_map, List.mem_filter,
      Bool.and_eq_true, decide_eq_true_eq, and_assoc]
  rw [hmentions]
  exact hnames.map fun names ↦ names.contains name

theorem reads_mentionsIn (role : String) (n : Node) :
    e.Reads (e.mentionsIn role name n) (n.mentionsIn e.source role name) := by
  unfold mentionsIn Node.mentionsIn
  cases n.child? role with
  | none => exact .ok false
  | some child => exact e.reads_mentions name child

theorem reads_assigns (limit : Nat) (n : Node) :
    e.Reads (e.assigns name limit n) (n.assigns e.source name limit) := by
  rw [Node.assigns, Node.search_eq_any_met]
  refine Reads.anyM fun m _ ↦ ?_
  cases m.isAssignment with
  | true => exact e.reads_mentionsIn name "left" m
  | false => exact .ok false

theorem reads_declares (limit : Nat) (n : Node) :
    e.Reads (e.declares name limit n) (n.declares e.source name limit) := by
  unfold declares Node.declares
  refine (e.reads_mentionsIn name "parameters" n).bind ?_
  cases n.mentionsIn e.source "parameters" name with
  | true => exact .ok true
  | false => exact e.reads_assigns name limit n

theorem reads_isBareCall (o : Occurrence) :
    e.Reads (e.isBareCall o) (o.isBareCall e.source) := by
  unfold isBareCall Occurrence.isBareCall
  cases o.node.kind = "identifier" && o.stands with
  | false => exact .ok false
  | true =>
    refine (e.reads_text o.node).bind ?_
    exact (Reads.anyM fun n _ ↦ e.reads_declares _ o.node.start n).map (! ·)

/-! ### Calls -/

theorem reads_argumentText (a : Argument) : e.Reads (e.argumentText a) (a.text e.source) :=
  e.reads_span ..

theorem reads_labels (a : Argument) : e.Reads (e.labels a) (a.labels e.source) := by
  have hlabels : a.labels e.source =
      ((a.entries.filter fun n ↦ n.kind = "pair").map e.source.pairLabel?).filterMap id := by
    rw [List.filterMap_map]
    rfl
  rw [hlabels]
  exact (Reads.mapM fun n _ ↦ e.reads_pairLabel? n).map (List.filterMap id)

theorem reads_checkAskedHash (p : Params) (a : Argument) :
    e.Reads (p.checkAskedHash (some (e.asked a)))
      (p.checkKeywordHash (some (a.facts e.source))) := by
  cases hhash : a.isHash with
  | true =>
    have hasked : p.checkAskedHash (some (e.asked a)) = e.labels a >>= fun labels ↦
        return p.checkKeywordHash (some ⟨"", a.isHash, a.isLiteral, labels, a.hasSplat⟩) := by
      simp only [Params.checkAskedHash, asked, hhash]
      rfl
    have hfacts : (a.facts e.source).isHash = true := hhash
    rw [hasked, ← p.checkKeywordHash_of_isHash hfacts]
    exact (e.reads_labels a).map _
  | false =>
    have hfacts : (a.facts e.source).isHash = false := hhash
    cases hliteral : a.isLiteral with
    | true =>
      have hliteral' : (a.facts e.source).isLiteral = true := hliteral
      simp only [Params.checkAskedHash, Params.checkKeywordHash, asked, hhash, hliteral, hfacts,
        hliteral', Bool.not_false, if_true]
      exact (e.reads_argumentText a).map Outcome.notHash
    | false =>
      have hliteral' : (a.facts e.source).isLiteral = false := hliteral
      simp only [Params.checkAskedHash, Params.checkKeywordHash, asked, hhash, hliteral, hfacts,
        hliteral', Bool.not_false, if_true, Bool.false_eq_true, if_false]
      exact .ok _

end Encoded

/-- Arguments of a text bind by their facts as far as these can be decoded. -/
theorem MethodDef.reads_bindAsked (d : MethodDef) (e : Encoded) (name : String)
    (args : List Argument) :
    e.Reads (d.bindAsked name (args.map e.asked))
      (d.bind name (args.map (Argument.facts e.source))) := by
  cases h : d.aside? name args with
  | none =>
    have hlength : (args.map (Argument.facts e.source)).length = (args.map e.asked).length := by
      simp only [List.length_map]
    rw [bindAsked_of_aside?_eq_none (by rw [aside?_map, h]; rfl) hlength]
    exact .ok _
  | some arg =>
    rw [bindAsked_of_aside? (by rw [aside?_map, h]; rfl),
      bind_of_aside? (by rw [aside?_map, h]; rfl), resume_map]
    simp only [resume_map]
    exact (e.reads_checkAskedHash d.params arg).map (d.resume args)

namespace Encoded

variable (e : Encoded)

/-- The call that a node is, before its arguments are read. -/
theorem reads_seenCall? (o : Occurrence) : ∃ c : Option SeenCall, e.Reads (e.seenCall? o) c ∧
    c.map (SeenCall.site e.source) = o.callSite? e.source := by
  unfold seenCall? Occurrence.callSite?
  split_ifs with hidentifier hbare hcall
  · refine ⟨some ⟨e.source.text o.node, [], o.node.row + 1, e.source.text o.node⟩, ?_, rfl⟩
    refine (hbare ▸ e.reads_isBareCall o).bind ?_
    exact (e.reads_text o.node).bind (.ok _)
  · refine ⟨none, ?_, rfl⟩
    rw [Bool.not_eq_true] at hbare
    exact (hbare ▸ e.reads_isBareCall o).bind (.ok none)
  · cases o.node.child? "method" with
    | none => exact ⟨none, .ok none, rfl⟩
    | some method =>
      refine ⟨some ⟨e.source.text method, o.node.arguments, o.node.row + 1,
        e.source.text o.node⟩, ?_, rfl⟩
      exact (e.reads_text method).bind ((e.reads_text o.node).bind (.ok _))
  · exact ⟨none, .ok none, rfl⟩

/-- The calls of a text, before their arguments are read. -/
theorem reads_seenCalls (t : Tree) : ∃ calls : List SeenCall, e.Reads (e.seenCalls t) calls ∧
    calls.map (SeenCall.site e.source) = t.callSites e.source := by
  choose call hreads hsite using e.reads_seenCall?
  refine ⟨(t.occurrences.map call).filterMap id,
    (Reads.mapM fun o _ ↦ hreads o).map (List.filterMap id), ?_⟩
  rw [List.map_filterMap, List.filterMap_map, Tree.callSites]
  exact congrArg (List.filterMap · t.occurrences) (funext hsite)

theorem reads_passed (a : Argument) : e.Reads (e.passed a) (a.passed e.source) :=
  (e.reads_argumentText a).bind ((e.reads_labels a).bind (.ok _))

/-- All calls of a text, with all that their arguments hold. -/
theorem reads_callSites (t : Tree) : e.Reads (e.callSites t) (t.callSites e.source) := by
  obtain ⟨calls, hreads, hsites⟩ := e.reads_seenCalls t
  rw [← hsites]
  refine hreads.bind (Reads.mapM fun call _ ↦ ?_)
  exact (Reads.mapM fun a _ ↦ e.reads_passed a).map _

end Encoded

variable {codecs : Text.Codecs} {settings : Settings} {text : String}

/-- The calls of a text are those of what can be decoded of it, unless decoding fails. -/
theorem reads_callSites (parse : Parse) {e : Encoded} (h : settings.encoded codecs text = .ok e) :
    e.Reads (callSites codecs settings parse text) ((parse e.bytes).callSites e.source) := by
  rw [callSites, h]
  exact e.reads_callSites (parse e.bytes)

namespace MethodDef

/-- The report on a text is the one on what can be decoded of it, unless decoding fails. -/
theorem reads_check (parse : Parse) (d : MethodDef) {e : Encoded}
    (h : settings.encoded codecs text = .ok e) :
    e.Reads (d.check codecs settings parse text) (Report.ofTree d e.source (parse e.bytes)) := by
  obtain ⟨calls, hreads, hsites⟩ := e.reads_seenCalls (parse e.bytes)
  have hchecks : e.Reads
      ((calls.filter fun call ↦ call.name = d.name).mapM fun call ↦ do
        return CallCheck.mk (call.site e.source) (← d.bindAsked call.name (call.args.map e.asked)))
      ((calls.filter fun call ↦ call.name = d.name).map fun call ↦
        ⟨call.site e.source, d.bind call.name (call.args.map (Argument.facts e.source))⟩) :=
    Encoded.Reads.mapM fun call _ ↦ (d.reads_bindAsked e call.name call.args).map _
  have hreport : Report.ofTree d e.source (parse e.bytes) =
      ⟨d, (calls.filter fun call ↦ call.name = d.name).map fun call ↦
        ⟨call.site e.source, d.bind call.name (call.args.map (Argument.facts e.source))⟩⟩ := by
    rw [Report.ofTree, ← hsites, List.filter_map, List.map_map]
    refine congrArg (Report.mk d) (List.map_congr_left fun call _ ↦ ?_)
    simp only [Function.comp, SeenCall.site, CallSite.argumentFacts, List.map_map]
    rfl
  rw [check, h, hreport]
  exact hreads.bind (hchecks.map (Report.mk d))

end MethodDef

/-! ### Definitions -/

/-- What one computation gives, the other gives too. -/
def Gives {ε α : Type} (x y : Except ε α) : Prop :=
  ∀ a, x = .ok a → y = .ok a

namespace Gives

variable {ε α β : Type} {x y : Except ε α}

theorem refl (x : Except ε α) : Gives x x :=
  fun _ h ↦ h

theorem bind {f g : α → Except ε β} (h : Gives x y) (hf : ∀ a, Gives (f a) (g a)) :
    Gives (x >>= f) (y >>= g) := by
  intro b hb
  obtain ⟨a, ha, hb⟩ := bind_eq_ok_iff.mp hb
  exact bind_eq_ok_iff.mpr ⟨a, h a ha, hf a b hb⟩

theorem foldlM {f g : β → α → Except ε β} (h : ∀ b a, Gives (f b a) (g b a)) (as : List α)
    (b : β) : Gives (as.foldlM f b) (as.foldlM g b) := by
  induction as generalizing b with
  | nil => exact refl _
  | cons a rest ih =>
    rw [List.foldlM_cons, List.foldlM_cons]
    exact (h b a).bind ih

end Gives

section Readers

variable {read read' : NodeReader} (hread : ∀ n, Gives (read n) (read' n))
include hread

namespace ParamsDraft

theorem gives_splatName (sign : String) (n : Node) :
    Gives (splatName read sign n) (splatName read' sign n) := by
  unfold splatName
  cases n.child? "name" with
  | none => exact .refl _
  | some name => exact hread name

theorem gives_addOptional (d : ParamsDraft) (n : Node) :
    Gives (d.addOptional read n) (d.addOptional read' n) := by
  unfold addOptional
  split
  · exact (hread _).bind fun name ↦ (hread _).bind fun value ↦ .refl _
  · exact .refl _

theorem gives_addKeyword (d : ParamsDraft) (n : Node) :
    Gives (d.addKeyword read n) (d.addKeyword read' n) := by
  unfold addKeyword
  split
  · exact .refl _
  · exact (hread _).bind fun name ↦ .refl _

theorem gives_add (d : ParamsDraft) (n : Node) : Gives (d.add read n) (d.add read' n) := by
  unfold add
  split
  · exact (hread n).bind fun text ↦ .refl _
  · exact (hread n).bind fun text ↦ .refl _
  · exact gives_addOptional hread d n
  · exact (gives_splatName hread "*" n).bind fun text ↦ .refl _
  · exact gives_addKeyword hread d n
  · exact (gives_splatName hread "**" n).bind fun text ↦ .refl _
  · exact .refl _
  · exact .refl _

end ParamsDraft

theorem Node.gives_definitionName (n : Node) :
    Gives (n.definitionName read) (n.definitionName read') := by
  unfold definitionName
  cases n.child? "name" with
  | none => exact .refl _
  | some name => exact hread name

theorem Params.gives_readNodes (nodes : List Node) :
    Gives (readNodes read nodes) (readNodes read' nodes) :=
  (Gives.foldlM (ParamsDraft.gives_add hread) nodes {}).bind fun _ ↦ .refl _

end Readers

theorem Encoded.gives_reader (e : Encoded) (n : Node) : Gives (e.reader n) (e.source.reader n) := by
  intro text h
  have hreads := e.reads_text n
  rw [mapError_eq_ok_iff.mp h] at hreads
  exact congrArg Except.ok hreads.eq_of_ok.symm

namespace MethodDef

/-- A definition that is built is built from what can be decoded of the closed text. -/
theorem exists_source_of_build {parse : Parse} {d : MethodDef}
    (h : build codecs settings parse text = .ok d) :
    ∃ e definition, settings.encoded codecs (text ++ settings.terminator) = .ok e ∧
      (parse e.bytes).definition = .ok definition ∧
        definition.definitionName e.source.reader = .ok d.name ∧
          Params.ofNodes e.source definition.parameterNodes = .ok d.params := by
  obtain ⟨e, definition, he, hdefinition, hname, hparams⟩ :=
    read_eq_ok_iff.mp (build_eq_ok_iff.mp h).1
  exact ⟨e, definition, he, hdefinition, definition.gives_definitionName e.gives_reader _ hname,
    Params.gives_readNodes e.gives_reader _ _ hparams⟩

end MethodDef

end CallBinding
