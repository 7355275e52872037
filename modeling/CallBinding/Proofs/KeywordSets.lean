import CallBinding.Proofs.HashSpelling
import CallBinding.Proofs.KeywordLabels
import CallBinding.Proofs.Relaxation

/-!
Keywords as sets. The keywords of a definition and the labels of a hash are lists, and binding goes
through them in order; but all that it asks of either is whether a name is among them. So an outcome
does not change with the order in which keywords are declared (`Params.reordered`), nor with the
order in which labels are passed and how often (`ArgumentFacts.SameLabels`), except that the names
it reports may be listed in another order, or more or less often (`Outcome.SameNames`).

A hash is also compared with a larger one. Passing a further keyword that is declared, no longer
passing one that is not, and splatting another value (`Params.HashEdit`) never turn a call away that
was bound, because they keep an accepted hash acceptable. The labels have to end in a colon for
this: a label without one has the name of another label.
-/

set_option autoImplicit false
set_option relaxedAutoImplicit false

namespace CallBinding

/-- Two outcomes are the same but for the order in which names of keywords are listed, and for how
often each is. -/
structure Outcome.SameNames (o o' : Outcome) : Prop where
  bindable_eq : o.bindable = o'.bindable
  reason_eq : o.reason = o'.reason
  received_eq : o.received = o'.received
  expected_eq : o.expected = o'.expected
  argument_eq : o.argument = o'.argument
  mem_keywords_iff : ∀ name, name ∈ o.keywords ↔ name ∈ o'.keywords

namespace Outcome.SameNames

variable {o o' : Outcome}

theorem refl (o : Outcome) : o.SameNames o :=
  ⟨rfl, rfl, rfl, rfl, rfl, fun _ ↦ Iff.rfl⟩

theorem misnamed (r : Reason) {names names' : List String}
    (h : ∀ name, name ∈ names ↔ name ∈ names') :
    (Outcome.misnamed r names).SameNames (.misnamed r names') :=
  ⟨rfl, rfl, rfl, rfl, rfl, h⟩

end Outcome.SameNames

/-- Two arguments pass the same labels, in any order and any number of times, and agree on all other
facts, but for the text of a hash. -/
structure ArgumentFacts.SameLabels (a b : ArgumentFacts) : Prop where
  isHash_eq : a.isHash = b.isHash
  isLiteral_eq : a.isLiteral = b.isLiteral
  hasSplat_eq : a.hasSplat = b.hasSplat
  mem_labels_iff : ∀ label, label ∈ a.labels ↔ label ∈ b.labels
  source_eq : a.isHash = false → a.source = b.source

theorem ArgumentFacts.SameLabels.names_iff {a b : ArgumentFacts} (h : a.SameLabels b)
    (name : String) : a.Names name ↔ b.Names name :=
  exists_congr fun label ↦ and_congr_left fun _ ↦ h.mem_labels_iff label

/-- Two calls have equally many arguments, and their last ones pass the same labels. -/
structure SameCall (args args' : List ArgumentFacts) : Prop where
  length_eq : args.length = args'.length
  last : Option.Rel ArgumentFacts.SameLabels args.getLast? args'.getLast?

theorem SameCall.drop {args args' : List ArgumentFacts} (h : SameCall args args') (n : Nat) :
    SameCall (args.drop n) (args'.drop n) where
  length_eq := by rw [List.length_drop, List.length_drop, h.length_eq]
  last := by
    rw [List.getLast?_drop, List.getLast?_drop, h.length_eq]
    split
    · exact .none
    · exact h.last

theorem SameCall.concat (front : List ArgumentFacts) {a b : ArgumentFacts} (h : a.SameLabels b) :
    SameCall (front ++ [a]) (front ++ [b]) where
  length_eq := by rw [List.length_append, List.length_append]; rfl
  last := by
    rw [List.getLast?_concat, List.getLast?_concat]
    exact .some h

namespace Params

variable {p : Params} {keywords : List KeywordParam} {hash hash' a b : ArgumentFacts} {o : Outcome}
  {args args' : List ArgumentFacts}

/-! ### Keywords in another order -/

/-- The parameter list with its keywords in another order. -/
def reordered (p : Params) (keywords : List KeywordParam) (h : p.keyword.Perm keywords) : Params :=
  { p with
    keyword := keywords
    labels_nodup := (h.map KeywordParam.label).nodup_iff.mp p.labels_nodup }

section Reordered

variable (h : p.keyword.Perm keywords)

theorem takesKeywords_reordered : (p.reordered keywords h).takesKeywords = p.takesKeywords := by
  rw [takesKeywords, takesKeywords, reordered, h.isEmpty_eq]

theorem requiresKeywords_reordered :
    (p.reordered keywords h).requiresKeywords = p.requiresKeywords :=
  h.symm.any_eq

theorem mem_missingKeywords_reordered_iff (hab : a.SameLabels b) (name : String) :
    name ∈ p.missingKeywords a ↔ name ∈ (p.reordered keywords h).missingKeywords b := by
  have hrequired : p.requiredKeywordNames.Perm (p.reordered keywords h).requiredKeywordNames :=
    (h.filter KeywordParam.required).map KeywordParam.name
  rw [mem_missingKeywords_iff, mem_missingKeywords_iff, hrequired.mem_iff, hab.names_iff]

theorem mem_unexpectedKeywords_reordered_iff (hab : a.SameLabels b) (name : String) :
    name ∈ p.unexpectedKeywords a ↔ name ∈ (p.reordered keywords h).unexpectedKeywords b := by
  have hdeclared : p.keywordNames.Perm (p.reordered keywords h).keywordNames :=
    h.map KeywordParam.name
  rw [mem_unexpectedKeywords_iff, mem_unexpectedKeywords_iff, hdeclared.mem_iff, hab.names_iff]

theorem HashRule.exists_sameNames (hab : a.SameLabels b) (hrule : p.HashRule a o) :
    ∃ o', (p.reordered keywords h).HashRule b o' ∧ o.SameNames o' := by
  have hmissing := mem_missingKeywords_reordered_iff h hab
  have hunexpected := mem_unexpectedKeywords_reordered_iff h hab
  have hmissing_nil :
      p.missingKeywords a = [] ↔ (p.reordered keywords h).missingKeywords b = [] := by
    simp only [List.eq_nil_iff_forall_not_mem, hmissing]
  have hunexpected_nil :
      p.unexpectedKeywords a = [] ↔ (p.reordered keywords h).unexpectedKeywords b = [] := by
    simp only [List.eq_nil_iff_forall_not_mem, hunexpected]
  cases hrule with
  | value hhash hliteral =>
    exact ⟨_, .value (hab.isHash_eq ▸ hhash) (hab.isLiteral_eq ▸ hliteral), .refl _⟩
  | literal hhash hliteral =>
    refine ⟨_, .literal (hab.isHash_eq ▸ hhash) (hab.isLiteral_eq ▸ hliteral), ?_⟩
    rw [hab.source_eq hhash]
    exact .refl _
  | missing hhash hsplat hnot =>
    exact ⟨_, .missing (hab.isHash_eq ▸ hhash) (hab.hasSplat_eq ▸ hsplat)
      (mt hmissing_nil.mpr hnot), .misnamed _ hmissing⟩
  | unexpected hhash hnone hrest hnot =>
    exact ⟨_, .unexpected (hab.isHash_eq ▸ hhash) (hnone.imp (hab.hasSplat_eq ▸ ·) hmissing_nil.mp)
      hrest (mt hunexpected_nil.mpr hnot), .misnamed _ hunexpected⟩
  | accepted hhash hnone hdeclared =>
    exact ⟨_, .accepted (hab.isHash_eq ▸ hhash) (hnone.imp (hab.hasSplat_eq ▸ ·) hmissing_nil.mp)
      (hdeclared.imp_right hunexpected_nil.mp), .refl _⟩

theorem sameNames_checkKeywordHash {last last' : Option ArgumentFacts}
    (hlast : Option.Rel ArgumentFacts.SameLabels last last') :
    (p.checkKeywordHash last).SameNames ((p.reordered keywords h).checkKeywordHash last') := by
  cases hlast with
  | none => exact .refl _
  | some hab =>
    obtain ⟨o', hrule, hsame⟩ := (p.hashRule_checkKeywordHash _).exists_sameNames h hab
    rw [hrule.checkKeywordHash_eq]
    exact hsame

theorem bindTail_reordered (hlength : args.length = args'.length) :
    (p.reordered keywords h).bindTail args' = p.bindTail args :=
  (bindTail_congr hlength : p.bindTail args = p.bindTail args').symm

theorem sameNames_bindWithHash (hcall : SameCall args args') :
    (p.bindWithHash args).SameNames ((p.reordered keywords h).bindWithHash args') := by
  have hhash := sameNames_checkKeywordHash h hcall.last
  have hlength : args.dropLast.length = args'.dropLast.length := by
    rw [List.length_dropLast, List.length_dropLast, hcall.length_eq]
  simp only [bindWithHash, ← hhash.bindable_eq, bindTail_reordered h hlength]
  split_ifs
  · exact .refl _
  · exact hhash

theorem sameNames_bindRemaining (hcall : SameCall args args') :
    (p.bindRemaining args).SameNames ((p.reordered keywords h).bindRemaining args') := by
  have hhash := sameNames_bindWithHash h hcall
  simp only [bindRemaining, requiresKeywords_reordered, takesKeywords_reordered,
    bindTail_reordered h hcall.length_eq]
  split_ifs
  · exact hhash
  · exact hhash
  · exact .refl _

end Reordered

/-! ### Hashes that ask for nothing more -/

/-- A change of a hash that a method which takes the hash does not mind: a declared label is added
at any place, one that is not declared is taken out, or another value is splatted. The text of the
hash changes with it. -/
inductive HashEdit (p : Params) : ArgumentFacts → ArgumentFacts → Prop
  | addDeclared (hash : ArgumentFacts) (source : String) (before after : List String)
      (k : KeywordParam) (hk : k ∈ p.keyword) (hsplit : hash.labels = before ++ after) :
      HashEdit p hash { hash with source := source, labels := before ++ k.label :: after }
  | dropUndeclared (hash : ArgumentFacts) (source : String) (before after : List String)
      (label : String) (hundeclared : label ∉ p.keyword.map KeywordParam.label)
      (hsplit : hash.labels = before ++ label :: after) :
      HashEdit p hash { hash with source := source, labels := before ++ after }
  | addSplat (hash : ArgumentFacts) (source : String) :
      HashEdit p hash { hash with source := source, hasSplat := true }

/-- Added labels are declared, so they end in a colon as all others do. -/
theorem HashEdit.colon_labels (h : p.HashEdit hash hash')
    (hcolon : ∀ label ∈ hash.labels, label.toList.getLast? = some ':') :
    ∀ label ∈ hash'.labels, label.toList.getLast? = some ':' := by
  cases h with
  | addDeclared source before after k hk hsplit =>
    intro label hlabel
    rw [hsplit] at hcolon
    rcases mem_insert_iff.mp hlabel with rfl | hold
    · exact k.getLast?_label
    · exact hcolon label hold
  | dropUndeclared source before after label hundeclared hsplit =>
    intro kept hkept
    rw [hsplit] at hcolon
    exact hcolon kept (mem_insert_iff.mpr (Or.inr hkept))
  | addSplat source => exact hcolon

/-- A hash that is accepted is accepted after the change. -/
theorem HashEdit.acceptsHash (h : p.HashEdit hash hash')
    (hcolon : ∀ label ∈ hash.labels, label.toList.getLast? = some ':')
    (haccepts : p.AcceptsHash hash) : p.AcceptsHash hash' := by
  cases haccepts with
  | value hhash hliteral => cases h <;> exact .value hhash hliteral
  | hash hhash hrequired hdeclared =>
    cases h with
    | addDeclared source before after k hk hsplit =>
      refine .hash hhash (hrequired.imp_right fun hnames j hj hj' ↦ ?_)
        (hdeclared.imp_right fun hknown label hlabel ↦ ?_)
      · obtain ⟨label, hlabel, hname⟩ := hnames j hj hj'
        rw [hsplit] at hlabel
        exact ⟨label, mem_insert_iff.mpr (Or.inr hlabel), hname⟩
      · rcases mem_insert_iff.mp hlabel with rfl | hold
        · exact ⟨k, hk, k.name_eq⟩
        · exact hknown label (hsplit ▸ hold)
    | dropUndeclared source before after label hundeclared hsplit =>
      refine .hash hhash (hrequired.imp_right fun hnames j hj hj' ↦ ?_)
        (hdeclared.imp_right fun hknown kept hkept ↦ ?_)
      · -- the label that passes a declared keyword is its own, which is not the one taken out
        have hlabel := (hash.names_iff hcolon j).mp (hnames j hj hj')
        rw [hsplit] at hlabel
        rcases mem_insert_iff.mp hlabel with hout | hkept
        · exact absurd (List.mem_map.mpr ⟨j, hj, hout⟩) hundeclared
        · exact ⟨j.label, hkept, j.name_eq.symm⟩
      · refine hknown kept ?_
        rw [hsplit]
        exact mem_insert_iff.mpr (Or.inr hkept)
    | addSplat source => exact .hash hhash (Or.inl rfl) hdeclared

/-- A hash that is accepted is accepted after any number of changes. -/
theorem acceptsHash_of_hashEdits (h : Relation.ReflTransGen p.HashEdit hash hash')
    (hcolon : ∀ label ∈ hash.labels, label.toList.getLast? = some ':')
    (haccepts : p.AcceptsHash hash) : p.AcceptsHash hash' := by
  have hkept : (∀ label ∈ hash'.labels, label.toList.getLast? = some ':') ∧
      p.AcceptsHash hash' := by
    induction h with
    | refl => exact ⟨hcolon, haccepts⟩
    | tail _ hlast ih => exact ⟨hlast.colon_labels ih.1, hlast.acceptsHash ih.1 ih.2⟩
  exact hkept.2

/-- Arguments that are allowed are allowed with another hash that is accepted as soon as theirs
is. -/
theorem allows_concat_of_acceptsHash {front : List ArgumentFacts}
    (haccepts : p.AcceptsHash hash → p.AcceptsHash hash')
    (h : p.arity.Allows p.AcceptsHash (front ++ [hash])) :
    p.arity.Allows p.AcceptsHash (front ++ [hash']) := by
  have hlength : (front ++ [hash]).length = (front ++ [hash']).length := by
    rw [List.length_append, List.length_append]
    rfl
  rw [arity_allows_iff] at h ⊢
  refine h.imp (fun hall ↦ hlength ▸ hall) ?_
  rintro ⟨htakes, last, hlast, haccepted, hfits⟩
  rw [List.getLast?_concat] at hlast
  injection hlast with hlast
  subst hlast
  exact ⟨htakes, hash', List.getLast?_concat, haccepts haccepted, hlength ▸ hfits⟩

end Params

namespace MethodDef

/-- The method with its keywords declared in another order. -/
def reordered (d : MethodDef) (keywords : List KeywordParam)
    (h : d.params.keyword.Perm keywords) : MethodDef :=
  { d with params := d.params.reordered keywords h }

theorem sameNames_bind (d : MethodDef) (name : String) {keywords : List KeywordParam}
    (h : d.params.keyword.Perm keywords) {args args' : List ArgumentFacts}
    (hcall : SameCall args args') :
    (d.bind name args).SameNames ((d.reordered keywords h).bind name args') := by
  have hreordered : (d.reordered keywords h).bind name args' =
      if name ≠ d.name then .failed .nameMismatch
      else if args.length < d.params.normal.length then
        .miscounted .insufficientPositional args.length d.params.normal.length
      else (d.params.reordered keywords h).bindRemaining (args'.drop d.params.normal.length) := by
    rw [hcall.length_eq]
    rfl
  rw [hreordered, bind]
  split_ifs
  · exact .refl _
  · exact .refl _
  · exact Params.sameNames_bindRemaining h (hcall.drop d.params.normal.length)

/-- Keywords are matched as sets. The order in which a method declares its keywords, and the order
in which a hash passes them and how often, make no difference to whether a call binds and to the
reason why it does not, and of the names that are reported they change the order and the number
only. A call that binds does so still when its hash passes further keywords that are declared, or
no longer passes keywords that are not, or splats another value. -/
theorem keywords_bind_as_sets (d : MethodDef) (name : String) :
    (∀ (keywords : List KeywordParam) (h : d.params.keyword.Perm keywords)
      (args args' : List ArgumentFacts), SameCall args args' →
        (d.bind name args).bindable = ((d.reordered keywords h).bind name args').bindable ∧
        (d.bind name args).SameNames ((d.reordered keywords h).bind name args')) ∧
    ∀ (front : List ArgumentFacts) (hash hash' : ArgumentFacts),
      (∀ label ∈ hash.labels, label.toList.getLast? = some ':') →
        Relation.ReflTransGen d.params.HashEdit hash hash' →
          (d.bind name (front ++ [hash])).bindable = true →
            (d.bind name (front ++ [hash'])).bindable = true := by
  refine ⟨fun keywords h args args' hcall ↦ ?_, fun front hash hash' hcolon hedits hbinds ↦ ?_⟩
  · have hsame := d.sameNames_bind name h hcall
    exact ⟨hsame.bindable_eq, hsame⟩
  · rw [bindable_bind_iff_allows, Params.usable_eq_acceptsHash] at hbinds ⊢
    exact ⟨hbinds.1, Params.allows_concat_of_acceptsHash
      (Params.acceptsHash_of_hashEdits hedits hcolon) hbinds.2⟩

end MethodDef

namespace ThreeKeywords

/-- The keywords of `def f(step: 1, to:, from:)`. -/
def reversed : List KeywordParam :=
  MethodDef.threeKeywords.params.keyword.reverse

theorem perm_reversed : MethodDef.threeKeywords.params.keyword.Perm reversed :=
  (List.reverse_perm _).symm

/-- The method of `def f(from:, to:, step: 1, **o)`. -/
def openMethod : MethodDef :=
  ⟨"f", { MethodDef.threeKeywords.params with keywordRest := some "o" },
    "def f(from:, to:, step: 1, **o)"⟩

/-- The hash in `f(x: 1, y: 2)`. -/
def strays : ArgumentFacts :=
  ⟨"x: 1, y: 2", true, true, ["x:", "y:"], false⟩

/-- The hash in `f(y: 2, x: 1, y: 2)`. -/
def repeatedStrays : ArgumentFacts :=
  ⟨"y: 2, x: 1, y: 2", true, true, ["y:", "x:", "y:"], false⟩

/-- The hash in `f(to: 1, x: 2, from: 3)`. -/
def required : ArgumentFacts :=
  ⟨"to: 1, x: 2, from: 3", true, true, ["to:", "x:", "from:"], false⟩

/-- The hash in `f(step: 4, to: 1, from: 3, **o)`. -/
def changed : ArgumentFacts :=
  ⟨"step: 4, to: 1, from: 3, **o", true, true, ["step:", "to:", "from:"], true⟩

end ThreeKeywords

open ThreeKeywords

/-- The two keywords that `f(x: 1, y: 2)` lacks are also those that `f(y: 2, x: 1, y: 2)` lacks of
the method with its keywords in the reverse order, and are listed in that order. And where other
keywords are taken, `f(to: 1, x: 2, from: 3)` still binds with `step: 4` in front, without `x: 2`,
and with `**o` at its end. -/
theorem MethodDef.keywords_bind_as_sets_of_three_keywords :
    SameCall [strays] [repeatedStrays] ∧
      threeKeywords.bind "f" [strays] = .misnamed .keywordsMissing ["from", "to"] ∧
      (threeKeywords.reordered reversed perm_reversed).bind "f" [repeatedStrays] =
        .misnamed .keywordsMissing ["to", "from"] ∧
      (threeKeywords.bind "f" [strays]).SameNames
        ((threeKeywords.reordered reversed perm_reversed).bind "f" [repeatedStrays]) ∧
      (∀ label ∈ required.labels, label.toList.getLast? = some ':') ∧
      Relation.ReflTransGen openMethod.params.HashEdit required changed ∧
      (openMethod.bind "f" [required]).bindable = true ∧
      (openMethod.bind "f" [changed]).bindable = true := by
  have hlabels (label : String) : label ∈ strays.labels ↔ label ∈ repeatedStrays.labels := by
    grind [strays, repeatedStrays]
  have hcall : SameCall [strays] [repeatedStrays] := .concat [] ⟨rfl, rfl, rfl, hlabels, nofun⟩
  have hsame := ((keywords_bind_as_sets threeKeywords "f").1 reversed perm_reversed _ _ hcall).2
  have hcolon : ∀ label ∈ required.labels, label.toList.getLast? = some ':' := by decide
  have hadd : openMethod.params.HashEdit required
      ⟨"step: 4, to: 1, x: 2, from: 3", true, true, ["step:", "to:", "x:", "from:"], false⟩ :=
    .addDeclared required _ [] ["to:", "x:", "from:"] ⟨"step:", true, rfl⟩ (by decide) rfl
  have hdrop : openMethod.params.HashEdit
      ⟨"step: 4, to: 1, x: 2, from: 3", true, true, ["step:", "to:", "x:", "from:"], false⟩
      ⟨"step: 4, to: 1, from: 3", true, true, ["step:", "to:", "from:"], false⟩ :=
    .dropUndeclared _ _ ["step:", "to:"] ["from:"] "x:" (by decide) rfl
  have hedits : Relation.ReflTransGen openMethod.params.HashEdit required changed :=
    .tail (.tail (.single hadd) hdrop) (.addSplat _ _)
  have hbinds : (openMethod.bind "f" [required]).bindable = true := by decide +kernel
  exact ⟨hcall, by decide +kernel, by decide +kernel, hsame, hcolon, hedits, hbinds,
    (keywords_bind_as_sets openMethod "f").2 [] _ _ hcolon hedits hbinds⟩

end CallBinding
