import CallBinding.Proofs.BindingRules
import CallBinding.Proofs.BrokenCalls

/-!
The two spellings of a keyword hash. A call passes keywords bare, `f(a, k: 1)`, or between braces,
`f(a, {k: 1})`. Bare keywords are gathered into a hash that is made of several nodes, the braced
hash is one node with its entries below it, and the text of the two differs. Binding never reports
the text of a hash, so nothing tells the spellings apart: `bind_concat_congr` is the rule for one
pair of hashes at the end of a call, and `bare_and_braced_bind_alike` the one for calls.
-/

set_option autoImplicit false
set_option relaxedAutoImplicit false

namespace CallBinding

/-! ### Hashes that bind alike -/

/-- Two hashes agree on all that binding looks at in a hash, which is everything but their text. -/
structure ArgumentFacts.SameHash (a b : ArgumentFacts) : Prop where
  isHash_left : a.isHash = true
  isHash_right : b.isHash = true
  isLiteral_eq : a.isLiteral = b.isLiteral
  labels_eq : a.labels = b.labels
  hasSplat_eq : a.hasSplat = b.hasSplat

namespace Params

variable {p : Params} {a b : ArgumentFacts} {args args' : List ArgumentFacts}

/-- The tail is bound by counting, so arguments of one number are bound alike. -/
theorem bindTail_congr (h : args.length = args'.length) : p.bindTail args = p.bindTail args' := by
  simp only [bindTail, h]

theorem checkKeywordHash_congr (h : a.SameHash b) :
    p.checkKeywordHash (some a) = p.checkKeywordHash (some b) := by
  have hnames : receivedNames a = receivedNames b := by
    rw [receivedNames, receivedNames, h.labels_eq]
  have hmissing : p.missingKeywords a = p.missingKeywords b := by
    rw [missingKeywords, missingKeywords, hnames]
  have hunexpected : p.unexpectedKeywords a = p.unexpectedKeywords b := by
    rw [unexpectedKeywords, unexpectedKeywords, hnames]
  simp only [checkKeywordHash, h.isHash_left, h.isHash_right, h.hasSplat_eq, hmissing, hunexpected,
    Bool.not_true, Bool.false_eq_true, if_false]

theorem bindWithHash_concat_congr (h : a.SameHash b) :
    p.bindWithHash (args ++ [a]) = p.bindWithHash (args ++ [b]) := by
  rw [bindWithHash_concat, bindWithHash_concat, checkKeywordHash_congr h]

theorem bindRemaining_concat_congr (h : a.SameHash b) :
    p.bindRemaining (args ++ [a]) = p.bindRemaining (args ++ [b]) := by
  have htail : p.bindTail (args ++ [a]) = p.bindTail (args ++ [b]) :=
    bindTail_congr (by simp only [List.length_append, List.length_singleton])
  rw [bindRemaining, bindRemaining, bindWithHash_concat_congr h, htail]

end Params

/-- A call that ends in a hash is bound as any other call that ends in a hash which agrees with it,
whatever comes before. -/
theorem MethodDef.bind_concat_congr (d : MethodDef) (name : String) (args : List ArgumentFacts)
    {a b : ArgumentFacts} (h : a.SameHash b) :
    d.bind name (args ++ [a]) = d.bind name (args ++ [b]) := by
  have hlength : (args ++ [a]).length = (args ++ [b]).length := by
    simp only [List.length_append, List.length_singleton]
  have hrest : d.params.bindRemaining ((args ++ [a]).drop d.params.normal.length) =
      d.params.bindRemaining ((args ++ [b]).drop d.params.normal.length) := by
    by_cases hfront : d.params.normal.length ≤ args.length
    · rw [List.drop_append_of_le_length hfront, List.drop_append_of_le_length hfront]
      exact Params.bindRemaining_concat_congr h
    · -- the hash itself fills a normal slot, and nothing is left over
      have hall : (args ++ [a]).length ≤ d.params.normal.length := by
        rw [List.length_append, List.length_singleton]
        omega
      rw [List.drop_eq_nil_of_le hall, List.drop_eq_nil_of_le (hlength ▸ hall)]
  simp only [bind, hlength, hrest]

/-! ### Bare and braced keywords -/

namespace Node

/-- The entries of an argument list or of a hash, without comments and block arguments. -/
def passing (list : Node) : List Node :=
  list.namedChildren.filter fun e ↦ e.kind ∉ passedOverKinds

/-- A call passes some nodes and behind them bare entries of a hash: `f(front, entries)`. -/
def PassesBare (call : Node) (front entries : List Node) : Prop :=
  ∃ list, call.child? "arguments" = some list ∧ list.passing = front ++ entries

/-- A call passes some nodes and behind them a hash of entries: `f(front, {entries})`. -/
def PassesBraced (call : Node) (front entries : List Node) : Prop :=
  ∃ list hash, call.child? "arguments" = some list ∧ list.passing = front ++ [hash] ∧
    hash.kind = "hash" ∧ hash.passing = entries

theorem IsKeyword.not_passedOver {e : Node} (h : e.IsKeyword) : e.kind ∉ passedOverKinds := by
  have hdisjoint : ∀ kind ∈ keywordKinds, kind ∉ passedOverKinds := by decide
  exact hdisjoint _ h

theorem filter_isPositional (entries : List Node) :
    (entries.filter fun e ↦ e.IsPositional) =
      (entries.filter fun e ↦ e.kind ∉ passedOverKinds).filter fun e ↦ e.IsPositional := by
  rw [List.filter_filter]
  refine List.filter_congr fun e _ ↦ ?_
  by_cases h : e.IsPositional
  · simp [h, h.1]
  · simp [h]

theorem filter_isKeyword (entries : List Node) :
    (entries.filter fun e ↦ e.IsKeyword) =
      (entries.filter fun e ↦ e.kind ∉ passedOverKinds).filter fun e ↦ e.IsKeyword := by
  rw [List.filter_filter]
  refine List.filter_congr fun e _ ↦ ?_
  by_cases h : e.IsKeyword
  · simp [h, h.not_passedOver]
  · simp [h]

variable {call : Node} {front : List Node}

/-- Bare keywords are passed as one hash of all their nodes. -/
theorem arguments_of_passesBare {first : Node} {more : List Node}
    (hfront : ∀ e ∈ front, e.IsPositional) (hentries : ∀ e ∈ first :: more, e.IsKeyword)
    (h : call.PassesBare front (first :: more)) :
    call.arguments = front.map (fun e ↦ ⟨e, [], false⟩) ++ [⟨first, more, true⟩] := by
  obtain ⟨list, hlist, hpassing⟩ := h
  have hnoKeyword : ∀ e ∈ front, ¬ e.IsKeyword := fun e he ↦ (hfront e he).2
  have hnoPositional : ∀ e ∈ first :: more, ¬ e.IsPositional := fun e he h ↦ h.2 (hentries e he)
  have hpositional : (list.namedChildren.filter fun e ↦ e.IsPositional) = front := by
    rw [filter_isPositional, ← passing, hpassing, List.filter_append,
      List.filter_eq_self.mpr (by simpa),
      List.filter_eq_nil_iff.mpr (by simpa using hnoPositional), List.append_nil]
  have hkeyword : (list.namedChildren.filter fun e ↦ e.IsKeyword) = first :: more := by
    rw [filter_isKeyword, ← passing, hpassing, List.filter_append,
      List.filter_eq_nil_iff.mpr (by simpa using hnoKeyword),
      List.filter_eq_self.mpr (by simpa using hentries), List.nil_append]
  rw [arguments_eq_passedArguments, passedArguments, hlist]
  simp only [hpositional, hkeyword]

/-- A braced hash is passed as it stands. -/
theorem arguments_of_passesBraced {entries : List Node} (hfront : ∀ e ∈ front, e.IsPositional)
    (h : call.PassesBraced front entries) :
    ∃ hash, call.arguments = front.map (fun e ↦ ⟨e, [], false⟩) ++ [⟨hash, [], false⟩] ∧
      hash.kind = "hash" ∧ hash.passing = entries := by
  obtain ⟨list, hash, hlist, hpassing, hkind, hentries⟩ := h
  have hall : ∀ e ∈ front ++ [hash], e.IsPositional := by
    intro e he
    rcases List.mem_append.mp he with he | he
    · exact hfront e he
    · rw [List.mem_singleton.mp he, IsPositional, hkind]
      decide
  have hpositional : (list.namedChildren.filter fun e ↦ e.IsPositional) = front ++ [hash] := by
    rw [filter_isPositional, ← passing, hpassing, List.filter_eq_self.mpr (by simpa using hall)]
  have hkeyword : (list.namedChildren.filter fun e ↦ e.IsKeyword) = [] := by
    have hnone : ∀ e ∈ front ++ [hash], ¬ e.IsKeyword := fun e he ↦ (hall e he).2
    rw [filter_isKeyword, ← passing, hpassing, List.filter_eq_nil_iff.mpr (by simpa using hnone)]
  refine ⟨hash, ?_, hkind, hentries⟩
  rw [arguments_eq_passedArguments, passedArguments, hlist]
  simp only [hpositional, hkeyword, List.append_nil, List.map_append, List.map_cons, List.map_nil]

end Node

namespace Argument

variable {a b : Argument}

/-- The labels and the splats of a hash are those of its keyword entries. -/
theorem labels_eq_and_hasSplat_eq (src : Source)
    (h : (a.entries.filter fun e ↦ e.IsKeyword) = b.entries.filter fun e ↦ e.IsKeyword) :
    a.labels src = b.labels src ∧ a.hasSplat = b.hasSplat := by
  have hpairs (c : Argument) : (c.entries.filter fun e ↦ e.kind = "pair") =
      (c.entries.filter fun e ↦ e.IsKeyword).filter fun e ↦ e.kind = "pair" := by
    rw [List.filter_filter]
    refine List.filter_congr fun e _ ↦ ?_
    by_cases hpair : e.kind = "pair"
    · simp [hpair, Node.IsKeyword, keywordKinds]
    · simp [hpair]
  have hsplats (c : Argument) : c.hasSplat =
      (c.entries.filter fun e ↦ e.IsKeyword).any fun e ↦ e.kind = "hash_splat_argument" := by
    rw [List.any_filter, hasSplat]
    congr 1
    funext e
    by_cases hsplat : e.kind = "hash_splat_argument"
    · simp [hsplat, Node.IsKeyword, keywordKinds]
    · simp [hsplat]
  rw [labels, labels, hpairs a, hpairs b, hsplats a, hsplats b, h]
  exact ⟨rfl, rfl⟩

/-- The hash that bare keywords form and the braced hash of the same entries agree. -/
theorem sameHash_facts (src : Source) {first hash : Node} {more : List Node}
    (hkind : hash.kind = "hash") (hentries : hash.passing = first :: more) :
    (Argument.facts src ⟨first, more, true⟩).SameHash (Argument.facts src ⟨hash, [], false⟩) := by
  have hbraced : Argument.isHash ⟨hash, [], false⟩ = true := by
    simp [isHash, kind, hkind]
  have hliteral : Argument.isLiteral ⟨hash, [], false⟩ = true := by
    simp [isLiteral, Node.isLiteral, literalKinds, hkind]
  have hsame : ((Argument.mk first more true).entries.filter fun e ↦ e.IsKeyword) =
      (Argument.mk hash [] false).entries.filter fun e ↦ e.IsKeyword := by
    simp only [entries, hbraced, if_true, Bool.false_eq_true, if_false, nodes]
    rw [Node.filter_isKeyword hash.namedChildren, ← Node.passing, hentries]
  obtain ⟨hlabels, hsplat⟩ := labels_eq_and_hasSplat_eq src hsame
  exact ⟨rfl, hbraced, hliteral.symm, hlabels, hsplat⟩

end Argument

/-- Bare keywords and a braced hash are interchangeable: the arguments of the two calls are as many,
they are the same but for the last ones, which agree on all facts but their text, and every method
binds the two calls with one outcome. -/
theorem Node.bare_and_braced_bind_alike (src : Source) (bare braced : Node)
    (front entries : List Node) (hfront : ∀ e ∈ front, e.IsPositional)
    (hentries : ∀ e ∈ entries, e.IsKeyword) (hnonempty : entries ≠ [])
    (hbare : bare.PassesBare front entries) (hbraced : braced.PassesBraced front entries) :
    (∃ positional bareHash bracedHash, bare.arguments = positional ++ [bareHash] ∧
      braced.arguments = positional ++ [bracedHash] ∧
      (bareHash.facts src).SameHash (bracedHash.facts src)) ∧
    ∀ (d : MethodDef) (name : String),
      d.bind name (bare.arguments.map (Argument.facts src)) =
        d.bind name (braced.arguments.map (Argument.facts src)) := by
  obtain ⟨first, more, rfl⟩ := List.exists_cons_of_ne_nil hnonempty
  have hbareArguments := arguments_of_passesBare hfront hentries hbare
  obtain ⟨hash, hbracedArguments, hkind, hpassing⟩ := arguments_of_passesBraced hfront hbraced
  have hsame := Argument.sameHash_facts src hkind hpassing
  refine ⟨⟨_, _, _, hbareArguments, hbracedArguments, hsame⟩, fun d name ↦ ?_⟩
  rw [hbareArguments, hbracedArguments, List.map_append, List.map_append]
  exact d.bind_concat_congr name _ hsame

/-! ### One call in both spellings -/

namespace SpelledCall

/-- The text of the call in braces. The bare call is read off the same entries. -/
def text : Source :=
  Text.Codec.utf8.source "f(1, {k: 2, **o})".toUTF8.toList

def one : Node :=
  { kind := "integer", start := 2, stop := 3 }

def entries : List Node :=
  [{ kind := "pair"
     start := 6
     stop := 10
     children := [
      { kind := "hash_key_symbol", role := some "key", start := 6, stop := 7 },
      { kind := ":", named := false, start := 7, stop := 8 },
      { kind := "integer", role := some "value", start := 9, stop := 10 }] },
    { kind := "hash_splat_argument", start := 12, stop := 15 }]

/-- The hash in braces, with a comment before its entries. -/
def hash : Node :=
  { kind := "hash", start := 5, stop := 16, children := { kind := "comment" } :: entries }

/-- The node of a call that passes some nodes. -/
def node (passed : List Node) : Node where
  kind := "call"
  stop := 17
  children := [
    { kind := "identifier", role := some "method", stop := 1 },
    { kind := "argument_list", role := some "arguments", start := 1, stop := 17,
      children := passed }]

/-- A method that declares another keyword. -/
def method : MethodDef :=
  ⟨"f", { normal := ["a"], keyword := [⟨"j:", true, rfl⟩] }, "def f(a, j: 1)"⟩

/-- A keyword that is not declared is reported of both spellings. -/
theorem bare_and_braced_bind_alike_of_pair_and_splat :
    (∀ e ∈ [one], e.IsPositional) ∧ (∀ e ∈ entries, e.IsKeyword) ∧ entries ≠ [] ∧
      (node (one :: entries)).PassesBare [one] entries ∧
      (node [one, hash]).PassesBraced [one] entries ∧
      method.bind "f" ((node (one :: entries)).arguments.map (Argument.facts text)) =
        .misnamed .keywordsUnexpected ["k"] ∧
      method.bind "f" ((node [one, hash]).arguments.map (Argument.facts text)) =
        .misnamed .keywordsUnexpected ["k"] := by
  have hfront : ∀ e ∈ [one], e.IsPositional := by decide
  have hentries : ∀ e ∈ entries, e.IsKeyword := by decide
  have hbare : (node (one :: entries)).PassesBare [one] entries := ⟨_, rfl, rfl⟩
  have hbraced : (node [one, hash]).PassesBraced [one] entries := ⟨_, hash, rfl, rfl, rfl, rfl⟩
  have houtcome : method.bind "f" ((node (one :: entries)).arguments.map (Argument.facts text)) =
      .misnamed .keywordsUnexpected ["k"] := by
    decide +kernel
  have halike := (Node.bare_and_braced_bind_alike text _ _ [one] entries hfront hentries nofun
    hbare hbraced).2 method "f"
  exact ⟨hfront, hentries, nofun, hbare, hbraced, houtcome, halike ▸ houtcome⟩

end SpelledCall

end CallBinding
