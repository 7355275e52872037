import CallBinding.Proofs.Declarations
import CallBinding.Proofs.HashSpelling
import Mathlib.Data.List.Forall2

/-!
The four spellings of a symbol key. A pair passes the keyword `k` when its key is written `k:`,
`:k =>`, `"k":` or `:"k" =>`. The spellings put their colon in different places and keep the text of
the key in different nodes, and they all give the label under which a definition declares the
keyword (`Source.pairLabel?_of_namesKey`, `Params.labels_ofNodes`). A quoted key that is no symbol,
or that holds more than plain content, gives none.

A hash in which some keys are spelled in another way is read from another text, whose spans differ,
while the entries that are left alone read as before (`Node.Alike`). `symbol_key_spellings_agree`
shows that such a hash has the same labels and that a call binds the same with it, wherever among
the arguments it stands.
-/

set_option autoImplicit false
set_option relaxedAutoImplicit false

namespace CallBinding

/-! ### Keys -/

namespace Source

/-- Nothing but plain content with a text stands between the quotes of a node. -/
def Quotes (src : Source) (n : Node) (x : String) : Prop :=
  (∀ c ∈ n.namedChildren, c.kind = "string_content") ∧
    String.join (n.namedChildren.map src.text) = x

/-- A key of a pair is the symbol with a text, in one of four spellings. -/
inductive Spells (src : Source) (pair : Node) (x : String) (key : Node) : Prop
  | word (hkind : key.kind = "hash_key_symbol") (htext : src.text key = x)
  | symbol (hkind : key.kind = "simple_symbol") (htext : src.text key = ":" ++ x)
  | quotedWord (hkind : key.kind = "string") (hcolon : ∃ c ∈ pair.children, c.kind = ":")
      (hquotes : src.Quotes key x)
  | quotedSymbol (hkind : key.kind = "delimited_symbol") (hquotes : src.Quotes key x)

/-- A pair has the symbol with a text for its key. -/
def NamesKey (src : Source) (x : String) (pair : Node) : Prop :=
  ∃ key, pair.child? "key" = some key ∧ src.Spells pair x key

/-- The key of a pair is a string that no colon follows, or it is quoted and holds more than plain
content. -/
def NamesNoKey (pair : Node) : Prop :=
  ∃ key, pair.child? "key" = some key ∧
    (key.kind = "string" ∧ (∀ c ∈ pair.children, c.kind ≠ ":") ∨
      key.kind ∈ ["string", "delimited_symbol"] ∧
        ∃ c ∈ key.namedChildren, c.kind ≠ "string_content")

variable {src : Source} {pair n : Node} {x : String}

theorem quotedText?_eq_some_iff : src.quotedText? n = some x ↔ src.Quotes n x := by
  simp [quotedText?, Quotes]

theorem quotedText?_eq_none_iff :
    src.quotedText? n = none ↔ ∃ c ∈ n.namedChildren, c.kind ≠ "string_content" := by
  simp [quotedText?]

theorem withoutTrailingColon_of_ne (hx : x.toList.getLast? ≠ some ':') :
    withoutTrailingColon x = x := by
  rw [withoutTrailingColon, if_neg hx]

theorem withoutLeadingColon_append (x : String) : withoutLeadingColon (":" ++ x) = x := by
  simp [withoutLeadingColon]

/-- Every spelling of a symbol gives one label. -/
theorem pairLabel?_of_namesKey (hx : x.toList.getLast? ≠ some ':') (h : src.NamesKey x pair) :
    src.pairLabel? pair = some (x ++ ":") := by
  obtain ⟨key, hkey, hspells⟩ := h
  rw [pairLabel?, hkey]
  cases hspells with
  | word hkind htext => simp [hkind, htext, withoutTrailingColon_of_ne hx]
  | symbol hkind htext => simp [hkind, htext, withoutLeadingColon_append]
  | quotedWord hkind hcolon hquotes =>
    simp [hkind, hcolon, quotedText?_eq_some_iff.mpr hquotes]
  | quotedSymbol hkind hquotes => simp [hkind, quotedText?_eq_some_iff.mpr hquotes]

theorem pairLabel?_of_namesNoKey (h : NamesNoKey pair) : src.pairLabel? pair = none := by
  obtain ⟨key, hkey, ⟨hkind, hcolon⟩ | ⟨hkind, hcontent⟩⟩ := h
  · have hnone : ∀ c ∈ pair.children, c.kind = ":" → src.quotedText? key = none :=
      fun c hc hkind ↦ absurd hkind (hcolon c hc)
    simpa [pairLabel?, hkey, hkind] using hnone
  · have hquoted : src.quotedText? key = none := quotedText?_eq_none_iff.mpr hcontent
    simp only [List.mem_cons, List.not_mem_nil, or_false] at hkind
    rcases hkind with hkind | hkind
    · simp [pairLabel?, hkey, hkind, hquoted]
    · simp [pairLabel?, hkey, hkind, hquoted]

end Source

/-! ### Declared labels -/

/-- The labels that the nodes of a parameter list declare. -/
def Source.declaredLabels (src : Source) (nodes : List Node) : List String :=
  (nodes.filter fun n ↦ n.kind = "keyword_parameter").filterMap fun n ↦
    (n.child? "name").map fun name ↦ src.text name ++ ":"

namespace ParamsDraft

variable {src : Source} {draft next : ParamsDraft} {n : Node}

theorem keyword_addRequired (d : ParamsDraft) (name : String) :
    (d.addRequired name).keyword = d.keyword := by
  unfold addRequired
  split_ifs <;> rfl

/-- The parameters that a node declares add the label that it declares. -/
theorem labels_foldl_put {params : List Param} (hn : src.Declares n params) :
    (params.foldl put draft).keyword.map KeywordParam.label =
      draft.keyword.map KeywordParam.label ++ src.declaredLabels [n] := by
  cases hn with
  | required hkind =>
    rw [List.foldl_cons, List.foldl_nil, put, keyword_addRequired]
    obtain hkind | hkind := Node.isRequired_iff.mp hkind
    all_goals simp [Source.declaredLabels, hkind]
  | @keyword k hkind h =>
    obtain ⟨name, hname, hlabel, -⟩ := h
    simp [put, Source.declaredLabels, hkind, hname, hlabel]
  | nothing hkind => simp [Source.declaredLabels, Node.hasSlot_eq_false_iff.mp hkind]
  | _ hkind => simp [put, Source.declaredLabels, hkind]

theorem labels_foldlM_add {nodes : List Node} (h : nodes.foldlM (add src.reader) draft = .ok next) :
    next.keyword.map KeywordParam.label =
      draft.keyword.map KeywordParam.label ++ src.declaredLabels nodes := by
  induction nodes generalizing draft with
  | nil =>
    injection h with h
    rw [← h, Source.declaredLabels, List.filter_nil, List.filterMap_nil, List.append_nil]
  | cons n rest ih =>
    rw [List.foldlM_cons] at h
    obtain ⟨middle, hfirst, hrest⟩ := bind_eq_ok_iff.mp h
    have hcons : src.declaredLabels (n :: rest) =
        src.declaredLabels [n] ++ src.declaredLabels rest := by
      rw [Source.declaredLabels, Source.declaredLabels, Source.declaredLabels,
        ← List.filterMap_append, ← List.filter_append, List.singleton_append]
    obtain ⟨params, hn, rfl⟩ := add_eq_ok_iff.mp hfirst
    rw [ih hrest, labels_foldl_put hn, hcons, List.append_assoc]

end ParamsDraft

/-- The labels of a parameter list are those that its nodes declare. -/
theorem Params.labels_ofNodes {src : Source} {nodes : List Node} {p : Params}
    (h : ofNodes src nodes = .ok p) :
    p.keyword.map KeywordParam.label = src.declaredLabels nodes := by
  obtain ⟨draft, hdraft, hfinish⟩ := bind_eq_ok_iff.mp h
  have hlabels := ParamsDraft.labels_foldlM_add hdraft
  split at hfinish
  case h_1 params hparams =>
    injection hfinish with hfinish
    unfold ParamsDraft.finish at hparams
    split_ifs at hparams
    injection hparams with hparams
    rw [← hfinish, ← hparams]
    exact hlabels
  case h_2 => exact absurd hfinish nofun

/-! ### Entries that read alike -/

/-- A node of one text reads as a node of another does: the two have one kind, one role and one
text, and so have the nodes below them. -/
inductive Node.Alike (src src' : Source) : Node → Node → Prop
  | intro {n n' : Node} (hkind : n.kind = n'.kind) (hrole : n.role = n'.role)
      (hnamed : n.named = n'.named) (htext : src.text n = src'.text n')
      (hbelow : List.Forall₂ (Alike src src') n.children n'.children) : Alike src src' n n'

/-- An entry of a hash is left alone, or it is a pair of which the key is spelled in another way. -/
inductive Node.Respelled (src src' : Source) (e e' : Node) : Prop
  | kept (halike : Node.Alike src src' e e')
  | spelled {x : String} (hx : x.toList.getLast? ≠ some ':') (hkind : e.kind = "pair")
      (hkind' : e'.kind = "pair") (hkey : src.NamesKey x e) (hkey' : src'.NamesKey x e')

theorem map_eq_map_of_forall₂ {α β γ : Type} {f : α → γ} {g : β → γ} {as : List α} {bs : List β}
    (h : List.Forall₂ (fun a b ↦ f a = g b) as bs) : as.map f = bs.map g := by
  rw [← List.forall₂_map_right_iff, ← List.forall₂_map_left_iff, List.forall₂_eq_eq_eq] at h
  exact h

theorem rel_find?_of_forall₂ {α β : Type} {R : α → β → Prop} {p : α → Bool} {q : β → Bool}
    {as : List α} {bs : List β} (hpq : ∀ a b, R a b → p a = q b) (h : List.Forall₂ R as bs) :
    Option.Rel R (as.find? p) (bs.find? q) := by
  induction h with
  | nil => exact .none
  | cons hfirst _ ih =>
    rw [List.find?_cons, List.find?_cons, hpq _ _ hfirst]
    split
    · exact .some hfirst
    · exact ih

namespace Node.Alike

variable {src src' : Source} {n n' : Node}

theorem kind_eq (h : Alike src src' n n') : n.kind = n'.kind := by
  cases h with
  | intro hkind => exact hkind

theorem text_eq (h : Alike src src' n n') : src.text n = src'.text n' := by
  cases h with
  | intro _ _ _ htext => exact htext

theorem forall₂_children (h : Alike src src' n n') :
    List.Forall₂ (Alike src src') n.children n'.children := by
  cases h with
  | intro _ _ _ _ hbelow => exact hbelow

theorem child? (h : Alike src src' n n') (role : String) :
    Option.Rel (Alike src src') (n.child? role) (n'.child? role) := by
  refine rel_find?_of_forall₂ ?_ h.forall₂_children
  intro c c' hc
  cases hc with
  | intro _ hrole => rw [hrole]

theorem namedChildren (h : Alike src src' n n') :
    List.Forall₂ (Alike src src') n.namedChildren n'.namedChildren := by
  refine List.rel_filter ?_ h.forall₂_children
  intro c c' hc
  cases hc with
  | intro _ _ hnamed =>
    show c.named = true ↔ c'.named = true
    rw [hnamed]

theorem quotedText?_eq (h : Alike src src' n n') : src.quotedText? n = src'.quotedText? n' := by
  have hkinds : n.namedChildren.map Node.kind = n'.namedChildren.map Node.kind :=
    map_eq_map_of_forall₂ (h.namedChildren.imp fun _ _ ↦ kind_eq)
  have htexts : n.namedChildren.map src.text = n'.namedChildren.map src'.text :=
    map_eq_map_of_forall₂ (h.namedChildren.imp fun _ _ ↦ text_eq)
  have hall : (n.namedChildren.all fun c ↦ c.kind = "string_content") =
      n'.namedChildren.all fun c ↦ c.kind = "string_content" := by
    have hmap (nodes : List Node) : (nodes.all fun c ↦ c.kind = "string_content") =
        (nodes.map Node.kind).all fun kind ↦ kind = "string_content" := by
      rw [List.all_map]
      rfl
    rw [hmap, hmap, hkinds]
  rw [Source.quotedText?, Source.quotedText?, hall, htexts]

/-- A pair passes the label that any pair which reads alike does. -/
theorem pairLabel?_eq (h : Alike src src' n n') : src.pairLabel? n = src'.pairLabel? n' := by
  have hcolon : (n.children.any fun c ↦ c.kind = ":") = n'.children.any fun c ↦ c.kind = ":" := by
    have hmap (nodes : List Node) : (nodes.any fun c ↦ c.kind = ":") =
        (nodes.map Node.kind).any fun kind ↦ kind = ":" := by
      rw [List.any_map]
      rfl
    rw [hmap, hmap, map_eq_map_of_forall₂ (h.forall₂_children.imp fun _ _ ↦ kind_eq)]
  have hkey := h.child? "key"
  unfold Source.pairLabel?
  generalize n.child? "key" = key at hkey ⊢
  generalize n'.child? "key" = key' at hkey ⊢
  cases hkey with
  | none => rfl
  | some hkey => simp only [hkey.kind_eq, hkey.text_eq, hkey.quotedText?_eq, hcolon]

end Node.Alike

/-! ### Hashes with keys in other spellings -/

namespace Node.Respelled

variable {src src' : Source} {e e' : Node}

theorem kind_eq (h : Respelled src src' e e') : e.kind = e'.kind := by
  cases h with
  | kept halike => exact halike.kind_eq
  | spelled _ hkind hkind' => rw [hkind, hkind']

/-- Another spelling of a key leaves the label of the pair as it is. -/
theorem pairLabel?_eq (h : Respelled src src' e e') : src.pairLabel? e = src'.pairLabel? e' := by
  cases h with
  | kept halike => exact halike.pairLabel?_eq
  | spelled hx _ _ hkey hkey' =>
    rw [Source.pairLabel?_of_namesKey hx hkey, Source.pairLabel?_of_namesKey hx hkey']

end Node.Respelled

namespace Argument

variable {src src' : Source} {a a' : Argument}

theorem isLiteral_of_isHash (h : a.isHash = true) : a.isLiteral = true := by
  cases himplicit : a.implicitHash with
  | true => simp [isLiteral, himplicit]
  | false =>
    have hkind : a.first.kind = "hash" := by simpa [isHash, kind, himplicit] using h
    simp [isLiteral, Node.isLiteral, hkind, literalKinds]

theorem labels_eq_of_respelled
    (h : List.Forall₂ (Node.Respelled src src') a.entries a'.entries) :
    a.labels src = a'.labels src' := by
  unfold labels
  generalize a.entries = entries at h ⊢
  generalize a'.entries = entries' at h ⊢
  induction h with
  | nil => rfl
  | cons hfirst _ ih =>
    rw [List.filter_cons, List.filter_cons, hfirst.kind_eq]
    split
    · rw [List.filterMap_cons, List.filterMap_cons, hfirst.pairLabel?_eq, ih]
    · exact ih

theorem hasSplat_eq_of_respelled
    (h : List.Forall₂ (Node.Respelled src src') a.entries a'.entries) :
    a.hasSplat = a'.hasSplat := by
  have hkinds : a.entries.map Node.kind = a'.entries.map Node.kind :=
    map_eq_map_of_forall₂ (h.imp fun _ _ ↦ Node.Respelled.kind_eq)
  have hsplat (b : Argument) :
      b.hasSplat = (b.entries.map Node.kind).any fun kind ↦ kind = "hash_splat_argument" := by
    rw [List.any_map]
    rfl
  rw [hsplat, hsplat, hkinds]

theorem sameHash_facts_of_respelled (ha : a.isHash = true) (ha' : a'.isHash = true)
    (h : List.Forall₂ (Node.Respelled src src') a.entries a'.entries) :
    (a.facts src).SameHash (a'.facts src') where
  isHash_left := ha
  isHash_right := ha'
  isLiteral_eq := (isLiteral_of_isHash ha).trans (isLiteral_of_isHash ha').symm
  labels_eq := labels_eq_of_respelled h
  hasSplat_eq := hasSplat_eq_of_respelled h

end Argument

/-! ### Arguments in front of the last one -/

namespace Params

variable {p : Params} {args args' : List ArgumentFacts}

theorem bindWithHash_congr (hlength : args.length = args'.length)
    (hlast : args.getLast? = args'.getLast?) : p.bindWithHash args = p.bindWithHash args' := by
  have htail : p.bindTail args.dropLast = p.bindTail args'.dropLast :=
    bindTail_congr (by rw [List.length_dropLast, List.length_dropLast, hlength])
  rw [bindWithHash, bindWithHash, hlast, htail]

theorem bindRemaining_congr (hlength : args.length = args'.length)
    (hlast : args.getLast? = args'.getLast?) : p.bindRemaining args = p.bindRemaining args' := by
  rw [bindRemaining, bindRemaining, bindWithHash_congr hlength hlast, bindTail_congr hlength]

end Params

/-- Of the arguments of a call only their number and the last one matter. -/
theorem MethodDef.bind_congr (d : MethodDef) (name : String) {args args' : List ArgumentFacts}
    (hlength : args.length = args'.length) (hlast : args.getLast? = args'.getLast?) :
    d.bind name args = d.bind name args' := by
  have hrest : d.params.bindRemaining (args.drop d.params.normal.length) =
      d.params.bindRemaining (args'.drop d.params.normal.length) := by
    refine Params.bindRemaining_congr ?_ ?_
    · rw [List.length_drop, List.length_drop, hlength]
    · rw [List.getLast?_drop, List.getLast?_drop, hlength, hlast]
  simp only [bind, hlength, hrest]

/-- Two hashes that agree bind alike at any place among the arguments of a call. -/
theorem MethodDef.bind_append_cons_congr (d : MethodDef) (name : String)
    {a b : ArgumentFacts} (h : a.SameHash b) (front back : List ArgumentFacts) :
    d.bind name (front ++ a :: back) = d.bind name (front ++ b :: back) := by
  cases back with
  | nil => exact d.bind_concat_congr name front h
  | cons c rest =>
    refine d.bind_congr name ?_ ?_
    · simp only [List.length_append, List.length_cons]
    · simp only [List.getLast?_append, List.getLast?_cons_cons]

/-- The spellings of a symbol key are one keyword. All pairs with the key `x` give the label of
`x`, which is the label of a keyword parameter with that name; a string that is no symbol and a
quoted key with other content give none; and a hash, bare or in braces, in which any of the keys
are spelled in another way has the same labels and binds alike. -/
theorem Source.symbol_key_spellings_agree :
    (∀ x : String, x.toList.getLast? ≠ some ':' →
      (∀ (src : Source) (pair : Node), src.NamesKey x pair →
        src.pairLabel? pair = some (x ++ ":")) ∧
      ∀ (src : Source) (nodes : List Node) (p : Params), Params.ofNodes src nodes = .ok p →
        ∀ n ∈ nodes, n.kind = "keyword_parameter" →
          ∀ name, n.child? "name" = some name → src.text name = x →
            ∃ k ∈ p.keyword, k.label = x ++ ":" ∧ k.name = x) ∧
    (∀ (src : Source) (pair : Node), NamesNoKey pair → src.pairLabel? pair = none) ∧
    ∀ (src src' : Source) (a a' : Argument), a.isHash = true → a'.isHash = true →
      List.Forall₂ (Node.Respelled src src') a.entries a'.entries →
        a.labels src = a'.labels src' ∧
          ∀ (d : MethodDef) (name : String) (front back : List ArgumentFacts),
            d.bind name (front ++ a.facts src :: back) =
              d.bind name (front ++ a'.facts src' :: back) := by
  refine ⟨fun x hx ↦ ⟨fun src pair ↦ pairLabel?_of_namesKey hx, ?_⟩,
    fun src pair ↦ pairLabel?_of_namesNoKey, ?_⟩
  · intro src nodes p hp n hn hkind name hname htext
    have hlabel : x ++ ":" ∈ src.declaredLabels nodes := by
      refine List.mem_filterMap.mpr ⟨n, List.mem_filter.mpr ⟨hn, decide_eq_true hkind⟩, ?_⟩
      rw [hname, Option.map_some, htext]
    rw [← Params.labels_ofNodes hp] at hlabel
    obtain ⟨k, hk, hlabel⟩ := List.mem_map.mp hlabel
    refine ⟨k, hk, hlabel, ?_⟩
    rw [KeywordParam.name, hlabel]
    simp [withoutLast]
  · intro src src' a a' ha ha' hentries
    have hsame := Argument.sameHash_facts_of_respelled ha ha' hentries
    exact ⟨Argument.labels_eq_of_respelled hentries, fun d name front back ↦
      d.bind_append_cons_congr name hsame front back⟩

namespace FourSpellings

/-- A call with the four spellings. -/
def source : Source :=
  Text.Codec.utf8.source "f(h: 1, :i => 2, \"j\": 3, :\"k\" => 4)".toUTF8.toList

def symbolPair : Node where
  kind := "pair"
  children := [{ kind := "simple_symbol", role := some "key", start := 8, stop := 10 }]

def quotedWordPair : Node where
  kind := "pair"
  children := [
    { kind := "string", role := some "key", start := 17, stop := 20,
      children := [{ kind := "string_content", start := 18, stop := 19 }] },
    { kind := ":", named := false, start := 20, stop := 21 }]

def quotedSymbolPair : Node where
  kind := "pair"
  children := [
    { kind := "delimited_symbol", role := some "key", start := 25, stop := 29,
      children := [{ kind := "string_content", start := 27, stop := 28 }] }]

/-- The call in which all keys are words. -/
def wordSource : Source :=
  Text.Codec.utf8.source "f(h: 1, i: 2, j: 3, k: 4)".toUTF8.toList

/-- A pair of which the key is the letter at a position. -/
def wordPair (start : Nat) : Node where
  kind := "pair"
  children := [
    { kind := "hash_key_symbol", role := some "key", start := start, stop := start + 1 },
    { kind := ":", named := false, start := start + 1, stop := start + 2 }]

def hash : Argument :=
  ⟨wordPair 2, [symbolPair, quotedWordPair, quotedSymbolPair], true⟩

def wordHash : Argument :=
  ⟨wordPair 2, [wordPair 8, wordPair 14, wordPair 20], true⟩

/-- The node of a keyword parameter with the first key for its name. -/
def keywordNode : Node where
  kind := "keyword_parameter"
  children := [{ kind := "identifier", role := some "name", start := 2, stop := 3 }]

/-- A pair of which the key is a string that no colon follows. -/
def stringPair : Node where
  kind := "pair"
  children := [{ kind := "string", role := some "key" }]

theorem respelled :
    List.Forall₂ (Node.Respelled source wordSource) hash.entries wordHash.entries := by
  refine .cons (.kept ?first) <| .cons (.spelled (x := "i") ?_ rfl rfl ?symbol ?i) <|
    .cons (.spelled (x := "j") ?_ rfl rfl ?quotedWord ?j) <|
      .cons (.spelled (x := "k") ?_ rfl rfl ?quotedSymbol ?k) .nil
  case first =>
    refine .intro rfl rfl rfl rfl (.cons ?_ (.cons ?_ .nil))
    · exact .intro rfl rfl rfl (by decide +kernel) .nil
    · exact .intro rfl rfl rfl (by decide +kernel) .nil
  case symbol => exact ⟨_, rfl, .symbol rfl (by decide +kernel)⟩
  case quotedWord =>
    exact ⟨_, rfl, .quotedWord rfl ⟨_, .tail _ (.head _), rfl⟩ ⟨by decide, by decide +kernel⟩⟩
  case quotedSymbol => exact ⟨_, rfl, .quotedSymbol rfl ⟨by decide, by decide +kernel⟩⟩
  case i | j | k => exact ⟨_, rfl, .word rfl (by decide +kernel)⟩
  all_goals decide

end FourSpellings

open FourSpellings

/-- Four keys in four spellings, and the same keys as words: the symbol gives its label, which is
that of a keyword parameter with the name, a string gives none, and both hashes bind alike. -/
theorem Source.symbol_key_spellings_agree_of_four_spellings :
    source.pairLabel? symbolPair = some "i:" ∧ source.pairLabel? stringPair = none ∧
      Params.ofNodes source [keywordNode] = .ok { keyword := [⟨"h:", false, rfl⟩] } ∧
      (∃ k ∈ [(⟨"h:", false, rfl⟩ : KeywordParam)], k.label = "h:" ∧ k.name = "h") ∧
      hash.labels source = wordHash.labels wordSource ∧
      (MethodDef.mk "f" { keywordRest := some "o" } "").bind "f" [hash.facts source] =
        (MethodDef.mk "f" { keywordRest := some "o" } "").bind "f" [wordHash.facts wordSource] := by
  obtain ⟨hkeys, hnone, hhashes⟩ := symbol_key_spellings_agree
  have hbuilt : Params.ofNodes source [keywordNode] = .ok { keyword := [⟨"h:", false, rfl⟩] } := by
    decide +kernel
  obtain ⟨hlabels, hbind⟩ := hhashes source wordSource hash wordHash rfl rfl respelled
  exact ⟨(hkeys "i" (by decide)).1 source symbolPair ⟨_, rfl, .symbol rfl (by decide +kernel)⟩,
    hnone source stringPair ⟨_, rfl, Or.inl ⟨rfl, by decide⟩⟩, hbuilt,
    (hkeys "h" (by decide)).2 source _ _ hbuilt keywordNode (.head _) rfl _ rfl
      (by decide +kernel), hlabels, hbind _ "f" [] []⟩

end CallBinding
