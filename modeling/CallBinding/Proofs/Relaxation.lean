import CallBinding.Proofs.ArgumentDivision
import CallBinding.Proofs.Decoding
import Mathlib.Data.List.Nodup
import Mathlib.Logic.Relation

/-!
Relaxing a parameter list. There are seven ways to ask less of a call (`Params.Relaxation`): another
optional slot, a splat, a keyword splat, another keyword with a default, a default for a required
keyword, and a required slot that becomes optional, in front or at the back. None of them turns a
call away that was taken before, so neither does any sequence of them, although binding may take
another path through the new list. What is preserved at each step is that the new list covers the
old one (`Params.Covers`).
-/

set_option autoImplicit false
set_option relaxedAutoImplicit false

namespace CallBinding

namespace Params

variable {p q r : Params} {arg : ArgumentFacts} {args : List ArgumentFacts}

/-! ### Relaxations -/

theorem mem_insert_iff {α : Type} {before after : List α} {k j : α} :
    j ∈ before ++ k :: after ↔ j = k ∨ j ∈ before ++ after := by
  rw [List.perm_middle.mem_iff, List.mem_cons]

theorem labels_nodup_insert {before after : List KeywordParam} {k : KeywordParam}
    (hsplit : p.keyword = before ++ after) (hnew : k.label ∉ p.keyword.map KeywordParam.label) :
    ((before ++ k :: after).map KeywordParam.label).Nodup := by
  have hnodup := p.labels_nodup
  rw [hsplit, List.map_append] at hnodup hnew
  rw [List.map_append, List.map_cons, List.nodup_middle]
  exact List.nodup_cons.mpr ⟨hnew, hnodup⟩

theorem labels_nodup_replace {before after : List KeywordParam} {k j : KeywordParam}
    (hsplit : p.keyword = before ++ k :: after) (hlabel : j.label = k.label) :
    ((before ++ j :: after).map KeywordParam.label).Nodup := by
  have hnodup := p.labels_nodup
  rw [hsplit, List.map_append, List.map_cons] at hnodup
  rw [List.map_append, List.map_cons, hlabel]
  exact hnodup

/-- A change of a parameter list that asks less of a call. What is inserted may be put at any
place among the slots of its kind. -/
inductive Relaxation : Params → Params → Prop
  | insertOptional (p : Params) (before after : List OptionalParam) (added : OptionalParam)
      (hsplit : p.optional = before ++ after) :
      Relaxation p { p with optional := before ++ added :: after }
  | addRest (p : Params) (name : String) (hnone : p.rest = none) :
      Relaxation p { p with rest := some name }
  | addKeywordRest (p : Params) (name : String) (hnone : p.keywordRest = none) :
      Relaxation p { p with keywordRest := some name }
  | addKeyword (p : Params) (before after : List KeywordParam) (added : KeywordParam)
      (hsplit : p.keyword = before ++ after) (hdefault : added.hasDefault = true)
      (hnew : added.label ∉ p.keyword.map KeywordParam.label) :
      Relaxation p
        { p with
          keyword := before ++ added :: after
          labels_nodup := labels_nodup_insert hsplit hnew }
  | giveDefault (p : Params) (before after : List KeywordParam) (k : KeywordParam)
      (hsplit : p.keyword = before ++ k :: after) (hrequired : k.hasDefault = false) :
      Relaxation p
        { p with
          keyword := before ++ { k with hasDefault := true } :: after
          labels_nodup := labels_nodup_replace hsplit rfl }
  | normalToOptional (p : Params) (front : List String) (name default : String)
      (before after : List OptionalParam) (hnormal : p.normal = front ++ [name])
      (hsplit : p.optional = before ++ after) :
      Relaxation p { p with normal := front, optional := before ++ ⟨name, default⟩ :: after }
  | postRestToOptional (p : Params) (front back : List String) (name default : String)
      (before after : List OptionalParam) (hpost : p.postRest = front ++ name :: back)
      (hsplit : p.optional = before ++ after) :
      Relaxation p
        { p with postRest := front ++ back, optional := before ++ ⟨name, default⟩ :: after }

/-! ### Covering -/

/-- Whatever `p` takes, `q` takes: counts that fit still fit, no further keyword is required, and
no keyword is refused that was declared or left to a keyword splat. -/
structure Covers (p q : Params) : Prop where
  required_le : q.arity.required ≤ p.arity.required
  room_le : p.arity.required + p.arity.optional ≤ q.arity.required + q.arity.optional
  splat : p.rest.isSome = true → q.rest.isSome = true
  required_subset : q.requiredKeywordNames ⊆ p.requiredKeywordNames
  declared_subset : p.keywordNames ⊆ q.keywordNames
  keywordRest : p.keywordRest.isSome = true → q.keywordRest.isSome = true

namespace Covers

theorem refl (p : Params) : Covers p p :=
  ⟨Nat.le_refl _, Nat.le_refl _, id, List.Subset.refl _, List.Subset.refl _, id⟩

theorem trans (hpq : Covers p q) (hqr : Covers q r) : Covers p r where
  required_le := Nat.le_trans hqr.required_le hpq.required_le
  room_le := Nat.le_trans hpq.room_le hqr.room_le
  splat := fun hrest ↦ hqr.splat (hpq.splat hrest)
  required_subset := List.Subset.trans hqr.required_subset hpq.required_subset
  declared_subset := List.Subset.trans hpq.declared_subset hqr.declared_subset
  keywordRest := fun hrest ↦ hqr.keywordRest (hpq.keywordRest hrest)

theorem fits {count : Nat} (h : Covers p q) (hfits : p.arity.Fits count) :
    q.arity.Fits count := by
  have hrequired := h.required_le
  have hroom := h.room_le
  refine ⟨Nat.le_trans hrequired hfits.1, ?_⟩
  rcases hfits.2 with hsplat | hcount
  · exact Or.inl (h.splat hsplat)
  · exact Or.inr (Nat.le_trans hcount hroom)

theorem takesKeywords (h : Covers p q) (htakes : p.takesKeywords = true) :
    q.takesKeywords = true := by
  by_contra hnot
  obtain ⟨hkeyword, hrest⟩ := takesKeywords_eq_false_iff.mp (Bool.eq_false_iff.mpr hnot)
  have hnames : p.keywordNames = [] := by
    have hsubset := h.declared_subset
    rw [show q.keywordNames = [] by rw [keywordNames, hkeyword, List.map_nil]] at hsubset
    exact List.subset_nil.mp hsubset
  have hnone : p.keywordRest = none := by
    by_contra hsome
    have hsome' := h.keywordRest (Option.isSome_iff_ne_none.mpr hsome)
    rw [hrest] at hsome'
    exact Bool.false_ne_true hsome'
  have hfalse := takesKeywords_eq_false_iff.mpr ⟨List.map_eq_nil_iff.mp hnames, hnone⟩
  exact Bool.false_ne_true (hfalse.symm.trans htakes)

theorem requiresKeywords (h : Covers p q) (hrequires : q.requiresKeywords = true) :
    p.requiresKeywords = true := by
  obtain ⟨k, hk, hrequired⟩ := List.any_eq_true.mp hrequires
  have hname := h.required_subset (mem_requiredKeywordNames.mpr ⟨k, hk, hrequired, rfl⟩)
  obtain ⟨j, hj, hrequired', -⟩ := mem_requiredKeywordNames.mp hname
  exact List.any_eq_true.mpr ⟨j, hj, hrequired'⟩

theorem acceptsHash (h : Covers p q) (haccepts : p.AcceptsHash arg) : q.AcceptsHash arg := by
  cases haccepts with
  | value hhash hliteral => exact .value hhash hliteral
  | hash hhash hrequired hdeclared =>
    refine .hash hhash (hrequired.imp_right fun hnames k hk hk' ↦ ?_) ?_
    · have hname := h.required_subset (mem_requiredKeywordNames.mpr ⟨k, hk, hk', rfl⟩)
      obtain ⟨j, hj, hj', hsame⟩ := mem_requiredKeywordNames.mp hname
      rw [← hsame]
      exact hnames j hj hj'
    · refine hdeclared.imp h.keywordRest fun hknown label hlabel ↦ ?_
      exact mem_keywordNames.mp (h.declared_subset (mem_keywordNames.mpr (hknown label hlabel)))

/-- A parameter list takes the calls of every list that it covers. -/
theorem allows (h : Covers p q) (hallows : p.arity.Allows p.AcceptsHash args) :
    q.arity.Allows q.AcceptsHash args := by
  rw [arity_allows_iff] at hallows ⊢
  rcases hallows with ⟨hrequires, hfits⟩ | ⟨htakes, last, hlast, haccepts, hfits⟩
  · refine Or.inl ⟨?_, h.fits hfits⟩
    rw [Bool.eq_false_iff]
    intro hrequires'
    exact Bool.false_ne_true (hrequires.symm.trans (h.requiresKeywords hrequires'))
  · exact Or.inr ⟨h.takesKeywords htakes, last, hlast, h.acceptsHash haccepts, h.fits hfits⟩

end Covers

/-- A list with the same keywords covers another when its counts do. -/
theorem covers_of_counts (hkeyword : q.keyword = p.keyword)
    (hkeywordRest : q.keywordRest = p.keywordRest)
    (hrequired : q.arity.required ≤ p.arity.required)
    (hroom : p.arity.required + p.arity.optional ≤ q.arity.required + q.arity.optional)
    (hsplat : p.rest.isSome = true → q.rest.isSome = true) : Covers p q where
  required_le := hrequired
  room_le := hroom
  splat := hsplat
  required_subset := by
    rw [requiredKeywordNames, requiredKeywordNames, hkeyword]
    exact List.Subset.refl _
  declared_subset := by
    rw [keywordNames, keywordNames, hkeyword]
    exact List.Subset.refl _
  keywordRest := by
    rw [hkeywordRest]
    exact id

/-- A list with the same positional slots covers another when its keywords do. -/
theorem covers_of_keywords (hrequired : q.arity.required = p.arity.required)
    (hoptional : q.arity.optional = p.arity.optional) (hrest : q.rest = p.rest)
    (hneeded : ∀ k ∈ q.keyword, k.required = true → k ∈ p.keyword)
    (hdeclared : ∀ k ∈ p.keyword, ∃ j ∈ q.keyword, j.name = k.name)
    (hkeywordRest : p.keywordRest.isSome = true → q.keywordRest.isSome = true) : Covers p q where
  required_le := Nat.le_of_eq hrequired
  room_le := Nat.le_of_eq (by rw [hrequired, hoptional])
  splat := by
    rw [hrest]
    exact id
  required_subset := by
    intro name hname
    obtain ⟨k, hk, hk', rfl⟩ := mem_requiredKeywordNames.mp hname
    exact mem_requiredKeywordNames.mpr ⟨k, hneeded k hk hk', hk', rfl⟩
  declared_subset := by
    intro name hname
    obtain ⟨k, hk, rfl⟩ := mem_keywordNames.mp hname
    exact mem_keywordNames.mpr (hdeclared k hk)
  keywordRest := hkeywordRest

/-- One relaxation gives a list that covers the one before. -/
theorem Relaxation.covers (h : Relaxation p q) : Covers p q := by
  cases h with
  | insertOptional before after added hsplit =>
    refine covers_of_counts rfl rfl (Nat.le_refl _) ?_ id
    simp only [arity, hsplit, List.length_append, List.length_cons]
    omega
  | addRest name hnone =>
    exact covers_of_counts rfl rfl (Nat.le_refl _) (Nat.le_refl _) fun _ ↦ rfl
  | addKeywordRest name hnone =>
    exact covers_of_keywords rfl rfl rfl (fun k hk _ ↦ hk) (fun k hk ↦ ⟨k, hk, rfl⟩) fun _ ↦ rfl
  | addKeyword before after added hsplit hdefault hnew =>
    have hmem (k : KeywordParam) : k ∈ before ++ added :: after ↔ k = added ∨ k ∈ p.keyword := by
      rw [hsplit, mem_insert_iff]
    refine covers_of_keywords rfl rfl rfl ?_ ?_ id
    · intro k hk hrequired
      rcases (hmem k).mp hk with rfl | hold
      · -- the new keyword is not required
        rw [KeywordParam.required, hdefault] at hrequired
        exact absurd hrequired (by decide)
      · exact hold
    · exact fun k hk ↦ ⟨k, (hmem k).mpr (Or.inr hk), rfl⟩
  | giveDefault before after k hsplit hrequired =>
    have hmem (j : KeywordParam) : j ∈ p.keyword ↔ j = k ∨ j ∈ before ++ after := by
      rw [hsplit, mem_insert_iff]
    refine covers_of_keywords rfl rfl rfl ?_ ?_ id
    · intro j hj hj'
      rcases mem_insert_iff.mp hj with rfl | hkept
      · exact absurd hj' (by simp [KeywordParam.required])
      · exact (hmem j).mpr (Or.inr hkept)
    · intro j hj
      rcases (hmem j).mp hj with rfl | hkept
      · exact ⟨_, mem_insert_iff.mpr (Or.inl rfl), rfl⟩
      · exact ⟨j, mem_insert_iff.mpr (Or.inr hkept), rfl⟩
  | normalToOptional front name default before after hnormal hsplit =>
    refine covers_of_counts rfl rfl ?_ ?_ id
    · simp only [arity, hnormal, List.length_append, List.length_cons]
      omega
    · simp only [arity, hnormal, hsplit, List.length_append, List.length_cons, List.length_nil]
      omega
  | postRestToOptional front back name default before after hpost hsplit =>
    refine covers_of_counts rfl rfl ?_ ?_ id
    · simp only [arity, hpost, List.length_append, List.length_cons]
      omega
    · simp only [arity, hpost, hsplit, List.length_append, List.length_cons]
      omega

/-- Any number of relaxations give a list that covers the one before. -/
theorem covers_of_relaxations (h : Relation.ReflTransGen Relaxation p q) : Covers p q := by
  induction h with
  | refl => exact Covers.refl p
  | tail _ hlast ih => exact ih.trans hlast.covers

end Params

namespace MethodDef

variable {d d' : MethodDef}

/-- A definition that covers another of the same name binds the calls that the other binds. -/
theorem bindable_of_covers (hname : d'.name = d.name) (hcovers : d.params.Covers d'.params)
    {name : String} {args : List ArgumentFacts} (h : (d.bind name args).bindable = true) :
    (d'.bind name args).bindable = true := by
  rw [bindable_bind_iff_allows, Params.usable_eq_acceptsHash] at h ⊢
  exact ⟨h.1.trans hname.symm, hcovers.allows h.2⟩

end MethodDef

namespace Report

/-- The broken calls of a report are the calls by the name of the definition that do not bind. -/
theorem map_call_broken_ofTree (d : MethodDef) (src : Source) (t : Tree) :
    (ofTree d src t).broken.map CallCheck.call =
      ((t.callSites src).filter fun call ↦ call.name = d.name).filter
        fun call ↦ !(d.bind call.name call.argumentFacts).bindable := by
  simp only [broken, ofTree, List.filter_map, List.map_map]
  exact List.map_id' _

/-- The broken calls are fewer for a definition that covers another of the same name. -/
theorem broken_sublist_of_covers {d d' : MethodDef} (hname : d'.name = d.name)
    (hcovers : d.params.Covers d'.params) (src : Source) (t : Tree) :
    ((ofTree d' src t).broken.map CallCheck.call).Sublist
      ((ofTree d src t).broken.map CallCheck.call) := by
  rw [map_call_broken_ofTree, map_call_broken_ofTree, hname]
  refine List.monotone_filter_right _ fun call hbroken ↦ ?_
  simp only [Bool.not_eq_true'] at hbroken ⊢
  rw [Bool.eq_false_iff] at hbroken ⊢
  exact fun hbinds ↦ hbroken (d.bindable_of_covers hname hcovers hbinds)

end Report

/-- Relaxing the parameter list of a method, any number of times, breaks no call: what bound before
still binds, and in every program text the calls that are reported as broken are among those that
were, in the same order. The report is there as it was before, unless the encoding of the text fails
to decode a span. -/
theorem MethodDef.relaxation_breaks_no_call (d d' : MethodDef) (hname : d'.name = d.name)
    (h : Relation.ReflTransGen Params.Relaxation d.params d'.params) :
    (∀ (name : String) (args : List ArgumentFacts), (d.bind name args).bindable = true →
      (d'.bind name args).bindable = true) ∧
    ∀ (codecs : Text.Codecs) (settings : Settings) (parse : Parse) (text : String)
      (before : Report), d.check codecs settings parse text = .ok before →
        (∃ after, d'.check codecs settings parse text = .ok after ∧
          (after.broken.map CallCheck.call).Sublist (before.broken.map CallCheck.call)) ∨
        ∃ e start stop f, settings.encoded codecs text = .ok e ∧ e.span start stop = .error f ∧
          d'.check codecs settings parse text = .error f := by
  have hcovers := Params.covers_of_relaxations h
  refine ⟨fun name args ↦ bindable_of_covers hname hcovers, ?_⟩
  intro codecs settings parse text before hbefore
  obtain ⟨e, hencoded, -⟩ := bind_eq_ok_iff.mp hbefore
  have hreads := d.reads_check parse hencoded
  rw [hbefore] at hreads
  rw [hreads.eq_of_ok]
  obtain hafter | ⟨start, stop, f, hspan, hfails⟩ := (d'.reads_check parse hencoded).ok_or_failed
  · exact Or.inl ⟨_, hafter, Report.broken_sublist_of_covers hname hcovers e.source _⟩
  · exact Or.inr ⟨e, start, stop, f, hencoded, hspan, hfails⟩

/-- A required slot that becomes optional, followed by a keyword splat and by a splat: the call with
one argument, which bound from the front, still binds. -/
theorem MethodDef.relaxation_breaks_no_call_of_three_steps :
    Relation.ReflTransGen Params.Relaxation { normal := ["a"] }
        { optional := [⟨"a", "1"⟩], rest := some "r", keywordRest := some "o" } ∧
      ((MethodDef.mk "f" { normal := ["a"] } "").bind "f" [{}]).bindable = true ∧
      ((MethodDef.mk "f" { optional := [⟨"a", "1"⟩], rest := some "r", keywordRest := some "o" }
        "").bind "f" [{}]).bindable = true := by
  have hsteps : Relation.ReflTransGen Params.Relaxation { normal := ["a"] }
      { optional := [⟨"a", "1"⟩], rest := some "r", keywordRest := some "o" } :=
    .tail (.tail (.single (.normalToOptional _ [] "a" "1" [] [] rfl rfl))
      (.addKeywordRest _ "o" rfl)) (.addRest _ "r" rfl)
  have hbefore : ((MethodDef.mk "f" { normal := ["a"] } "").bind "f" [{}]).bindable = true := by
    decide
  have hbinds := (relaxation_breaks_no_call ⟨"f", { normal := ["a"] }, ""⟩
    ⟨"f", { optional := [⟨"a", "1"⟩], rest := some "r", keywordRest := some "o" }, ""⟩ rfl
    hsteps).1 "f" [{}] hbefore
  exact ⟨hsteps, hbefore, hbinds⟩

end CallBinding
