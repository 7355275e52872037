import CallBinding.Proofs.FirstFault
import CallBinding.Proofs.SettingsInForce

/-!
Loading many definitions. Each text of a batch either gives a definition or is rejected, for a fault
of its own, and nothing that happens to one text touches another: what a batch gives are the
definitions of the texts that give one (`MethodDef.built?`), what is said of it are the notes on all
others (`MethodDef.rejected?`), both in the order of the batch (`MethodDef.Accounts`). Changed
methods are loaded side by side, and their definitions are those of one batch of all the sides
(`MethodDef.AccountsForSides`).

A fault that is not handled would escape a batch and lose the texts behind it. There is none where
encodings do as documented, because every fault of a text is one that it is rejected for
(`MethodDef.build_eq_error_iff`). `batches_account_for_every_text` puts this together for any
settings, also such that no text can be encoded by, and for a session that works by them: it answers
with definitions, whatever the texts.
-/

set_option autoImplicit false
set_option relaxedAutoImplicit false

namespace CallBinding

/-- Loads of which none is escaped give what each of them gives. -/
theorem Loaded.sequence_map {α β : Type} {load : α → Loaded β} {value : α → β}
    (h : ∀ a, (load a).value = .ok (value a)) (as : List α) :
    sequence (as.map load) = ⟨.ok (as.map value), as.flatMap fun a ↦ (load a).skipped⟩ := by
  induction as with
  | nil => rfl
  | cons a rest ih =>
    rw [List.map_cons, sequence, bind, h, ih]
    rfl

namespace MethodDef

variable (codecs : Text.Codecs) (settings : Settings) (parse : Parse)

/-- The definition that a text gives, when it gives one. -/
def built? (text : String) : Option MethodDef :=
  (build codecs settings parse text).toOption

/-- The note on a text that is rejected. -/
def rejected? (text : String) : Option Skipped :=
  match build codecs settings parse text with
  | .error (.rejected r) => some ⟨text, r⟩
  | _ => none

/-- The warning about a text that is rejected: it shows the text and the fault. -/
def warning? (render : String → Invalid → String) (text : String) : Option String :=
  match build codecs settings parse text with
  | .error (.rejected r) =>
    some ("Skipping definition candidate " ++ Text.quoted text ++ ": " ++ r.details render)
  | _ => none

/-- The definition of one side of a changed method, when the side gives one. -/
def builtSide? (side : String × String) : Option (String × MethodDef) :=
  (built? codecs settings parse side.2).map fun d ↦ (side.1, d)

theorem map_warning_rejected? (render : String → Invalid → String) (text : String) :
    (rejected? codecs settings parse text).map (Skipped.warning render) =
      warning? codecs settings parse render text := by
  unfold rejected? warning?
  rcases build codecs settings parse text with ⟨⟨r⟩ | ⟨fault⟩⟩ | ⟨d⟩ <;> rfl

section Documented

variable {codecs} (hcodecs : codecs.Documented)
include hcodecs

/-! ### One text -/

/-- A text gives a definition, or it is rejected. -/
theorem build_eq_ok_or_rejected (text : String) :
    (∃ d, build codecs settings parse text = .ok d) ∨
      ∃ r, build codecs settings parse text = .error (.rejected r) := by
  cases hbuild : build codecs settings parse text with
  | ok d => exact Or.inl ⟨d, rfl⟩
  | error error =>
    obtain ⟨r, rfl, -⟩ := (build_eq_error_iff hcodecs).mp hbuild
    exact Or.inr ⟨r, rfl⟩

theorem load_eq (text : String) : load codecs settings parse text =
    ⟨.ok (built? codecs settings parse text),
      (rejected? codecs settings parse text).toList⟩ := by
  unfold load built? rejected?
  obtain ⟨d, hd⟩ | ⟨r, hr⟩ := build_eq_ok_or_rejected settings parse hcodecs text
  · rw [hd]
    rfl
  · rw [hr]
    rfl

/-- A text gives a definition or a note, and not both. -/
theorem length_built?_add_rejected? (text : String) :
    (built? codecs settings parse text).toList.length +
      (rejected? codecs settings parse text).toList.length = 1 := by
  unfold built? rejected?
  obtain ⟨d, hd⟩ | ⟨r, hr⟩ := build_eq_ok_or_rejected settings parse hcodecs text
  · rw [hd]
    rfl
  · rw [hr]
    rfl

/-- A text that the encoding of the settings cannot write, or for which there is no encoding, is
rejected like any other that gives no definition. -/
theorem rejected?_of_unencoded {text : String} {f : Failure}
    (h : codecs.encode settings.encoding (text ++ settings.terminator) = .error f) :
    rejected? codecs settings parse text =
      some ⟨text, ⟨text ++ settings.terminator, .unreadable f⟩⟩ := by
  have hrejected : build codecs settings parse text =
      .error (.rejected ⟨text ++ settings.terminator, .unreadable f⟩) := by
    refine (build_eq_error_iff hcodecs).mpr ⟨_, rfl, rfl, ?_⟩
    rw [faults, h]
    rfl
  rw [rejected?, hrejected]

/-! ### A batch -/

theorem loadAll_eq (texts : List String) : loadAll codecs settings parse texts =
    ⟨.ok (texts.filterMap (built? codecs settings parse)),
      texts.filterMap (rejected? codecs settings parse)⟩ := by
  have hload : load codecs settings parse = fun text ↦
      ⟨.ok (built? codecs settings parse text), (rejected? codecs settings parse text).toList⟩ :=
    funext (load_eq settings parse hcodecs)
  rw [loadAll, hload, Loaded.sequence_map fun _ ↦ rfl, Loaded.map,
    List.filterMap_eq_flatMap_toList (rejected? codecs settings parse)]
  refine congrArg (Loaded.mk · _) (congrArg Except.ok ?_)
  rw [List.filterMap_map]
  rfl

theorem length_filterMap_built?_add_rejected? (texts : List String) :
    (texts.filterMap (built? codecs settings parse)).length +
      (texts.filterMap (rejected? codecs settings parse)).length = texts.length := by
  induction texts with
  | nil => rfl
  | cons text rest ih =>
    have hone := length_built?_add_rejected? settings parse hcodecs text
    simp only [List.filterMap_eq_flatMap_toList, List.flatMap_cons, List.length_append,
      List.length_cons] at ih ⊢
    omega

end Documented

/-- What loading gives accounts for a batch of texts. No fault escapes it. -/
structure Accounts (texts : List String) (l : Loaded (List MethodDef)) : Prop where
  value_eq : l.value = .ok (texts.filterMap (built? codecs settings parse))
  skipped_eq : l.skipped = texts.filterMap (rejected? codecs settings parse)
  warnings_eq : ∀ render, l.skipped.map (Skipped.warning render) =
    texts.filterMap (warning? codecs settings parse render)
  length_add : ∀ ds, l.value = .ok ds → ds.length + l.skipped.length = texts.length

/-- What loading gives accounts for the sides of changed methods: there is one mapping for each
record, and together the mappings hold what a batch of all the sides gives. -/
structure AccountsForSides (records : List (List (String × String)))
    (l : Loaded (List (List (String × MethodDef)))) : Prop where
  value_eq : l.value =
    .ok (records.map fun sides ↦ sides.filterMap (builtSide? codecs settings parse))
  length_eq : ∀ changed, l.value = .ok changed → changed.length = records.length
  flatten_eq : l.value.map (fun changed ↦ changed.flatten.map Prod.snd) =
    (loadAll codecs settings parse (records.flatten.map Prod.snd)).value
  skipped_eq : l.skipped = (loadAll codecs settings parse (records.flatten.map Prod.snd)).skipped

section Documented

variable {codecs} (hcodecs : codecs.Documented)
include hcodecs

theorem accounts_loadAll (texts : List String) :
    Accounts codecs settings parse texts (loadAll codecs settings parse texts) := by
  rw [loadAll_eq settings parse hcodecs]
  refine ⟨rfl, rfl, fun render ↦ ?_, ?_⟩
  · rw [List.map_filterMap]
    exact List.filterMap_congr fun text _ ↦
      map_warning_rejected? codecs settings parse render text
  · intro ds hds
    injection hds with hds
    rw [← hds, length_filterMap_built?_add_rejected? settings parse hcodecs]

/-! ### Changed methods -/

theorem loadSides_eq (sides : List (String × String)) : loadSides codecs settings parse sides =
    ⟨.ok (sides.filterMap (builtSide? codecs settings parse)),
      sides.filterMap (rejected? codecs settings parse ∘ Prod.snd)⟩ := by
  have hload : (fun side : String × String ↦ (load codecs settings parse side.2).map
      fun d ↦ d.map fun m ↦ (side.1, m)) = fun side ↦
      ⟨.ok (builtSide? codecs settings parse side),
        (rejected? codecs settings parse side.2).toList⟩ :=
    funext fun side ↦ by
      rw [load_eq settings parse hcodecs]
      rfl
  rw [loadSides, hload, Loaded.sequence_map fun _ ↦ rfl, Loaded.map,
    List.filterMap_eq_flatMap_toList (rejected? codecs settings parse ∘ Prod.snd)]
  refine congrArg (Loaded.mk · _) (congrArg Except.ok ?_)
  rw [List.filterMap_map]
  rfl

theorem loadChanged_eq (records : List (List (String × String))) :
    loadChanged codecs settings parse records =
      ⟨.ok (records.map fun sides ↦ sides.filterMap (builtSide? codecs settings parse)),
        records.flatten.filterMap (rejected? codecs settings parse ∘ Prod.snd)⟩ := by
  rw [loadChanged, funext (loadSides_eq settings parse hcodecs),
    Loaded.sequence_map fun _ ↦ rfl, List.filterMap_flatten]
  rfl

theorem accountsForSides_loadChanged (records : List (List (String × String))) :
    AccountsForSides codecs settings parse records (loadChanged codecs settings parse records) := by
  rw [loadChanged_eq settings parse hcodecs]
  refine ⟨rfl, ?_, ?_, ?_⟩
  · intro changed hchanged
    injection hchanged with hchanged
    rw [← hchanged, List.length_map]
  · rw [loadAll_eq settings parse hcodecs, Except.map, ← List.filterMap_flatten,
      List.map_filterMap, List.filterMap_map]
    refine congrArg Except.ok (List.filterMap_congr fun side _ ↦ ?_)
    rw [builtSide?, Option.map_map]
    exact Option.map_id_apply
  · rw [loadAll_eq settings parse hcodecs]
    exact List.filterMap_map.symm

/-! ### Sessions -/

variable {settings} {readSettings : SettingsReader} {s : Session}

/-- A session that has settings answers a batch with definitions. -/
theorem answer_loadAll (h : (s.settings ⟨codecs, readSettings⟩).1 = .ok settings)
    (texts : List String) :
    (s.answer ⟨codecs, readSettings⟩ (.loadAll parse texts)).reply =
        .definitions (texts.filterMap (built? codecs settings parse)) ∧
      (s.answer ⟨codecs, readSettings⟩ (.loadAll parse texts)).skipped =
        texts.filterMap (rejected? codecs settings parse) := by
  rw [Session.answer]
  split_ifs with htexts
  · rw [htexts]
    exact ⟨rfl, rfl⟩
  · rw [Session.withSettings_of_ok (Prod.ext h rfl)]
    dsimp only
    rw [loadAll_eq settings parse hcodecs]
    exact ⟨rfl, rfl⟩

theorem answer_loadChanged (h : (s.settings ⟨codecs, readSettings⟩).1 = .ok settings)
    (records : List (List (String × String))) :
    (s.answer ⟨codecs, readSettings⟩ (.loadChanged parse records)).reply =
        .changed ((records.map KeyedList.ofPairs).map fun sides ↦
          sides.filterMap (builtSide? codecs settings parse)) ∧
      (s.answer ⟨codecs, readSettings⟩ (.loadChanged parse records)).skipped =
        (records.map KeyedList.ofPairs).flatten.filterMap
          (rejected? codecs settings parse ∘ Prod.snd) := by
  rw [Session.answer]
  split_ifs with hempty
  · -- records without sides give mappings without sides, by any settings
    have hnil : ∀ record ∈ records, record = [] := by simpa using hempty
    have hpairs : records.map KeyedList.ofPairs = records.map fun _ ↦ [] :=
      List.map_congr_left fun record hrecord ↦ by rw [hnil record hrecord]; rfl
    have hflatten : (records.map fun _ ↦ ([] : List (String × String))).flatten = [] := by
      simp
    rw [hpairs, hflatten, List.map_map]
    exact ⟨rfl, rfl⟩
  · rw [Session.withSettings_of_ok (Prod.ext h rfl)]
    dsimp only
    rw [loadChanged_eq settings parse hcodecs]
    exact ⟨rfl, rfl⟩

end Documented

/-- Loading a batch gives the definitions of the texts that give one and a note on every other text,
in order, so that both together are as many as the texts. Batches are loaded one after the other as
one batch, and the sides of changed methods as one batch of all of them. This holds for any settings
and any reader of program text: where there is no encoding of a name, or it cannot write the text,
the text is rejected for that. A session that has settings answers so. Of encodings no more is asked
than that they do as documented. -/
theorem batches_account_for_every_text (codecs : Text.Codecs) (hcodecs : codecs.Documented)
    (settings : Settings) (parse : Parse) :
    (∀ texts, Accounts codecs settings parse texts (loadAll codecs settings parse texts)) ∧
    (∀ front back, ∃ ds es,
      (loadAll codecs settings parse front).value = .ok ds ∧
        (loadAll codecs settings parse back).value = .ok es ∧
        loadAll codecs settings parse (front ++ back) = ⟨.ok (ds ++ es),
          (loadAll codecs settings parse front).skipped ++
            (loadAll codecs settings parse back).skipped⟩) ∧
    (∀ records, AccountsForSides codecs settings parse records
      (loadChanged codecs settings parse records)) ∧
    (∀ text f, codecs.encode settings.encoding (text ++ settings.terminator) = .error f →
      rejected? codecs settings parse text =
        some ⟨text, ⟨text ++ settings.terminator, .unreadable f⟩⟩) ∧
    (codecs.knows settings.encoding = false → ∀ text, built? codecs settings parse text = none) ∧
    ∀ (readSettings : SettingsReader) (s : Session),
      (s.settings ⟨codecs, readSettings⟩).1 = .ok settings →
        (∀ texts,
          (s.answer ⟨codecs, readSettings⟩ (.loadAll parse texts)).reply =
              .definitions (texts.filterMap (built? codecs settings parse)) ∧
            (s.answer ⟨codecs, readSettings⟩ (.loadAll parse texts)).skipped =
              texts.filterMap (rejected? codecs settings parse)) ∧
        ∀ records : List (List (String × String)),
          (s.answer ⟨codecs, readSettings⟩ (.loadChanged parse records)).reply =
              .changed ((records.map KeyedList.ofPairs).map fun sides ↦
                sides.filterMap (builtSide? codecs settings parse)) ∧
            (s.answer ⟨codecs, readSettings⟩ (.loadChanged parse records)).skipped =
              (records.map KeyedList.ofPairs).flatten.filterMap
                (rejected? codecs settings parse ∘ Prod.snd) := by
  refine ⟨accounts_loadAll settings parse hcodecs, ?_,
    accountsForSides_loadChanged settings parse hcodecs,
    fun text f ↦ rejected?_of_unencoded settings parse hcodecs, ?_, ?_⟩
  · intro front back
    simp only [loadAll_eq settings parse hcodecs, List.filterMap_append]
    exact ⟨_, _, rfl, rfl, rfl⟩
  · intro hunknown text
    obtain ⟨f, hf⟩ := hcodecs.encode_unknown _ (text ++ settings.terminator) hunknown
    have hone := length_built?_add_rejected? settings parse hcodecs text
    rw [rejected?_of_unencoded settings parse hcodecs hf] at hone
    exact Option.toList_eq_nil_iff.mp (List.length_eq_zero_iff.mp (Nat.succ.inj hone))
  · intro readSettings s hsettings
    exact ⟨answer_loadAll parse hcodecs hsettings, answer_loadChanged parse hcodecs hsettings⟩

/-- Without an encoding of its name every text is skipped, and a session that keeps such settings
answers a batch with no definitions. -/
theorem batches_account_for_every_text_of_unknown_encoding :
    Text.Codecs.common.Documented ∧
      Text.Codecs.common.encode "no-such" ("def f" ++ "; end") =
        .error ⟨.lookup, "unknown encoding: no-such"⟩ ∧
      rejected? .common { encoding := "no-such" } (fun _ ↦ ⟨{ kind := "program" }, false⟩) "def f" =
        some ⟨"def f", "def f; end", .unreadable ⟨.lookup, "unknown encoding: no-such"⟩⟩ ∧
      ((Session.mk [] (some { encoding := "no-such" }) []).answer
        ⟨.common, fun _ ↦ .ok {}⟩
        (.loadAll (fun _ ↦ ⟨{ kind := "program" }, false⟩) ["def f", "1"])).reply =
          .definitions [] := by
  obtain ⟨-, -, -, hrejected, hnone, hsession⟩ := batches_account_for_every_text .common
    Text.Codecs.documented_common { encoding := "no-such" }
    (fun _ ↦ ⟨{ kind := "program" }, false⟩)
  have hunknown : Text.Codecs.common.encode "no-such" ("def f" ++ "; end") =
      .error ⟨.lookup, "unknown encoding: no-such"⟩ := by
    decide +kernel
  have hbuilt := hnone (by decide +kernel)
  obtain ⟨hbatch, -⟩ := hsession (fun _ ↦ .ok {}) ⟨[], some { encoding := "no-such" }, []⟩ rfl
  refine ⟨Text.Codecs.documented_common, hunknown, hrejected "def f" _ hunknown, ?_⟩
  rw [(hbatch ["def f", "1"]).1]
  simp only [List.filterMap_cons, List.filterMap_nil, hbuilt]

end MethodDef

end CallBinding
