import CallBinding.Data
import CallBinding.Settings.EnvFile
import CallBinding.Source
import CallBinding.Text.Codecs

/-!
The settings: the text that closes a definition, which is not empty, and the encoding of program
text. They are read from the variables of an environment by a reader that is not decided here; what
is documented of it is that variables are found without regard to case, that a setting without a
variable has its default, and that no terminator but the empty one is turned down
(`SettingsReader.Documented`).

`Settings.ofSources` is such a reader. It takes a setting from the values that are given, else from
the environment, else from a file of variables. Of two spellings of one name the later counts.
-/

set_option autoImplicit false
set_option relaxedAutoImplicit false

namespace CallBinding

structure Settings where
  terminator : String := "; end"
  encoding : String := "utf-8"
  terminator_ne : terminator ≠ "" := by decide
  deriving DecidableEq

/-- Variables in the order in which they were first set. -/
abbrev Environment := List (String × String)

/-- A change of one variable, to a value or to being unset. -/
abbrev VariableChange := String × Option String

namespace Environment

/-- The environment after one change. -/
def change (env : Environment) (c : VariableChange) : Environment :=
  match c.2 with
  | some value => KeyedList.put c.1 value env
  | none => KeyedList.remove c.1 env

/-- The environment after some changes, one after the other. -/
def changes (env : Environment) (cs : List VariableChange) : Environment :=
  cs.foldl change env

end Environment

/-- A reader of settings. -/
abbrev SettingsReader := Environment → Checked Settings

/-- Where settings come from: values that are given, the environment, and the content of a file. -/
structure SettingSources where
  given : List (String × Data) := []
  environment : Environment := []
  file : Option String := none

namespace Settings

def terminatorName : String := "definition_terminator"

def encodingName : String := "source_encoding"

/-- The letters of a name in lower case. -/
def folded (name : String) : List Char :=
  name.toList.map Char.toLower

/-- The last value under a name in any case. -/
def findFolded? {α : Type} (name : String) (entries : List (String × α)) : Option α :=
  (entries.reverse.find? fun entry ↦ folded entry.1 = folded name).map Prod.snd

/-- The value of a setting, whose variable bears the letters `initials` before its name. -/
def find? (initials : String) (sources : SettingSources) (name : String) : Option Data :=
  let bound := EnvFile.read sources.environment (sources.file.getD "")
  (findFolded? name sources.given).or <|
    ((findFolded? (initials ++ name) sources.environment).or
      (findFolded? (initials ++ name) bound).join).map Data.text

/-- The settings that some sources give. -/
def ofSources (initials : String) (sources : SettingSources) : Checked Settings :=
  let default : Settings := {}
  let setting {α : Type} (name fallback : String) (check : Data → Checked α) : Checked α :=
    Checked.within (.field name) (check ((find? initials sources name).getD (.text fallback)))
  (Checked.both (setting terminatorName default.terminator Data.toTextNonempty)
    (setting encodingName default.encoding Data.toText)).map
    fun (terminator, encoding) ↦ ⟨terminator.1, encoding, terminator.2⟩

/-- A text in the encoding of the settings. -/
def encoded (codecs : Text.Codecs) (settings : Settings) (text : String) :
    Except Failure Encoded :=
  (codecs.encode settings.encoding text).map fun bytes ↦ ⟨bytes, codecs.decode settings.encoding⟩

/-- The variable of the terminator was set to nothing. -/
def Unterminated (initials : String) (env : Environment) : Prop :=
  findFolded? (initials ++ terminatorName) env = some ""

instance (initials : String) (env : Environment) : Decidable (Unterminated initials env) :=
  inferInstanceAs (Decidable (_ = _))

end Settings

/-- What is documented of a reader of settings, where the names of variables begin with some letters
and no setting comes from elsewhere: the settings are the values of their variables, or the defaults
where there are none, and only an empty terminator is a fault. -/
structure SettingsReader.Documented (initials : String) (read : SettingsReader) : Prop where
  unterminated : ∀ env, Settings.Unterminated initials env →
    read env = .error [⟨[.field Settings.terminatorName], .tooShort⟩]
  terminated : ∀ env, ¬ Settings.Unterminated initials env → ∃ c, read env = .ok c ∧
    c.terminator = (Settings.findFolded? (initials ++ Settings.terminatorName) env).getD
      ({} : Settings).terminator ∧
    c.encoding = (Settings.findFolded? (initials ++ Settings.encodingName) env).getD
      ({} : Settings).encoding

end CallBinding
