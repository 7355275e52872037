import CallBinding.Settings
import Mathlib.Tactic.SplitIfs

/-!
Settings that are read from an environment alone. The reader of given values, environment and file
(`Settings.ofSources`) is one that does as documented when no values are given and there is no file
(`Settings.documented_ofSources`).
-/

set_option autoImplicit false
set_option relaxedAutoImplicit false

namespace CallBinding

namespace Settings

variable {initials : String} {env : Environment}

theorem find?_getD_of_environment (initials : String) (env : Environment) (name fallback : String) :
    (find? initials { environment := env } name).getD (.text fallback) =
      .text ((findFolded? (initials ++ name) env).getD fallback) := by
  have hfile : EnvFile.read env ((none : Option String).getD "") = [] := rfl
  simp only [find?, hfile]
  cases findFolded? (initials ++ name) env with
  | none => rfl
  | some value => rfl

theorem unterminated_iff : Unterminated initials env ↔
    (findFolded? (initials ++ terminatorName) env).getD ({} : Settings).terminator = "" := by
  unfold Unterminated
  cases findFolded? (initials ++ terminatorName) env with
  | none => exact iff_of_false nofun (by decide)
  | some value => exact Option.some_inj

/-- Both settings are those of the environment, once the terminator has passed its check. -/
theorem ofSources_environment (initials : String) (env : Environment) :
    let terminator := (findFolded? (initials ++ terminatorName) env).getD ({} : Settings).terminator
    let encoding := (findFolded? (initials ++ encodingName) env).getD ({} : Settings).encoding
    ofSources initials { environment := env } =
      if h : terminator = "" then .error [⟨[.field terminatorName], .tooShort⟩]
      else .ok ⟨terminator, encoding, h⟩ := by
  intro terminator encoding
  simp only [ofSources, find?_getD_of_environment]
  split_ifs with h
  · have hfault : Data.toTextNonempty (.text terminator) = .error [⟨[], .tooShort⟩] := by
      rw [h]
      rfl
    rw [hfault]
    rfl
  · have hread : Data.toTextNonempty (.text terminator) = .ok ⟨terminator, h⟩ := dif_neg h
    rw [hread]
    rfl

theorem documented_ofSources (initials : String) : SettingsReader.Documented initials
    fun env ↦ ofSources initials { environment := env } where
  unterminated env h := by
    rw [ofSources_environment, dif_pos (unterminated_iff.mp h)]
  terminated env h := by
    rw [ofSources_environment, dif_neg fun hempty ↦ h (unterminated_iff.mpr hempty)]
    exact ⟨_, rfl, rfl, rfl⟩

end Settings

end CallBinding
