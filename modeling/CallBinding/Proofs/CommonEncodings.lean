import CallBinding.Source
import CallBinding.Text.Codecs
import Mathlib.Tactic.SplitIfs

/-!
The three encodings among all that there may be. They do as documented (`documented_common`), and
decoding by one of their names never fails, so every span of a text that they encode is read
(`span_common`).
-/

set_option autoImplicit false
set_option relaxedAutoImplicit false

namespace CallBinding

/-! ### Messages -/

theorem append_ne_empty_of_left {s : String} (t : String) (h : s ≠ "") : s ++ t ≠ "" :=
  fun happend ↦ h (String.append_eq_empty_iff.mp happend).1

theorem append_ne_empty_of_right (s : String) {t : String} (h : t ≠ "") : s ++ t ≠ "" :=
  fun happend ↦ h (String.append_eq_empty_iff.mp happend).2

namespace Text

theorem CodecError.message_ne_empty (use : String) (e : CodecError) : e.message use ≠ "" := by
  cases e with
  | malformed => exact (by decide : "embedded null character" ≠ "")
  | unknown name => exact append_ne_empty_of_left _ (by decide)
  | notText name => exact append_ne_empty_of_right _ (by decide)

theorem EncodeError.message_ne_empty (e : EncodeError) : e.message ≠ "" :=
  append_ne_empty_of_right _ (by decide)

/-! ### The three encodings by their names -/

theorem Codec.isMalformed_iff_of_named {name : String} {e : CodecError}
    (h : Codec.named name = .error e) : Codec.isMalformed name = true ↔ e = .malformed := by
  unfold Codec.named at h
  by_cases hmalformed : isMalformed name = true
  · rw [if_pos hmalformed] at h
    injection h with h
    exact iff_of_true hmalformed h.symm
  · rw [if_neg hmalformed] at h
    refine iff_of_false hmalformed ?_
    rintro rfl
    split at h
    · exact absurd h nofun
    · split_ifs at h <;> exact absurd h nofun

namespace Codecs

variable {name : String} {codec : Codec} {e : CodecError}

theorem encode_common (h : Codec.named name = .ok codec) (text : String) :
    common.encode name text = (codec.encode text).mapError EncodeError.failure := by
  simp only [common, h]

theorem decode_common (h : Codec.named name = .ok codec) (bytes : List UInt8) :
    common.decode name bytes = .ok (codec.decode bytes) := by
  simp only [common, h]

theorem failureKind_common (h : Codec.named name = .ok codec) :
    common.failureKind name = .unicode := by
  have hknows : common.knows name = true := by
    simp only [common, h]
    rfl
  rw [failureKind, if_pos hknows]

theorem documentedFailure_common (h : Codec.named name = .error e) (use : String) :
    DocumentedFailure (common.failureKind name) (e.failure use) := by
  have hknows : common.knows name = false := by
    simp only [common, h]
    rfl
  refine ⟨?_, e.message_ne_empty use⟩
  simp only [failureKind, hknows, Codec.isMalformed_iff_of_named h, CodecError.failure,
    Bool.false_eq_true, if_false]
  split_ifs <;> rfl

theorem documented_common : common.Documented where
  encode_unknown name text h := by
    cases hname : Codec.named name with
    | error e => exact ⟨e.failure "encode", by simp only [common, hname]⟩
    | ok codec =>
      simp only [common, hname] at h
      exact absurd h nofun
  encode_failure name text f h := by
    cases hname : Codec.named name with
    | error e =>
      simp only [common, hname] at h
      injection h with h
      exact h ▸ documentedFailure_common hname "encode"
    | ok codec =>
      rw [encode_common hname] at h
      rw [failureKind_common hname]
      cases hencode : codec.encode text with
      | ok bytes =>
        rw [hencode] at h
        exact absurd h nofun
      | error e =>
        rw [hencode] at h
        injection h with h
        subst h
        exact ⟨rfl, e.message_ne_empty⟩
  decode_failure name bytes f h := by
    cases hname : Codec.named name with
    | error e =>
      simp only [common, hname] at h
      split_ifs at h
      injection h with h
      exact h ▸ documentedFailure_common hname "decode"
    | ok codec =>
      rw [decode_common hname] at h
      exact absurd h nofun

end Codecs

end Text

/-- Every span of bytes is read by the name of one of the three encodings. -/
theorem Encoded.span_common {name : String} {codec : Text.Codec}
    (h : Text.Codec.named name = .ok codec) (bytes : List UInt8) (start stop : Nat) :
    (Encoded.mk bytes (Text.Codecs.common.decode name)).span start stop =
      .ok ((codec.source bytes).span start stop) :=
  Text.Codecs.decode_common h _

end CallBinding
