import CallBinding.Source
import Mathlib.Data.List.Forall2
import Mathlib.Tactic.Choose
import Mathlib.Tactic.SplitIfs

/-!
What is encoded is read back. An encoding answers the bytes of a text one character after the other
(`Codec.encodeFrom`), and decoding those bytes gives the text again in each of the three encodings
(`Codec.decode_encode`). For the encoding of one to four bytes a character this is the arithmetic of
its leading and following bytes (`Codec.IsForm`), one lemma for each length.

A text whose bytes stand somewhere in a source is therefore the text of a span of that source, and
any texts at all are spans of one source (`Source.exists_spans`).
-/

set_option autoImplicit false
set_option relaxedAutoImplicit false

namespace CallBinding

namespace Text.Codec

/-! ### One character in one to four bytes -/

section Bytes

variable {code low high v : Nat} {ranges : List (Nat × Nat)} {bytes : List UInt8}

theorem followers_two (lead : Nat) (hlow : 0xc2 ≤ lead) (hhigh : lead < 0xe0) :
    followers lead = some [(0x80, 0xbf)] ∧ leadBits lead = lead - 0xc0 := by
  rw [followers, if_neg (by omega), if_neg (by omega), if_pos hhigh, leadBits, if_neg (by omega),
    if_pos hhigh]
  exact ⟨rfl, rfl⟩

/-- Two leading bytes narrow the range of the second byte: the code points below it have a shorter
form, and those above it are no characters. -/
theorem followers_three (lead second : Nat) (hlow : 0xe0 ≤ lead) (hhigh : lead < 0xf0)
    (hshort : lead = 0xe0 → 0xa0 ≤ second) (hchar : lead = 0xed → second ≤ 0x9f)
    (hsecond : 0x80 ≤ second ∧ second ≤ 0xbf) :
    leadBits lead = lead - 0xe0 ∧ ∃ low high,
      followers lead = some [(low, high), (0x80, 0xbf)] ∧ low ≤ second ∧ second ≤ high := by
  rw [leadBits, if_neg (by omega), if_neg (by omega), if_pos hhigh]
  refine ⟨rfl, ?_⟩
  obtain rfl | rfl | ⟨hfirst, hsurrogate⟩ :
      lead = 0xe0 ∨ lead = 0xed ∨ lead ≠ 0xe0 ∧ lead ≠ 0xed := by omega
  · exact ⟨0xa0, 0xbf, rfl, hshort rfl, hsecond.2⟩
  · exact ⟨0x80, 0x9f, rfl, hsecond.1, hchar rfl⟩
  · refine ⟨0x80, 0xbf, ?_, hsecond⟩
    rw [followers, if_neg (by omega), if_neg (by omega), if_neg (by omega), if_neg hfirst,
      if_neg hsurrogate, if_pos hhigh]

theorem followers_four (lead second : Nat) (hlow : 0xf0 ≤ lead) (hhigh : lead ≤ 0xf4)
    (hshort : lead = 0xf0 → 0x90 ≤ second) (hlast : lead = 0xf4 → second ≤ 0x8f)
    (hsecond : 0x80 ≤ second ∧ second ≤ 0xbf) :
    leadBits lead = lead - 0xf0 ∧ ∃ low high,
      followers lead = some [(low, high), (0x80, 0xbf), (0x80, 0xbf)] ∧
        low ≤ second ∧ second ≤ high := by
  rw [leadBits, if_neg (by omega), if_neg (by omega), if_neg (by omega)]
  refine ⟨rfl, ?_⟩
  obtain rfl | rfl | ⟨hfirst, hbelow⟩ :
      lead = 0xf0 ∨ lead = 0xf4 ∨ 0xf0 < lead ∧ lead < 0xf4 := by omega
  · exact ⟨0x90, 0xbf, rfl, hshort rfl, hsecond.2⟩
  · exact ⟨0x80, 0x8f, rfl, hsecond.1, hlast rfl⟩
  · refine ⟨0x80, 0xbf, ?_, hsecond⟩
    rw [followers, if_neg (by omega), if_neg (by omega), if_neg (by omega), if_neg (by omega),
      if_neg (by omega), if_neg (by omega), if_neg (by omega), if_pos hbelow]

theorem toNat_ofNat {n : Nat} (h : n < 256) : (UInt8.ofNat n).toNat = n := by
  rw [UInt8.toNat_ofNat', Nat.mod_eq_of_lt h]

/-- A byte lies in a range. -/
def InRange (b : UInt8) (range : Nat × Nat) : Prop :=
  range.1 ≤ b.toNat ∧ b.toNat ≤ range.2

theorem inRange_ofNat (hv : v < 256) (hlow : low ≤ v) (hhigh : v ≤ high) :
    InRange (UInt8.ofNat v) (low, high) := by
  rw [InRange, toNat_ofNat hv]
  exact ⟨hlow, hhigh⟩

theorem inRange_any (v : Nat) : InRange (UInt8.ofNat (v % 64 + 128)) (0x80, 0xbf) :=
  inRange_ofNat (by omega) (by omega) (by omega)

/-- A following byte adds six bits. -/
theorem takeFollowers_cons (hlow : low ≤ v % 64 + 128) (hhigh : v % 64 + 128 ≤ high) :
    takeFollowers code ((low, high) :: ranges) (UInt8.ofNat (v % 64 + 128) :: bytes) =
      takeFollowers (code * 64 + v % 64) ranges bytes := by
  have hbyte := toNat_ofNat (n := v % 64 + 128) (by omega)
  rw [takeFollowers, hbyte, if_pos ⟨hlow, hhigh⟩, Nat.add_sub_cancel]

/-- Bytes are the form of a code point. The first one leads, and the others follow it in the ranges
that it asks for and complete the code point. -/
structure IsForm (v : Nat) (lead : UInt8) (rest : List UInt8) (ranges : List (Nat × Nat)) :
    Prop where
  followers_eq : followers lead.toNat = some ranges
  inRange : List.Forall₂ InRange rest ranges
  taken : ∀ more, takeFollowers (leadBits lead.toNat) ranges (rest ++ more) = (some v, more)

theorem isForm_one (hv : v ≤ 0x7f) : IsForm v (UInt8.ofNat v) [] [] := by
  have hlead : (UInt8.ofNat v).toNat = v := toNat_ofNat (by omega)
  refine ⟨?_, .nil, fun more ↦ ?_⟩
  · rw [hlead]
    exact if_pos (by omega)
  · rw [hlead, leadBits, if_pos (by omega), List.nil_append, takeFollowers]

theorem isForm_two (hlow : 0x7f < v) (hhigh : v ≤ 0x7ff) :
    IsForm v (UInt8.ofNat (v / 64 % 32 + 192)) [UInt8.ofNat (v % 64 + 128)] [(0x80, 0xbf)] := by
  obtain ⟨hranges, hbits⟩ := followers_two (v / 64 % 32 + 192) (by omega) (by omega)
  have hcode : (v / 64 % 32 + 192 - 0xc0) * 64 + v % 64 = v := by omega
  have hlead := toNat_ofNat (n := v / 64 % 32 + 192) (by omega)
  refine ⟨?_, .cons (inRange_any v) .nil, fun more ↦ ?_⟩
  · rw [hlead, hranges]
  · rw [hlead, List.cons_append, takeFollowers_cons (by omega) (by omega), List.nil_append,
      takeFollowers, hbits, hcode]

theorem exists_isForm_three (hlow : 0x7ff < v) (hhigh : v ≤ 0xffff)
    (hchar : v < 0xd800 ∨ 0xdfff < v) : ∃ ranges,
      IsForm v (UInt8.ofNat (v / 4096 % 16 + 224))
        [UInt8.ofNat (v / 64 % 64 + 128), UInt8.ofNat (v % 64 + 128)] ranges := by
  obtain ⟨hbits, low, high, hranges, hsecond⟩ := followers_three (v / 4096 % 16 + 224)
    (v / 64 % 64 + 128) (by omega) (by omega) (by omega) (by omega) (by omega)
  have hcode : ((v / 4096 % 16 + 224 - 0xe0) * 64 + v / 64 % 64) * 64 + v % 64 = v := by omega
  have hlead := toNat_ofNat (n := v / 4096 % 16 + 224) (by omega)
  refine ⟨_, by rw [hlead, hranges], .cons (inRange_ofNat (by omega) hsecond.1 hsecond.2)
    (.cons (inRange_any v) .nil), fun more ↦ ?_⟩
  rw [hlead, List.cons_append, takeFollowers_cons hsecond.1 hsecond.2, List.cons_append,
    takeFollowers_cons (by omega) (by omega), List.nil_append, takeFollowers, hbits, hcode]

theorem exists_isForm_four (hlow : 0xffff < v) (hhigh : v < 0x110000) : ∃ ranges,
    IsForm v (UInt8.ofNat (v / 262144 % 8 + 240))
      [UInt8.ofNat (v / 4096 % 64 + 128), UInt8.ofNat (v / 64 % 64 + 128),
        UInt8.ofNat (v % 64 + 128)] ranges := by
  obtain ⟨hbits, low, high, hranges, hsecond⟩ := followers_four (v / 262144 % 8 + 240)
    (v / 4096 % 64 + 128) (by omega) (by omega) (by omega) (by omega) (by omega)
  have hcode : (((v / 262144 % 8 + 240 - 0xf0) * 64 + v / 4096 % 64) * 64 + v / 64 % 64) * 64 +
      v % 64 = v := by
    omega
  have hlead := toNat_ofNat (n := v / 262144 % 8 + 240) (by omega)
  refine ⟨_, by rw [hlead, hranges], .cons (inRange_ofNat (by omega) hsecond.1 hsecond.2)
    (.cons (inRange_any (v / 64)) (.cons (inRange_any v) .nil)), fun more ↦ ?_⟩
  rw [hlead, List.cons_append, takeFollowers_cons hsecond.1 hsecond.2, List.cons_append,
    takeFollowers_cons (by omega) (by omega), List.cons_append,
    takeFollowers_cons (by omega) (by omega), List.nil_append, takeFollowers, hbits, hcode]

end Bytes

/-- The bytes of a character are the form of its code point. -/
theorem exists_isForm_utf8EncodeChar (c : Char) : ∃ lead rest ranges,
    String.utf8EncodeChar c = lead :: rest ∧ IsForm c.toNat lead rest ranges := by
  have hvalid : c.val.toNat < 0xd800 ∨ 0xdfff < c.val.toNat ∧ c.val.toNat < 0x110000 := c.valid
  dsimp only [String.utf8EncodeChar, Char.toNat]
  split_ifs with hone htwo hthree
  · exact ⟨_, _, _, rfl, isForm_one hone⟩
  · exact ⟨_, _, _, rfl, isForm_two (by omega) htwo⟩
  · obtain ⟨ranges, hform⟩ := exists_isForm_three (by omega) hthree (by omega)
    exact ⟨_, _, ranges, rfl, hform⟩
  · obtain ⟨ranges, hform⟩ := exists_isForm_four (v := c.val.toNat) (by omega) (by omega)
    exact ⟨_, _, ranges, rfl, hform⟩

theorem decodeUtf8_encodeChar (c : Char) (bytes : List UInt8) :
    decodeUtf8 (String.utf8EncodeChar c ++ bytes) = c :: decodeUtf8 bytes := by
  obtain ⟨lead, rest, ranges, hbytes, hform⟩ := exists_isForm_utf8EncodeChar c
  rw [hbytes, List.cons_append, decodeUtf8, hform.followers_eq]
  simp only [hform.taken, Char.ofNat_toNat]

/-! ### Texts -/

variable {codec : Codec}

/-- The bytes of one character are read back as that character, whatever follows them. -/
theorem decodeChars_encodeChar? {c : Char} {bytes : List UInt8}
    (h : codec.encodeChar? c = some bytes) (more : List UInt8) :
    codec.decodeChars (bytes ++ more) = c :: codec.decodeChars more := by
  cases codec with
  | utf8 =>
    injection h with h
    rw [← h]
    exact decodeUtf8_encodeChar c more
  | ascii =>
    obtain ⟨hc, h⟩ := Option.ite_none_right_eq_some.mp h
    injection h with h
    have hbyte : (UInt8.ofNat c.toNat).toNat = c.toNat := toNat_ofNat (by omega)
    have hlow : UInt8.ofNat c.toNat < 0x80 := by
      rw [UInt8.lt_iff_toNat_lt, hbyte]
      exact hc
    simp [← h, decodeChars, hlow, hbyte]
  | latin1 =>
    obtain ⟨hc, h⟩ := Option.ite_none_right_eq_some.mp h
    injection h with h
    simp [← h, decodeChars, toNat_ofNat hc]

/-- The bytes of a text are those of its first character and those of the rest. -/
theorem exists_of_encodeFrom_cons {offset : Nat} {c : Char} {rest : List Char} {bytes : List UInt8}
    (h : codec.encodeFrom offset (c :: rest) = .ok bytes) :
    ∃ first more, codec.encodeChar? c = some first ∧
      codec.encodeFrom (offset + 1) rest = .ok more ∧ bytes = first ++ more := by
  cases hfirst : codec.encodeChar? c with
  | none => simp [encodeFrom, hfirst] at h
  | some first =>
    cases hrest : codec.encodeFrom (offset + 1) rest with
    | error e => simp [encodeFrom, hfirst, hrest, Except.map] at h
    | ok more =>
      simp only [encodeFrom, hfirst, hrest] at h
      injection h with h
      exact ⟨first, more, rfl, rfl, h.symm⟩

theorem decodeChars_nil (codec : Codec) : codec.decodeChars [] = [] := by
  cases codec <;> simp [decodeChars, decodeUtf8]

theorem decodeChars_encodeFrom {offset : Nat} {chars : List Char} {bytes : List UInt8}
    (h : codec.encodeFrom offset chars = .ok bytes) : codec.decodeChars bytes = chars := by
  induction chars generalizing offset bytes with
  | nil =>
    injection h with h
    rw [← h]
    exact codec.decodeChars_nil
  | cons c rest ih =>
    obtain ⟨first, more, hfirst, hrest, rfl⟩ := exists_of_encodeFrom_cons h
    rw [decodeChars_encodeChar? hfirst, ih hrest]

/-- A text that is encoded is read back. -/
theorem decode_encode {text : String} {bytes : List UInt8} (h : codec.encode text = .ok bytes) :
    codec.decode bytes = text := by
  rw [decode, decodeChars_encodeFrom h, String.ofList_toList]

theorem exists_encode_utf8 (text : String) : ∃ bytes, utf8.encode text = .ok bytes := by
  have hchars (chars : List Char) (offset : Nat) :
      ∃ bytes, utf8.encodeFrom offset chars = .ok bytes := by
    induction chars generalizing offset with
    | nil => exact ⟨[], rfl⟩
    | cons c rest ih =>
      obtain ⟨bytes, hbytes⟩ := ih (offset + 1)
      exact ⟨String.utf8EncodeChar c ++ bytes, by
        simp [encodeFrom, encodeChar?, hbytes, Except.map]⟩
  exact hchars text.toList 0

end Text.Codec

/-! ### Spans -/

namespace Source

/-- The part of a source that lies between a front and a back is a span. -/
theorem span_of_append {codec : Text.Codec} {text : String} {bytes : List UInt8}
    (h : codec.encode text = .ok bytes) (front back : List UInt8) :
    (codec.source (front ++ bytes ++ back)).span front.length (front.length + bytes.length) =
      text := by
  rw [span, slice, Text.Codec.source, Nat.add_sub_cancel_left, List.append_assoc, List.drop_left,
    List.take_left]
  exact Text.Codec.decode_encode h

/-- Any texts are spans of one source. -/
theorem exists_spans (texts : List String) :
    ∃ src : Source, ∀ text ∈ texts, ∃ start stop, src.span start stop = text := by
  choose bytes hbytes using Text.Codec.exists_encode_utf8
  refine ⟨Text.Codec.utf8.source (texts.flatMap bytes), ?_⟩
  intro text htext
  obtain ⟨before, after, rfl⟩ := List.append_of_mem htext
  refine ⟨(before.flatMap bytes).length, (before.flatMap bytes).length + (bytes text).length, ?_⟩
  have hsplit : (before ++ text :: after).flatMap bytes =
      before.flatMap bytes ++ bytes text ++ after.flatMap bytes := by
    simp
  rw [hsplit]
  exact span_of_append (hbytes text) _ _

end Source

end CallBinding
