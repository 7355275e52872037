import CallBinding.Proofs.CommonEncodings
import CallBinding.Proofs.EncodedText

/-!
The characters of a span. A text that is encoded stands on bytes, each character on its own
(`Text.Codec.placed`), and a span may start and stop at any of them, also in the middle of a
character or past the end. Its text is made of the characters whose bytes it holds in full
(`Text.Codec.within`).

For that, what is left of a character that a span cuts must not be taken for another one, nor spoil
its neighbours (`Text.Codec.Cuts`). In the encoding of one to four bytes a character this is so
because the first byte of a character tells how many follow it, and no byte that follows is one that
could come first.
-/

set_option autoImplicit false
set_option relaxedAutoImplicit false

namespace CallBinding

namespace Text.Codec

/-! ### What is left of a character -/

/-- A byte that follows another one in a character. -/
def IsFollowing (b : UInt8) : Prop :=
  0x80 ≤ b.toNat ∧ b.toNat ≤ 0xbf

/-- The ranges of following bytes hold no other bytes. -/
theorem bounds_of_followers {lead : Nat} {ranges : List (Nat × Nat)}
    (h : followers lead = some ranges) : ∀ range ∈ ranges, 0x80 ≤ range.1 ∧ range.2 ≤ 0xbf := by
  unfold followers at h
  split_ifs at h
  all_goals
    injection h with h
    rw [← h]
    decide

theorem isFollowing_of_inRange {rest : List UInt8} {ranges : List (Nat × Nat)}
    (h : List.Forall₂ InRange rest ranges)
    (hranges : ∀ range ∈ ranges, 0x80 ≤ range.1 ∧ range.2 ≤ 0xbf) : ∀ b ∈ rest, IsFollowing b := by
  induction h with
  | nil => exact nofun
  | cons hfirst _ ih =>
    obtain ⟨⟨hmin, hmax⟩, hmore⟩ := List.forall_mem_cons.mp hranges
    exact List.forall_mem_cons.mpr
      ⟨⟨Nat.le_trans hmin hfirst.1, Nat.le_trans hfirst.2 hmax⟩, ih hmore⟩

/-- Where bytes end before all ranges are met, nothing is read and nothing is left. -/
theorem takeFollowers_take {rest : List UInt8} {ranges : List (Nat × Nat)}
    (h : List.Forall₂ InRange rest ranges) {n : Nat} (hn : n < rest.length) (code : Nat) :
    takeFollowers code ranges (rest.take n) = (none, []) := by
  induction h generalizing n code with
  | nil => exact absurd hn (Nat.not_lt_zero n)
  | @cons b range rest ranges hfirst _ ih =>
    cases n with
    | zero => rfl
    | succ n =>
      obtain ⟨hlow, hhigh⟩ := hfirst
      rw [List.take_succ_cons, takeFollowers, if_pos ⟨hlow, hhigh⟩]
      exact ih (Nat.lt_of_succ_lt_succ hn) _

/-- Bytes that follow are passed over where no byte leads them. -/
theorem decodeUtf8_following {stray : List UInt8} (h : ∀ b ∈ stray, IsFollowing b)
    (more : List UInt8) : decodeUtf8 (stray ++ more) = decodeUtf8 more := by
  induction stray with
  | nil => rfl
  | cons b stray ih =>
    obtain ⟨hb, hstray⟩ := List.forall_mem_cons.mp h
    have hnone : followers b.toNat = none := by
      rw [followers, if_neg (Nat.not_lt.mpr hb.1), if_pos (Nat.lt_of_le_of_lt hb.2 (by decide))]
    rw [List.cons_append, decodeUtf8, hnone]
    exact ih hstray

/-- The bytes of one character. There is one, and when a span cuts them, the ones in front of the
cut are no character where the span ends, and the ones behind it are none either and leave what
comes after them as it is. -/
structure Cuts (codec : Codec) (bytes : List UInt8) : Prop where
  length_pos : 0 < bytes.length
  front : ∀ n < bytes.length, codec.decodeChars (bytes.take n) = []
  back : ∀ n m : Nat, 0 < n → ∀ more,
    codec.decodeChars ((bytes.drop n).take m ++ more) = codec.decodeChars more

/-- A character of one byte is not cut. -/
theorem cuts_singleton (codec : Codec) (b : UInt8) : codec.Cuts [b] where
  length_pos := Nat.one_pos
  front n hn := by
    obtain rfl : n = 0 := Nat.lt_one_iff.mp hn
    exact codec.decodeChars_nil
  back n m hn more := by
    obtain ⟨n, rfl⟩ := Nat.exists_eq_succ_of_ne_zero (Nat.ne_of_gt hn)
    rw [List.drop_succ_cons, List.drop_nil, List.take_nil, List.nil_append]

theorem cuts_utf8EncodeChar (c : Char) : utf8.Cuts (String.utf8EncodeChar c) := by
  obtain ⟨lead, rest, ranges, hbytes, hform⟩ := exists_isForm_utf8EncodeChar c
  rw [hbytes]
  refine ⟨Nat.succ_pos _, ?front, ?back⟩
  case front =>
    intro n hn
    cases n with
    | zero => exact utf8.decodeChars_nil
    | succ n =>
      have htaken := takeFollowers_take hform.inRange (Nat.lt_of_succ_lt_succ hn)
      rw [List.take_succ_cons, decodeChars, decodeUtf8, hform.followers_eq]
      simp only [htaken]
      exact utf8.decodeChars_nil
  case back =>
    intro n m hn more
    obtain ⟨n, rfl⟩ := Nat.exists_eq_succ_of_ne_zero (Nat.ne_of_gt hn)
    refine decodeUtf8_following (fun b hb ↦ ?_) more
    have hmem : b ∈ rest := List.mem_of_mem_drop (List.mem_of_mem_take hb)
    exact isFollowing_of_inRange hform.inRange (bounds_of_followers hform.followers_eq) b hmem

variable {codec : Codec}

theorem cuts_encodeChar? {c : Char} {bytes : List UInt8} (h : codec.encodeChar? c = some bytes) :
    codec.Cuts bytes := by
  cases codec with
  | utf8 =>
    injection h with h
    rw [← h]
    exact cuts_utf8EncodeChar c
  | ascii =>
    obtain ⟨-, h⟩ := Option.ite_none_right_eq_some.mp h
    injection h with h
    rw [← h]
    exact cuts_singleton _ _
  | latin1 =>
    obtain ⟨-, h⟩ := Option.ite_none_right_eq_some.mp h
    injection h with h
    rw [← h]
    exact cuts_singleton _ _

/-! ### Characters on their bytes -/

/-- A character of a text and the bytes on which it stands, from `start` up to `stop`. -/
structure Placed where
  char : Char
  start : Nat
  stop : Nat
  deriving DecidableEq

/-- Whether a span holds all bytes of a character. -/
def Placed.inside (start stop : Nat) (c : Placed) : Bool :=
  start ≤ c.start ∧ c.stop ≤ stop

/-- The characters whose bytes a span holds, in order. -/
def charsInside (chars : List Placed) (start stop : Nat) : List Char :=
  (chars.filter (Placed.inside start stop)).map Placed.char

theorem charsInside_cons (c : Placed) (rest : List Placed) (start stop : Nat) :
    charsInside (c :: rest) start stop =
      (if start ≤ c.start ∧ c.stop ≤ stop then [c.char] else []) ++
        charsInside rest start stop := by
  by_cases hin : start ≤ c.start ∧ c.stop ≤ stop <;>
    simp [charsInside, Placed.inside, hin]

theorem charsInside_append (chars chars' : List Placed) (start stop : Nat) :
    charsInside (chars ++ chars') start stop =
      charsInside chars start stop ++ charsInside chars' start stop := by
  rw [charsInside, List.filter_append, List.map_append]
  rfl

theorem charsInside_congr {chars : List Placed} {start stop start' stop' : Nat}
    (h : ∀ c ∈ chars, start ≤ c.start ∧ c.stop ≤ stop ↔ start' ≤ c.start ∧ c.stop ≤ stop') :
    charsInside chars start stop = charsInside chars start' stop' := by
  rw [charsInside, charsInside]
  congr 1
  exact List.filter_congr fun c hc ↦ decide_eq_decide.mpr (h c hc)

theorem charsInside_eq_nil {chars : List Placed} {start stop : Nat}
    (h : ∀ c ∈ chars, ¬ (start ≤ c.start ∧ c.stop ≤ stop)) : charsInside chars start stop = [] := by
  rw [charsInside, List.map_eq_nil_iff, List.filter_eq_nil_iff]
  exact fun c hc hin ↦ h c hc (of_decide_eq_true hin)

theorem charsInside_eq_map {chars : List Placed} {start stop : Nat}
    (h : ∀ c ∈ chars, start ≤ c.start ∧ c.stop ≤ stop) :
    charsInside chars start stop = chars.map Placed.char := by
  have hall : chars.filter (Placed.inside start stop) = chars :=
    List.filter_eq_self.mpr fun c hc ↦ decide_eq_true (h c hc)
  rw [charsInside, hall]

/-- How many bytes characters have together. -/
def size (codec : Codec) (chars : List Char) : Nat :=
  (chars.flatMap fun c ↦ (codec.encodeChar? c).getD []).length

/-- How many bytes a character has. -/
def width (codec : Codec) (c : Char) : Nat :=
  ((codec.encodeChar? c).getD []).length

theorem size_cons (codec : Codec) (c : Char) (rest : List Char) :
    codec.size (c :: rest) = codec.width c + codec.size rest := by
  rw [size, List.flatMap_cons, List.length_append]
  rfl

theorem size_append (codec : Codec) (chars chars' : List Char) :
    codec.size (chars ++ chars') = codec.size chars + codec.size chars' := by
  rw [size, List.flatMap_append, List.length_append]
  rfl

/-- Characters on their bytes, one after the other from `offset` on. -/
def placed (codec : Codec) (offset : Nat) : List Char → List Placed
  | [] => []
  | c :: rest =>
    ⟨c, offset, offset + codec.width c⟩ :: codec.placed (offset + codec.width c) rest

/-- The characters of a text whose bytes lie within a span of its bytes. -/
def within (codec : Codec) (text : String) (start stop : Nat) : String :=
  String.ofList (charsInside (codec.placed 0 text.toList) start stop)

/-- The bytes from `start` up to `stop` of bytes that stand from `offset` on. -/
def window (bytes : List UInt8) (offset start stop : Nat) : List UInt8 :=
  (bytes.drop (start - offset)).take (stop - max start offset)

theorem window_append (first more : List UInt8) (offset start stop : Nat) :
    window (first ++ more) offset start stop =
      window first offset start stop ++ window more (offset + first.length) start stop := by
  have hcount : stop - max start offset - (first.length - (start - offset)) =
      stop - max start (offset + first.length) := by
    omega
  rw [window, List.drop_append, List.take_append, List.length_drop, hcount, Nat.sub_sub]
  rfl

theorem width_eq {c : Char} {bytes : List UInt8} (h : codec.encodeChar? c = some bytes) :
    codec.width c = bytes.length := by
  rw [width, h, Option.getD_some]

/-- The part of a character in a window is read as that character when it is all of it, and as
nothing otherwise. What follows is read as if it stood alone. -/
theorem decodeChars_window_append {c : Char} {first : List UInt8}
    (h : codec.encodeChar? c = some first) (more : List UInt8) (offset start stop : Nat) :
    codec.decodeChars (window (first ++ more) offset start stop) =
      (if start ≤ offset ∧ offset + first.length ≤ stop then [c] else []) ++
        codec.decodeChars (window more (offset + first.length) start stop) := by
  have hcuts := cuts_encodeChar? h
  rw [window_append]
  by_cases hstart : start ≤ offset
  · by_cases hstop : offset + first.length ≤ stop
    · have hwhole : window first offset start stop = first := by
        rw [window, Nat.sub_eq_zero_of_le hstart, List.drop_zero]
        exact List.take_of_length_le (by omega)
      rw [hwhole, if_pos ⟨hstart, hstop⟩, decodeChars_encodeChar? h]
      rfl
    · have hlength := hcuts.length_pos
      have hfront : window first offset start stop = first.take (stop - max start offset) := by
        rw [window, Nat.sub_eq_zero_of_le hstart, List.drop_zero]
      have hend : window more (offset + first.length) start stop = [] := by
        rw [window, Nat.sub_eq_zero_of_le (by omega), List.take_zero]
      rw [hfront, hend, if_neg (fun hin ↦ hstop hin.2), List.append_nil, List.nil_append,
        hcuts.front _ (by omega), codec.decodeChars_nil]
  · rw [if_neg (fun hin ↦ hstart hin.1), List.nil_append]
    exact hcuts.back (start - offset) (stop - max start offset) (by omega) _

/-- A window on the bytes of characters is read as those that it holds in full. -/
theorem decodeChars_window {index : Nat} {chars : List Char} {bytes : List UInt8}
    (h : codec.encodeFrom index chars = .ok bytes) (offset start stop : Nat) :
    codec.decodeChars (window bytes offset start stop) =
      charsInside (codec.placed offset chars) start stop := by
  induction chars generalizing index bytes offset with
  | nil =>
    injection h with h
    rw [← h, window, List.drop_nil, List.take_nil]
    exact codec.decodeChars_nil
  | cons c rest ih =>
    obtain ⟨first, more, hfirst, hmore, rfl⟩ := exists_of_encodeFrom_cons h
    rw [decodeChars_window_append hfirst, ih hmore, placed, width_eq hfirst, charsInside_cons]

/-! ### Where characters stand -/

theorem map_char_placed (codec : Codec) (offset : Nat) (chars : List Char) :
    (codec.placed offset chars).map Placed.char = chars := by
  induction chars generalizing offset with
  | nil => rfl
  | cons c rest ih => rw [placed, List.map_cons, ih]

theorem placed_append (codec : Codec) (offset : Nat) (chars chars' : List Char) :
    codec.placed offset (chars ++ chars') =
      codec.placed offset chars ++ codec.placed (offset + codec.size chars) chars' := by
  induction chars generalizing offset with
  | nil => rfl
  | cons c rest ih =>
    rw [List.cons_append, placed, ih, placed, List.cons_append, size_cons, Nat.add_assoc]

theorem bounds_of_mem_placed {offset : Nat} {chars : List Char} {c : Placed}
    (h : c ∈ codec.placed offset chars) :
    offset ≤ c.start ∧ c.start ≤ c.stop ∧ c.stop ≤ offset + codec.size chars := by
  induction chars generalizing offset with
  | nil => exact absurd h List.not_mem_nil
  | cons d rest ih =>
    have hsize := codec.size_cons d rest
    rcases List.mem_cons.mp h with rfl | h
    · exact ⟨Nat.le_refl _, Nat.le_add_right _ _, by dsimp only; omega⟩
    · obtain ⟨hstart, hle, hstop⟩ := ih h
      exact ⟨by omega, hle, by omega⟩

/-- Each character stands behind those before it. -/
theorem pairwise_placed (codec : Codec) (offset : Nat) (chars : List Char) :
    (codec.placed offset chars).Pairwise fun c d ↦ c.stop ≤ d.start := by
  induction chars generalizing offset with
  | nil => exact .nil
  | cons c rest ih => exact .cons (fun d hd ↦ (bounds_of_mem_placed hd).1) (ih _)

theorem apart_of_mem_placed {offset : Nat} {chars : List Char} {c d : Placed}
    (hc : c ∈ codec.placed offset chars) (hd : d ∈ codec.placed offset chars) :
    c = d ∨ c.stop ≤ d.start ∨ d.stop ≤ c.start := by
  have horder := codec.pairwise_placed offset chars
  exact List.Pairwise.forall_of_forall_of_flip
    (R := fun c d ↦ c = d ∨ c.stop ≤ d.start ∨ d.stop ≤ c.start) (fun c _ ↦ .inl rfl)
    (horder.imp fun h ↦ .inr (.inl h)) (horder.imp fun h ↦ .inr (.inr h)) hc hd

/-- A character stands on its own bytes. -/
theorem encodeChar?_of_mem_placed {index offset : Nat} {chars : List Char} {bytes : List UInt8}
    (h : codec.encodeFrom index chars = .ok bytes) {c : Placed}
    (hc : c ∈ codec.placed offset chars) :
    codec.encodeChar? c.char =
      some ((bytes.drop (c.start - offset)).take (c.stop - c.start)) := by
  induction chars generalizing index offset bytes with
  | nil => exact absurd hc List.not_mem_nil
  | cons d rest ih =>
    obtain ⟨first, more, hfirst, hmore, rfl⟩ := exists_of_encodeFrom_cons h
    rcases List.mem_cons.mp hc with rfl | hc
    · rw [Nat.sub_self, List.drop_zero, Nat.add_sub_cancel_left, width_eq hfirst, List.take_left]
      exact hfirst
    · have hstart := (bounds_of_mem_placed hc).1
      rw [width_eq hfirst] at hstart hc
      have hdrop : (first ++ more).drop (c.start - offset) =
          more.drop (c.start - (offset + first.length)) := by
        have hlength : c.start - offset = first.length + (c.start - (offset + first.length)) := by
          omega
        rw [hlength, List.drop_length_add_append]
      rw [hdrop]
      exact ih hmore hc

/-- Every character has a byte. -/
theorem start_lt_stop_of_mem_placed {index offset : Nat} {chars : List Char} {bytes : List UInt8}
    (h : codec.encodeFrom index chars = .ok bytes) {c : Placed}
    (hc : c ∈ codec.placed offset chars) : c.start < c.stop := by
  have hlength := (cuts_encodeChar? (encodeChar?_of_mem_placed h hc)).length_pos
  have hle := List.length_take_le (c.stop - c.start) (bytes.drop (c.start - offset))
  omega

/-- From one boundary of characters to another stand the characters between them. -/
theorem within_boundaries {text front middle back : String} {bytes : List UInt8}
    (h : codec.encode text = .ok bytes) (htext : front ++ middle ++ back = text) :
    codec.within text (codec.size front.toList) (codec.size (front ++ middle).toList) = middle := by
  have hplaced : codec.placed 0 text.toList = codec.placed 0 front.toList ++
      codec.placed (codec.size front.toList) middle.toList ++
        codec.placed (codec.size (front ++ middle).toList) back.toList := by
    rw [← htext, String.toList_append, String.toList_append, placed_append, placed_append,
      size_append, Nat.zero_add, Nat.zero_add]
  have hwidth : ∀ c ∈ codec.placed 0 text.toList, c.start < c.stop :=
    fun c hc ↦ start_lt_stop_of_mem_placed h hc
  rw [hplaced] at hwidth
  rw [within, hplaced, charsInside_append, charsInside_append, charsInside_eq_nil ?front,
    charsInside_eq_map ?middle, charsInside_eq_nil ?back, map_char_placed, List.append_nil,
    List.nil_append, String.ofList_toList]
  case front =>
    intro c hc hin
    have hstop := (bounds_of_mem_placed hc).2.2
    have hlt := hwidth c (List.mem_append_left _ (List.mem_append_left _ hc))
    omega
  case middle =>
    intro c hc
    obtain ⟨hstart, -, hstop⟩ := bounds_of_mem_placed hc
    rw [String.toList_append, size_append]
    exact ⟨hstart, hstop⟩
  case back =>
    intro c hc hin
    have hstart := (bounds_of_mem_placed hc).1
    have hlt := hwidth c (List.mem_append_right _ hc)
    omega

/-- A span that starts in a character holds what the span from its end holds. -/
theorem within_of_cut_start {text : String} {c : Placed} (hc : c ∈ codec.placed 0 text.toList)
    {start : Nat} (hafter : c.start < start) (hbefore : start < c.stop) (stop : Nat) :
    codec.within text start stop = codec.within text c.stop stop := by
  rw [within, within, charsInside_congr]
  intro d hd
  have hle := (bounds_of_mem_placed hd).2.1
  rcases apart_of_mem_placed hc hd with rfl | hcd | hdc <;> omega

/-- A span that stops in a character holds what the span up to its start holds. -/
theorem within_of_cut_stop {text : String} {c : Placed} (hc : c ∈ codec.placed 0 text.toList)
    {stop : Nat} (hafter : c.start < stop) (hbefore : stop < c.stop) (start : Nat) :
    codec.within text start stop = codec.within text start c.start := by
  rw [within, within, charsInside_congr]
  intro d hd
  have hle := (bounds_of_mem_placed hd).2.1
  rcases apart_of_mem_placed hc hd with rfl | hcd | hdc <;> omega

end Text.Codec

/-! ### Spans -/

namespace Source

variable {codec : Text.Codec} {bytes : List UInt8} {text : String}

theorem span_eq_within (h : codec.encode text = .ok bytes) (start stop : Nat) :
    (codec.source bytes).span start stop = codec.within text start stop := by
  rw [Text.Codec.within, ← Text.Codec.decodeChars_window h, Text.Codec.window, Nat.sub_zero,
    Nat.max_zero, span, slice]
  rfl

/-- What spans of a source are, when the source is a text in an encoding. The text's characters
stand on their bytes, one behind the other, and a span is made of those that stand within it. So a
span between boundaries of characters is the text between them, and a cut at either end loses the
character that it cuts and no other. -/
structure SpansCharacters (codec : Text.Codec) (src : Source) (text : String) : Prop where
  chars_eq : (codec.placed 0 text.toList).map Text.Codec.Placed.char = text.toList
  bytes_eq : ∀ c ∈ codec.placed 0 text.toList,
    codec.encodeChar? c.char = some (src.slice c.start c.stop)
  in_order : (codec.placed 0 text.toList).Pairwise fun c d ↦ c.stop ≤ d.start
  span_eq : ∀ start stop, src.span start stop = codec.within text start stop
  text_eq : ∀ n : Node, src.text n = codec.within text n.start n.stop
  boundaries : ∀ front middle back : String, front ++ middle ++ back = text →
    src.span (codec.size front.toList) (codec.size (front ++ middle).toList) = middle
  cut_start : ∀ c ∈ codec.placed 0 text.toList, ∀ start stop,
    c.start < start → start < c.stop → src.span start stop = src.span c.stop stop
  cut_stop : ∀ c ∈ codec.placed 0 text.toList, ∀ start stop,
    c.start < stop → stop < c.stop → src.span start stop = src.span start c.start

theorem spansCharacters_of_encode (h : codec.encode text = .ok bytes) :
    (codec.source bytes).SpansCharacters codec text where
  chars_eq := codec.map_char_placed 0 text.toList
  bytes_eq _ hc := Text.Codec.encodeChar?_of_mem_placed h hc
  in_order := codec.pairwise_placed 0 text.toList
  span_eq := span_eq_within h
  text_eq n := span_eq_within h n.start n.stop
  boundaries front middle back htext := by
    rw [span_eq_within h]
    exact Text.Codec.within_boundaries h htext
  cut_start c hc start stop hafter hbefore := by
    rw [span_eq_within h, span_eq_within h]
    exact Text.Codec.within_of_cut_start hc hafter hbefore stop
  cut_stop c hc start stop hafter hbefore := by
    rw [span_eq_within h, span_eq_within h]
    exact Text.Codec.within_of_cut_stop hc hafter hbefore start

/-- A source that is a text in one of the encodings gives its characters back, for every span. So
does a text that is encoded by the name of the encoding, and no span of it fails to be read. -/
theorem spans_characters (h : codec.encode text = .ok bytes) :
    (codec.source bytes).SpansCharacters codec text ∧
    ∀ name, Text.Codec.named name = .ok codec →
      Text.Codecs.common.encode name text = .ok bytes ∧
      ∀ start stop, (Encoded.mk bytes (Text.Codecs.common.decode name)).span start stop =
        .ok (codec.within text start stop) := by
  refine ⟨spansCharacters_of_encode h, fun name hname ↦ ⟨?_, fun start stop ↦ ?_⟩⟩
  · rw [Text.Codecs.encode_common hname, h]
    rfl
  · rw [Encoded.span_common hname, span_eq_within h]

/-- The text `aé€😀b`, whose characters have one to four bytes. -/
def fiveCharacters : Source :=
  Text.Codec.utf8.source "aé€😀b".toUTF8.toList

/-- Between its boundaries the text is read back. A span that starts in the second character and
stops in the fourth is the third. -/
theorem spans_characters_of_five_characters :
    Text.Codec.utf8.encode "aé€😀b" = .ok "aé€😀b".toUTF8.toList ∧
      fiveCharacters.span 1 10 = "é€😀" ∧ fiveCharacters.span 2 9 = "€" ∧
      fiveCharacters.span 2 9 = fiveCharacters.span 3 6 := by
  have hencode : Text.Codec.utf8.encode "aé€😀b" = .ok "aé€😀b".toUTF8.toList := by
    decide +kernel
  have hspans : fiveCharacters.SpansCharacters .utf8 "aé€😀b" := (spans_characters hencode).1
  refine ⟨hencode, hspans.boundaries "a" "é€😀" "b" (by decide), ?_, ?_⟩
  · rw [hspans.span_eq]
    decide +kernel
  · rw [hspans.cut_start ⟨'é', 1, 3⟩ (by decide) 2 9 (by decide) (by decide),
      hspans.cut_stop ⟨'😀', 6, 10⟩ (by decide) 3 9 (by decide) (by decide)]

end Source

end CallBinding
