import CallBinding.Text.Quoted

/-!
Three encodings of text, and the names by which they are asked for. Encoding fails at the first run
of characters that the encoding lacks. Decoding never fails: it drops each maximal part of the bytes
that no character accounts for.
-/

set_option autoImplicit false
set_option relaxedAutoImplicit false

namespace CallBinding.Text

/-- An encoding of text. -/
inductive Codec
  | utf8
  | ascii
  | latin1
  deriving DecidableEq

/-- Why a name does not stand for an encoding of text. -/
inductive CodecError
  /-- The name holds the null character. -/
  | malformed
  | unknown (name : String)
  | notText (name : String)
  deriving DecidableEq

/-- What is said of a name that is asked to `use`, which is to encode or to decode. -/
def CodecError.message (use : String) : CodecError → String
  | malformed => "embedded null character"
  | unknown name => "unknown encoding: " ++ name
  | notText name =>
    quoted name ++ " is not a text encoding; use codecs." ++ use ++ "() to handle arbitrary codecs"

/-- A run of characters that an encoding lacks, and how many characters stand before it. -/
structure EncodeError where
  codec : Codec
  offset : Nat
  first : Char
  more : List Char
  deriving DecidableEq

namespace Codec

/-- Spellings of the encodings, in lower case with a low line for every run of other signs. -/
def spellings : List (Codec × List String) :=
  [(utf8, ["utf_8", "utf8", "u8", "utf", "utf8_ucs2", "utf8_ucs4", "cp65001"]),
    (ascii, ["ascii", "us_ascii", "us", "646", "ansi_x3.4_1968", "ansi_x3_4_1968",
      "ansi_x3.4_1986", "cp367", "csascii", "ibm367", "iso646_us", "iso_646.irv_1991",
      "iso_ir_6"]),
    (latin1, ["latin_1", "latin1", "latin", "l1", "8859", "iso8859", "iso8859_1", "iso_8859_1",
      "iso_8859_1_1987", "iso_ir_100", "cp819", "csisolatin1", "ibm819"])]

/-- Spellings of encodings that do not encode text. -/
def binarySpellings : List String :=
  ["hex", "hex_codec", "base64", "base64_codec", "base_64", "bz2", "bz2_codec", "quopri",
    "quopri_codec", "quoted_printable", "quotedprintable", "rot13", "rot_13", "uu", "uu_codec",
    "zip", "zlib", "zlib_codec"]

/-- A name of an encoding in the form in which the spellings are listed. -/
def foldName (name : String) : String :=
  let step (word : List Char × Bool) (c : Char) : List Char × Bool :=
    if c.isAlphanum ∨ c = '.' then
      (word.1 ++ (if word.2 ∧ word.1 ≠ [] then ['_', c.toLower] else [c.toLower]), false)
    else (word.1, true)
  String.ofList (name.toList.foldl step ([], false)).1

/-- Whether a name cannot be that of any encoding, because it holds the null character. -/
def isMalformed (name : String) : Bool :=
  name.toList.contains '\x00'

/-- The encoding that a name stands for. -/
def named (name : String) : Except CodecError Codec :=
  if isMalformed name then .error .malformed
  else match spellings.find? fun entry ↦ entry.2.contains (foldName name) with
    | some entry => .ok entry.1
    | none =>
      if binarySpellings.contains (foldName name) then .error (.notText name)
      else .error (.unknown name)

/-- The bytes of a character, when the encoding has it. -/
def encodeChar? : Codec → Char → Option (List UInt8)
  | utf8, c => some (String.utf8EncodeChar c)
  | ascii, c => if c.toNat < 0x80 then some [UInt8.ofNat c.toNat] else none
  | latin1, c => if c.toNat < 0x100 then some [UInt8.ofNat c.toNat] else none

/-- The bytes of a text of which `offset` characters are encoded already. -/
def encodeFrom (codec : Codec) (offset : Nat) : List Char → Except EncodeError (List UInt8)
  | [] => .ok []
  | c :: rest =>
    match codec.encodeChar? c with
    | some bytes => (codec.encodeFrom (offset + 1) rest).map (bytes ++ ·)
    | none =>
      .error ⟨codec, offset, c, rest.takeWhile fun d ↦ (codec.encodeChar? d).isNone⟩

/-- The bytes of a text, or the first run of characters that the encoding lacks. -/
def encode (codec : Codec) (text : String) : Except EncodeError (List UInt8) :=
  codec.encodeFrom 0 text.toList

/-- The ranges of the bytes that follow a leading byte, which are none after a byte that is a
character by itself; no range list for a byte that leads nothing. -/
def followers (lead : Nat) : Option (List (Nat × Nat)) :=
  let any := (0x80, 0xbf)
  if lead < 0x80 then some []
  else if lead < 0xc2 then none
  else if lead < 0xe0 then some [any]
  else if lead = 0xe0 then some [(0xa0, 0xbf), any]
  else if lead = 0xed then some [(0x80, 0x9f), any]
  else if lead < 0xf0 then some [any, any]
  else if lead = 0xf0 then some [(0x90, 0xbf), any, any]
  else if lead < 0xf4 then some [any, any, any]
  else if lead = 0xf4 then some [(0x80, 0x8f), any, any]
  else none

/-- The bits of a code point that a leading byte holds. -/
def leadBits (lead : Nat) : Nat :=
  if lead < 0x80 then lead
  else if lead < 0xe0 then lead - 0xc0
  else if lead < 0xf0 then lead - 0xe0
  else lead - 0xf0

/-- Reads following bytes for as long as each lies in its range. Answers the code point when all of
them do, and the bytes that are not read. -/
def takeFollowers (code : Nat) : List (Nat × Nat) → List UInt8 → Option Nat × List UInt8
  | [], bytes => (some code, bytes)
  | _ :: _, [] => (none, [])
  | (low, high) :: ranges, b :: bytes =>
    if low ≤ b.toNat ∧ b.toNat ≤ high then
      takeFollowers (code * 64 + (b.toNat - 0x80)) ranges bytes
    else (none, b :: bytes)

theorem length_takeFollowers_le (code : Nat) (ranges : List (Nat × Nat)) (bytes : List UInt8) :
    (takeFollowers code ranges bytes).2.length ≤ bytes.length := by
  fun_induction takeFollowers code ranges bytes with
  | case1 => exact Nat.le_refl _
  | case2 => exact Nat.le_refl _
  | case3 _ _ _ _ _ _ _ ih => exact Nat.le_succ_of_le ih
  | case4 => exact Nat.le_refl _

/-- The characters of bytes in the encoding of one to four bytes a character. -/
def decodeUtf8 : List UInt8 → List Char
  | [] => []
  | b :: bytes =>
    match followers b.toNat with
    | none => decodeUtf8 bytes
    | some ranges =>
      let taken := takeFollowers (leadBits b.toNat) ranges bytes
      match taken.1 with
      | some code => Char.ofNat code :: decodeUtf8 taken.2
      | none => decodeUtf8 taken.2
termination_by bytes => bytes.length
decreasing_by
  · simp
  all_goals
    exact Nat.lt_succ_of_le (length_takeFollowers_le _ _ _)

/-- The characters that the bytes hold. -/
def decodeChars : Codec → List UInt8 → List Char
  | utf8, bytes => decodeUtf8 bytes
  | ascii, bytes => (bytes.filter (· < 0x80)).map fun b ↦ Char.ofNat b.toNat
  | latin1, bytes => bytes.map fun b ↦ Char.ofNat b.toNat

/-- The text that the bytes hold. -/
def decode (codec : Codec) (bytes : List UInt8) : String :=
  String.ofList (codec.decodeChars bytes)

/-- The name under which an encoding reports what it lacks. -/
def reportedName : Codec → String
  | utf8 => "utf-8"
  | ascii => "ascii"
  | latin1 => "latin-1"

/-- How many code points an encoding of one byte a character has. -/
def range : Codec → Nat
  | utf8 => 0x110000
  | ascii => 128
  | latin1 => 256

end Codec

namespace EncodeError

def message (e : EncodeError) : String :=
  let what :=
    if e.more = [] then
      "character '" ++ String.ofList (escapeCode e.first) ++ "' in position " ++ toString e.offset
    else
      "characters in position " ++ toString e.offset ++ "-" ++ toString (e.offset + e.more.length)
  quoted e.codec.reportedName ++ " codec can't encode " ++ what ++ ": ordinal not in range("
    ++ toString e.codec.range ++ ")"

end EncodeError

end CallBinding.Text
