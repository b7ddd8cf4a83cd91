import InfixCalc.Program
import InfixCalc.Proofs.Lines
import Mathlib.Data.List.Basic

/-!
# Encoded lines

Bytes are decoded to the text that they encode, and to nothing else.  The byte
of a line feed occurs in an encoded text only where a line feed stands, so the
lines of the bytes, decoded one by one, are the lines of the text.

* `decodeText_eq_ok` : decoding undoes encoding.
* `lineText_byteLines` : the lines of the bytes are the lines of the text.
-/

namespace InfixCalc
namespace Program

/-- The bytes of a text in UTF-8. -/
def encodeText (text : Text) : Bytes :=
  text.flatMap String.utf8EncodeChar

@[simp] theorem encodeText_nil :
    encodeText [] = [] := by
  rfl

@[simp] theorem encodeText_append
    (first second : Text) :
    encodeText (first ++ second) = encodeText first ++ encodeText second :=
  List.flatMap_append

theorem encodeText_eq_nil
    {text : Text} :
    encodeText text = [] ↔ text = [] := by
  cases text with
  | nil =>
      simp
  | cons c rest =>
      simp [encodeText]

theorem utf8Encode_eq
    (text : Text) :
    text.utf8Encode = ⟨(encodeText text).toArray⟩ := by
  rw [List.utf8Encode, ByteArray.ext_iff, List.data_toByteArray]
  rfl

theorem fromUTF8?_eq_some
    {bytes : ByteArray} {text : String} :
    String.fromUTF8? bytes = some text ↔ bytes = text.toByteArray := by
  constructor
  · intro htext
    rw [String.fromUTF8?] at htext
    split at htext
    · cases htext
      rfl
    · cases htext
  · rintro rfl
    exact dif_pos text.isValidUTF8

/-- Bytes are decoded to a text just when they encode it. -/
theorem decodeText_eq_ok
    {bytes : Bytes} {text : Text} :
    decodeText bytes = .ok text ↔ bytes = encodeText text := by
  constructor
  · intro hdecode
    rw [decodeText] at hdecode
    split at hdecode
    · next found hfound =>
        cases hdecode
        have hbytes := fromUTF8?_eq_some.mp hfound
        rw [← String.utf8Encode_toList, utf8Encode_eq] at hbytes
        injection hbytes with harray
        exact congrArg Array.toList harray
    · cases hdecode
  · rintro rfl
    have hfound : String.fromUTF8? ⟨(encodeText text).toArray⟩ = some (String.ofList text) := by
      rw [fromUTF8?_eq_some, ← utf8Encode_eq]
      rfl
    rw [decodeText, hfound]
    exact congrArg Except.ok String.toList_ofList

theorem decodeText_encodeText
    (text : Text) :
    decodeText (encodeText text) = .ok text :=
  decodeText_eq_ok.mpr rfl

theorem feed_eq_ofNat
    {n : Nat} :
    10 = UInt8.ofNat n ↔ n % 256 = 10 := by
  rw [← UInt8.toNat_inj, UInt8.toNat_ofNat', eq_comm]
  rfl

/-- The byte of a line feed stands for a line feed: all bytes of a character of
several bytes are 128 or more. -/
theorem feed_of_mem_utf8EncodeChar
    {c : Char}
    (hmem : 10 ∈ String.utf8EncodeChar c) :
    c = '\n' := by
  revert hmem
  fun_cases String.utf8EncodeChar with
  | case1 v hsmall =>
      intro hmem
      rw [List.mem_singleton, feed_eq_ofNat] at hmem
      have hcode : c.val.toNat = 10 := by
        omega
      exact Char.toNat_inj.mp hcode
  | case2 v =>
      simp only [List.mem_cons, feed_eq_ofNat, List.not_mem_nil, or_false]
      omega
  | case3 v =>
      simp only [List.mem_cons, feed_eq_ofNat, List.not_mem_nil, or_false]
      omega
  | case4 v =>
      simp only [List.mem_cons, feed_eq_ofNat, List.not_mem_nil, or_false]
      omega

theorem feed_of_mem_encodeText
    {text : Text}
    (hmem : 10 ∈ encodeText text) :
    '\n' ∈ text := by
  obtain ⟨c, hc, hbyte⟩ := List.mem_flatMap.mp hmem
  rw [← feed_of_mem_utf8EncodeChar hbyte]
  exact hc

theorem byteLines_append_feed
    {line : Bytes}
    (hline : 10 ∉ line)
    (rest : Bytes) :
    byteLines (line ++ 10 :: rest) = (line ++ [10]) :: byteLines rest := by
  induction line with
  | nil =>
      rw [List.nil_append, byteLines, if_pos rfl]
      rfl
  | cons byte line ih =>
      rw [List.mem_cons, not_or] at hline
      rw [List.cons_append, byteLines, if_neg (Ne.symm hline.1), ih hline.2]
      rfl

theorem byteLines_of_no_feed
    {line : Bytes}
    (hne : line ≠ [])
    (hline : 10 ∉ line) :
    byteLines line = [line] := by
  induction line with
  | nil =>
      exact absurd rfl hne
  | cons byte line ih =>
      rw [List.mem_cons, not_or] at hline
      rw [byteLines, if_neg (Ne.symm hline.1)]
      cases line with
      | nil =>
          rfl
      | cons next line =>
          rw [ih (List.cons_ne_nil _ _) hline.2]

theorem dropEnding_of_no_feed
    {line : Text}
    (hline : '\n' ∉ line) :
    dropEnding line = line := by
  unfold dropEnding
  split
  · next opened hreverse =>
      exact absurd (List.mem_reverse.mp (hreverse ▸ List.mem_cons_self)) hline
  · next opened _ hreverse =>
      exact absurd (List.mem_reverse.mp (hreverse ▸ List.mem_cons_self)) hline
  · rfl

theorem dropEnding_append_feed
    (line : Text) :
    dropEnding (line ++ ['\n']) = (Text.dropReturn line.reverse).reverse := by
  rw [dropEnding, List.reverse_append, List.reverse_singleton, List.singleton_append]
  cases hreverse : line.reverse with
  | nil =>
      rfl
  | cons c opened =>
      by_cases hreturn : c = '\r'
      · rw [hreturn]
        rfl
      · rw [Text.dropReturn]
        · split <;> simp_all
        · simp [hreturn]

/-- The text of a line of bytes, without its ending. -/
def lineText (bytes : Bytes) : Except ReadError Text :=
  (decodeText bytes).map dropEnding

theorem lineText_encodeText
    (text : Text) :
    lineText (encodeText text) = .ok (dropEnding text) := by
  rw [lineText, decodeText_encodeText]
  rfl

theorem byteLines_encodeText
    {line : Text}
    (hline : '\n' ∉ line)
    (rest : Text) :
    byteLines (encodeText (line ++ '\n' :: rest)) =
      encodeText (line ++ ['\n']) :: byteLines (encodeText rest) := by
  rw [encodeText_append, encodeText_append]
  exact byteLines_append_feed (mt feed_of_mem_encodeText hline) (encodeText rest)

theorem lineText_of_cut
    {text : Text} {parts : List Text}
    (hcut : Text.Cut text parts) :
    (byteLines (encodeText text)).map lineText = parts.map .ok := by
  induction hcut with
  | empty =>
      rfl
  | @unended line hne hline =>
      have hbytes : encodeText line ≠ [] := mt encodeText_eq_nil.mp hne
      rw [byteLines_of_no_feed hbytes (mt feed_of_mem_encodeText hline), List.map_singleton,
        lineText_encodeText, dropEnding_of_no_feed hline]
      rfl
  | @feed line rest later hline hreturn _ ih =>
      rw [byteLines_encodeText hline, List.map_cons, ih, lineText_encodeText,
        dropEnding_append_feed, Text.dropReturn_of_getLast? hreturn]
      rfl
  | @returnFeed line rest later hline _ ih =>
      have hsplit : line ++ '\r' :: '\n' :: rest = (line ++ ['\r']) ++ '\n' :: rest := by
        simp
      rw [hsplit, byteLines_encodeText (by simpa using hline), List.map_cons, ih,
        lineText_encodeText, dropEnding_append_feed, Text.dropReturn_append_return]
      rfl

/-- The lines of the bytes of a text are the lines of the text. -/
theorem lineText_byteLines
    (text : Text) :
    (byteLines (encodeText text)).map lineText = (Text.lines text).map .ok :=
  lineText_of_cut (Text.cut_lines text)

end Program
end InfixCalc
