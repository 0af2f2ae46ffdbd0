import AnsiMarkup.Text.Utf8
import Mathlib.Data.List.Basic

namespace AnsiMarkup

namespace CodeUnit

theorem isHighSurrogate_iff (u : CodeUnit) :
    u.isHighSurrogate = true ↔ 0xD800 ≤ u.toNat ∧ u.toNat < 0xDC00 := by
  rw [isHighSurrogate, Bool.and_eq_true, decide_eq_true_iff, decide_eq_true_iff]
  exact Iff.rfl

theorem isLowSurrogate_iff (u : CodeUnit) :
    u.isLowSurrogate = true ↔ 0xDC00 ≤ u.toNat ∧ u.toNat < 0xE000 := by
  rw [isLowSurrogate, Bool.and_eq_true, decide_eq_true_iff, decide_eq_true_iff]
  exact Iff.rfl

def IsWhole (u : CodeUnit) : Prop := u.isHighSurrogate = false ∧ u.isLowSurrogate = false

theorem IsWhole.toNat {u : CodeUnit} (whole : u.IsWhole) : u.toNat < 0xD800 ∨ 0xE000 ≤ u.toNat := by
  have high := (isHighSurrogate_iff u).not.mp (Bool.eq_false_iff.mp whole.1)
  have low := (isLowSurrogate_iff u).not.mp (Bool.eq_false_iff.mp whole.2)
  omega

end CodeUnit

namespace Text

inductive Paired : Text → Prop
  | nil : Paired []
  | unit (u : CodeUnit) (rest : Text) (whole : u.IsWhole) (later : Paired rest) : Paired (u :: rest)
  | pair (high low : CodeUnit) (rest : Text) (first : high.isHighSurrogate = true)
      (second : low.isLowSurrogate = true) (later : Paired rest) : Paired (high :: low :: rest)

theorem toNat_char (n : Nat) (valid : n.isValidChar) : (Char.ofNat n).toNat = n := by
  rw [Char.ofNat, dif_pos valid]
  rfl

theorem toUInt16_toNat (u : CodeUnit) : u.toNat.toUInt16 = u := UInt16.ofNat_toNat

theorem ofChar_loneChar (u : CodeUnit) (whole : u.IsWhole) : ofChar (loneChar u) = [u] := by
  have bound : u.toNat < 0x10000 := u.toNat_lt
  have apart := whole.toNat
  have valid : u.toNat.isValidChar := by
    rw [Nat.isValidChar]
    omega
  rw [loneChar, whole.1, whole.2, Bool.or_false, if_neg Bool.false_ne_true, ofChar,
    toNat_char _ valid, ofCodePoint, if_pos bound, toUInt16_toNat]

theorem ofChar_pairChar (high low : CodeUnit) (first : high.isHighSurrogate = true)
    (second : low.isLowSurrogate = true) : ofChar (pairChar high low) = [high, low] := by
  have upper := (CodeUnit.isHighSurrogate_iff high).mp first
  have lower := (CodeUnit.isLowSurrogate_iff low).mp second
  have valid : (0x10000 + (high.toNat - 0xD800) * 0x400 + (low.toNat - 0xDC00)).isValidChar := by
    rw [Nat.isValidChar]
    omega
  rw [pairChar, ofChar, toNat_char _ valid, ofCodePoint, if_neg (by omega)]
  have front : 0xD800 + (0x10000 + (high.toNat - 0xD800) * 0x400 + (low.toNat - 0xDC00) - 0x10000) /
      0x400 = high.toNat := by omega
  have back : 0xDC00 + (0x10000 + (high.toNat - 0xD800) * 0x400 + (low.toNat - 0xDC00) - 0x10000) %
      0x400 = low.toNat := by omega
  rw [front, back, toUInt16_toNat, toUInt16_toNat]

theorem toChars_unit (u : CodeUnit) (rest : Text) (whole : u.IsWhole) :
    toChars (u :: rest) = loneChar u :: toChars rest := by
  cases rest with
  | nil => rfl
  | cons v rest =>
    rw [toChars, whole.1, Bool.false_and]
    rfl

theorem Paired.flatMap_ofChar {t : Text} (paired : t.Paired) : (toChars t).flatMap ofChar = t := by
  induction paired with
  | nil => rfl
  | unit u rest whole _ ih =>
    rw [toChars_unit u rest whole, List.flatMap_cons, ofChar_loneChar u whole, ih]
    rfl
  | pair high low rest first second _ ih =>
    rw [toChars, first, second, Bool.and_true, if_pos rfl, List.flatMap_cons,
      ofChar_pairChar high low first second, ih]
    rfl

end Text

namespace Utf8

theorem toNat_toUInt8 {b : Nat} (byte : b < 0x100) : b.toUInt8.toNat = b :=
  UInt8.toNat_ofNat_of_lt' byte

section

variable (rest : List UInt8)

/-- A byte that begins a longer character gives nothing yet. -/
theorem decodeFrom_first {b : Nat} {state : State} (byte : b < 0x100) (begins : first b = ([], state)) :
    decodeFrom .start (b.toUInt8 :: rest) = decodeFrom state rest := by
  rw [decodeFrom, toNat_toUInt8 byte, step, begins, List.nil_append]

theorem decodeFrom_within {needed value low high d : Nat} (more : needed ≠ 1)
    (above : low ≤ 0x80 + d % 0x40) (below : 0x80 + d % 0x40 ≤ high) :
    decodeFrom (.within needed value low high) ((0x80 + d % 0x40).toUInt8 :: rest) =
      decodeFrom (.within (needed - 1) (value * 0x40 + d % 0x40) 0x80 0xBF) rest := by
  have byte : 0x80 + d % 0x40 < 0x100 := by omega
  rw [decodeFrom, toNat_toUInt8 byte, step, if_pos ⟨above, below⟩, if_neg more, List.nil_append,
    Nat.add_sub_cancel_left]

theorem decodeFrom_last {value low high d : Nat} (above : low ≤ 0x80 + d % 0x40)
    (below : 0x80 + d % 0x40 ≤ high) :
    decodeFrom (.within 1 value low high) ((0x80 + d % 0x40).toUInt8 :: rest) =
      Text.ofCodePoint (value * 0x40 + d % 0x40) ++ decodeFrom .start rest := by
  have byte : 0x80 + d % 0x40 < 0x100 := by omega
  rw [decodeFrom, toNat_toUInt8 byte, step, if_pos ⟨above, below⟩, if_pos rfl,
    Nat.add_sub_cancel_left]

theorem decodeFrom_two {n : Nat} (lower : 0x80 ≤ n) (upper : n < 0x800) :
    decodeFrom .start ((0xC0 + n / 0x40).toUInt8 :: (0x80 + n % 0x40).toUInt8 :: rest) =
      Text.ofCodePoint n ++ decodeFrom .start rest := by
  have begins : first (0xC0 + n / 0x40) = ([], .within 1 (n / 0x40) 0x80 0xBF) := by
    rw [first, if_neg (by omega), if_pos (by omega), Nat.add_sub_cancel_left]
  have whole : n / 0x40 * 0x40 + n % 0x40 = n := Nat.div_add_mod' n 0x40
  rw [decodeFrom_first _ (by omega) begins, decodeFrom_last _ (by omega) (by omega), whole]

theorem decodeFrom_three {n : Nat} (lower : 0x800 ≤ n) (upper : n < 0x10000)
    (scalar : n < 0xD800 ∨ 0xE000 ≤ n) :
    decodeFrom .start ((0xE0 + n / 0x1000).toUInt8 :: (0x80 + n / 0x40 % 0x40).toUInt8 ::
        (0x80 + n % 0x40).toUInt8 :: rest) = Text.ofCodePoint n ++ decodeFrom .start rest := by
  have begins : first (0xE0 + n / 0x1000) =
      ([], .within 2 (n / 0x1000) (if 0xE0 + n / 0x1000 = 0xE0 then 0xA0 else 0x80)
        (if 0xE0 + n / 0x1000 = 0xED then 0x9F else 0xBF)) := by
    rw [first, if_neg (by omega), if_neg (by omega), if_pos (by omega), Nat.add_sub_cancel_left]
  have above : (if 0xE0 + n / 0x1000 = 0xE0 then 0xA0 else 0x80) ≤ 0x80 + n / 0x40 % 0x40 := by
    split <;> omega
  have below : 0x80 + n / 0x40 % 0x40 ≤ (if 0xE0 + n / 0x1000 = 0xED then 0x9F else 0xBF) := by
    split <;> omega
  have whole : (n / 0x1000 * 0x40 + n / 0x40 % 0x40) * 0x40 + n % 0x40 = n := by omega
  rw [decodeFrom_first _ (by omega) begins, decodeFrom_within _ (by decide) above below,
    decodeFrom_last _ (by omega) (by omega), whole]

/-- The range of the second byte leaves out what three bytes can spell, and what is no character. -/
theorem decodeFrom_four {n : Nat} (lower : 0x10000 ≤ n) (upper : n < 0x110000) :
    decodeFrom .start ((0xF0 + n / 0x40000).toUInt8 :: (0x80 + n / 0x1000 % 0x40).toUInt8 ::
        (0x80 + n / 0x40 % 0x40).toUInt8 :: (0x80 + n % 0x40).toUInt8 :: rest) =
      Text.ofCodePoint n ++ decodeFrom .start rest := by
  have begins : first (0xF0 + n / 0x40000) =
      ([], .within 3 (n / 0x40000) (if 0xF0 + n / 0x40000 = 0xF0 then 0x90 else 0x80)
        (if 0xF0 + n / 0x40000 = 0xF4 then 0x8F else 0xBF)) := by
    rw [first, if_neg (by omega), if_neg (by omega), if_neg (by omega), if_pos (by omega),
      Nat.add_sub_cancel_left]
  have above : (if 0xF0 + n / 0x40000 = 0xF0 then 0x90 else 0x80) ≤ 0x80 + n / 0x1000 % 0x40 := by
    split <;> omega
  have below : 0x80 + n / 0x1000 % 0x40 ≤ (if 0xF0 + n / 0x40000 = 0xF4 then 0x8F else 0xBF) := by
    split <;> omega
  have whole : ((n / 0x40000 * 0x40 + n / 0x1000 % 0x40) * 0x40 + n / 0x40 % 0x40) * 0x40 +
      n % 0x40 = n := by omega
  rw [decodeFrom_first _ (by omega) begins, decodeFrom_within _ (by decide) above below,
    decodeFrom_within _ (by decide) (by omega) (by omega), decodeFrom_last _ (by omega) (by omega),
    whole]

theorem decodeFrom_encodeCodePoint (n : Nat) (valid : n.isValidChar) :
    decodeFrom .start (encodeCodePoint n ++ rest) = Text.ofCodePoint n ++ decodeFrom .start rest := by
  rw [Nat.isValidChar] at valid
  rw [encodeCodePoint]
  split
  · next small =>
    rw [List.singleton_append, decodeFrom, toNat_toUInt8 (by omega), step, first, if_pos small,
      Text.ofCodePoint, if_pos (by omega)]
  · split
    · exact decodeFrom_two rest (by omega) (by omega)
    · split
      -- The surrogates are code points of three bytes that are no characters.
      · exact decodeFrom_three rest (by omega) (by omega) (by omega)
      · exact decodeFrom_four rest (by omega) (by omega)

end

theorem decode_chars (chars : List Char) :
    decode (chars.flatMap fun c => encodeCodePoint c.toNat) = chars.flatMap Text.ofChar := by
  induction chars with
  | nil => rfl
  | cons c chars ih =>
    rw [decode] at ih ⊢
    rw [List.flatMap_cons, decodeFrom_encodeCodePoint _ c.toNat c.valid, ih]
    rfl

theorem decode_encode (t : Text) (paired : t.Paired) : decode (encode t) = t :=
  (decode_chars (Text.toChars t)).trans paired.flatMap_ofChar

end Utf8

end AnsiMarkup
