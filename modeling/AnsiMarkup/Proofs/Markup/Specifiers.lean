import AnsiMarkup.Proofs.Markup.Escapes
import AnsiMarkup.Proofs.Number.SafeIntegers

namespace AnsiMarkup

/-- An integer of at most 53 bits, and not the zero with a minus sign. -/
def Number.IsSafe (number : Number) : Prop :=
  ∃ i : Int, number = .finite i ∧ i.natAbs < safeLimit

namespace Specifier

def toText (specifier : Specifier) : Text :=
  Text.join [comma] (specifier.arguments.map Number.toText) ++
    if specifier.overrideAlways then [mark] else []

theorem isInteger_digits (digits : Text) (digits_ne : digits ≠ [])
    (plain : ∀ u ∈ digits, u.isDigit = true) : isInteger digits = true := by
  rw [isInteger]
  · simp only [Bool.and_eq_true, List.all_eq_true]
    exact ⟨by simpa using digits_ne, plain⟩
  · rintro rest rfl
    exact absurd (plain 45 List.mem_cons_self) (by decide)

theorem isInteger_ofInt (i : Int) : isInteger (Text.ofInt i) = true := by
  cases i with
  | ofNat n => exact isInteger_digits _ (Text.ofNat_ne_nil n) (Text.isDigit_ofNat n)
  | negSucc n =>
    change (decide (Text.ofNat (n + 1) ≠ []) && (Text.ofNat (n + 1)).all CodeUnit.isDigit) = true
    simp only [Bool.and_eq_true, List.all_eq_true]
    exact ⟨by simpa using Text.ofNat_ne_nil (n + 1), Text.isDigit_ofNat (n + 1)⟩

theorem comma_not_mem (text : Text) (integer : isInteger text = true) : comma ∉ text := by
  intro member
  rcases mem_of_isInteger text integer comma member with minus | digit
  · revert minus; decide
  · revert digit; decide

theorem intercalate_mark (parts : List Text) (integers : ∀ part ∈ parts, isInteger part = true) :
    mark ∉ [comma].intercalate parts := by
  intro member
  rcases mem_intercalate comma mark parts member with separator | ⟨part, inParts, inPart⟩
  · revert separator; decide
  · rcases mem_of_isInteger part (integers part inParts) mark inPart with minus | digit
    · revert minus; decide
    · revert digit; decide

theorem ofText?_parts (parts : List Text) (parts_ne : parts ≠ [])
    (integers : ∀ part ∈ parts, isInteger part = true) (overrideAlways : Bool) :
    ofText? ([comma].intercalate parts ++ if overrideAlways then [mark] else []) =
      some ⟨parts.map Number.ofIntegerText, overrideAlways⟩ := by
  have split : ([comma].intercalate parts).splitOn comma = parts :=
    List.splitOn_intercalate comma (fun part member => comma_not_mem part (integers part member))
      parts_ne
  have all : parts.all isInteger = true := List.all_eq_true.mpr integers
  cases overrideAlways with
  | true =>
    have marked : Text.endsWith ([comma].intercalate parts ++ [mark]) mark = true := by
      simp [Text.endsWith_concat]
    simp only [if_true, ofText?, body, List.dropLast_concat, split, all, marked]
  | false =>
    have unmarked : Text.endsWith ([comma].intercalate parts) mark = false := by
      rw [Bool.eq_false_iff, ne_eq, Text.endsWith_iff]
      rintro ⟨front, whole⟩
      apply intercalate_mark parts integers
      rw [whole]
      simp
    simp [ofText?, body, unmarked, split, all]

structure Written (text : Text) (parts : List Text) (marked : Bool) : Prop where
  parts_ne : parts ≠ []
  integers : ∀ part ∈ parts, isInteger part = true
  whole : text = [comma].intercalate parts ++ if marked then [mark] else []

theorem Written.ofText? {text : Text} {parts : List Text} {marked : Bool}
    (written : Written text parts marked) :
    ofText? text = some ⟨parts.map Number.ofIntegerText, marked⟩ := by
  rw [written.whole]
  exact ofText?_parts parts written.parts_ne written.integers marked

theorem body_append_mark (text : Text) :
    body text ++ (if text.endsWith mark then [mark] else []) = text := by
  rw [body]
  split
  · next marked =>
    obtain ⟨front, rfl⟩ := (Text.endsWith_iff text mark).mp marked
    rw [List.dropLast_concat]
  · exact List.append_nil text

theorem ofText?_eq_none_iff (text : Text) :
    ofText? text = none ↔ ¬ ∃ parts marked, Written text parts marked := by
  constructor
  · rintro unread ⟨parts, marked, written⟩
    rw [written.ofText?] at unread
    cases unread
  · intro unwritten
    rw [ofText?]
    refine if_neg fun integers => unwritten ⟨(body text).splitOn comma, text.endsWith mark, ?_, ?_, ?_⟩
    · exact List.splitOn_ne_nil comma (body text)
    · exact List.all_eq_true.mp integers
    · rw [List.intercalate_splitOn, body_append_mark]

theorem ofText?_toText (specifier : Specifier) (arguments_ne : specifier.arguments ≠ [])
    (safe : ∀ argument ∈ specifier.arguments, argument.IsSafe) :
    ofText? specifier.toText = some specifier := by
  have integers : ∀ part ∈ specifier.arguments.map Number.toText, isInteger part = true := by
    intro part member
    rcases List.mem_map.mp member with ⟨argument, inArguments, rfl⟩
    rcases safe argument inArguments with ⟨i, rfl, small⟩
    rw [Number.toText_intCast i small]
    exact isInteger_ofInt i
  have read : (specifier.arguments.map Number.toText).map Number.ofIntegerText =
      specifier.arguments := by
    rw [List.map_map]
    refine (List.map_congr_left ?_).trans (List.map_id _)
    intro argument member
    rcases safe argument member with ⟨i, rfl, small⟩
    rw [Function.comp_apply, Number.toText_intCast i small, Number.ofIntegerText_ofInt i small]
    rfl
  rw [toText, Text.join, ofText?_parts _ (by simpa using arguments_ne) integers, read]

end Specifier

end AnsiMarkup
