import AnsiMarkup.Marker
import Mathlib.Data.List.Basic

namespace AnsiMarkup

namespace Text

theorem endsWith_concat (text : Text) (u v : CodeUnit) : endsWith (text ++ [u]) v = (u == v) := by
  simp [endsWith]

theorem endsWith_iff (text : Text) (u : CodeUnit) :
    text.endsWith u = true ↔ ∃ body, text = body ++ [u] := by
  simp [endsWith, List.getLast?_eq_some_iff]

def IsPlain (text : Text) : Prop := ∀ u ∈ text, Marker.ofUnit? u = none

instance (text : Text) : Decidable text.IsPlain :=
  List.decidableBAll (fun u => Marker.ofUnit? u = none) text

theorem isPlain_append (front back : Text) :
    IsPlain (front ++ back) ↔ front.IsPlain ∧ back.IsPlain := by
  simp only [IsPlain, List.mem_append, or_imp, forall_and]

theorem IsPlain.reverse {text : Text} (plain : text.IsPlain) : IsPlain text.reverse := by
  intro u member
  exact plain u (List.mem_reverse.mp member)

theorem not_isPlain_concat (body : Text) (marker : Marker) :
    ¬ IsPlain (body ++ marker.toText) := by
  intro plain
  have unmarked := plain marker.toUnit (by simp [Marker.toText])
  rw [Marker.ofUnit?_toUnit] at unmarked
  cases unmarked

theorem endsWith_marker (body : Text) (marker : Marker) :
    endsWith (body ++ marker.toText) CodeUnit.backslash = false := by
  rw [Marker.toText, endsWith_concat]
  cases marker <;> rfl

end Text

theorem Marker.ofUnit?_backslash : Marker.ofUnit? CodeUnit.backslash = none := rfl

namespace Escaping

theorem ofText_of_not_endsWith (text : Text)
    (unescaped : text.endsWith CodeUnit.backslash = false) : ofText text = ⟨text, false⟩ := by
  rw [ofText, if_neg (by simp [unescaped])]

theorem ofText_backslash (text : Text) :
    ofText (text ++ [CodeUnit.backslash]) = ⟨text, !text.endsWith CodeUnit.backslash⟩ := by
  rw [ofText, if_pos (by simp [Text.endsWith_concat]), List.dropLast_concat]

end Escaping

namespace Specifier

theorem mem_intercalate (sep u : CodeUnit) (parts : List Text)
    (present : u ∈ [sep].intercalate parts) : u = sep ∨ ∃ part ∈ parts, u ∈ part := by
  induction parts with
  | nil => simp at present
  | cons first rest ih =>
    cases rest with
    | nil => exact Or.inr ⟨first, by simp, by simpa using present⟩
    | cons second rest =>
      rw [List.intercalate_cons_cons] at present
      simp only [List.mem_append, List.mem_singleton] at present
      rcases present with (inFirst | separator) | inRest
      · exact Or.inr ⟨first, by simp, inFirst⟩
      · exact Or.inl separator
      · rcases ih inRest with separator | ⟨part, member, inPart⟩
        · exact Or.inl separator
        · exact Or.inr ⟨part, List.mem_cons_of_mem _ member, inPart⟩

theorem mem_of_isInteger (text : Text) (integer : isInteger text = true) (u : CodeUnit)
    (present : u ∈ text) : u = 45 ∨ u.isDigit = true := by
  unfold isInteger at integer
  split at integer
  · rename_i digits
    simp only [Bool.and_eq_true, List.all_eq_true] at integer
    rcases List.mem_cons.mp present with rfl | member
    · exact Or.inl rfl
    · exact Or.inr (integer.2 u member)
  · simp only [Bool.and_eq_true, List.all_eq_true] at integer
    exact Or.inr (integer.2 u present)

def IsLetter (u : CodeUnit) : Prop := u = comma ∨ u = mark ∨ u = 45 ∨ u.isDigit = true

theorem IsLetter.ofUnit? (u : CodeUnit) (letter : IsLetter u) : Marker.ofUnit? u = none := by
  have opening : u ≠ 60 := by
    rintro rfl
    revert letter
    unfold IsLetter
    decide
  have closing : u ≠ 62 := by
    rintro rfl
    revert letter
    unfold IsLetter
    decide
  rw [Marker.ofUnit?, if_neg opening, if_neg closing]

theorem not_isLetter_backslash : ¬ IsLetter CodeUnit.backslash := by
  unfold IsLetter
  decide

theorem mem_of_ofText? (text : Text) (specifier : Specifier) (found : ofText? text = some specifier)
    (u : CodeUnit) (present : u ∈ text) : IsLetter u := by
  simp only [ofText?] at found
  split at found
  · rename_i integers
    rw [List.all_eq_true] at integers
    have joined : [comma].intercalate ((body text).splitOn comma) = body text :=
      List.intercalate_splitOn comma
    have inBody (member : u ∈ body text) : IsLetter u := by
      rw [← joined] at member
      rcases mem_intercalate comma u _ member with separator | ⟨part, inParts, inPart⟩
      · exact Or.inl separator
      · exact Or.inr (Or.inr (mem_of_isInteger part (integers part inParts) u inPart))
    by_cases marked : text.endsWith mark = true
    · obtain ⟨before, rfl⟩ := (Text.endsWith_iff text mark).mp marked
      have body_eq : body (before ++ [mark]) = before := by
        rw [body, if_pos marked, List.dropLast_concat]
      rcases List.mem_append.mp present with member | member
      · exact inBody (by rw [body_eq]; exact member)
      · exact Or.inr (Or.inl (List.mem_singleton.mp member))
    · exact inBody (by rw [body, if_neg marked]; exact present)
  · cases found

theorem isPlain_of_ofText? (text : Text) (specifier : Specifier)
    (found : ofText? text = some specifier) : text.IsPlain := by
  intro u present
  apply IsLetter.ofUnit?
  exact mem_of_ofText? text specifier found u present

theorem ofText?_of_not_isPlain (text : Text) (marked : ¬ text.IsPlain) : ofText? text = none := by
  cases found : ofText? text with
  | none => rfl
  | some specifier => exact absurd (isPlain_of_ofText? text specifier found) marked

theorem ofText?_backslash (text : Text) : ofText? (text ++ [CodeUnit.backslash]) = none := by
  cases found : ofText? (text ++ [CodeUnit.backslash]) with
  | none => rfl
  | some specifier =>
    have letter := mem_of_ofText? _ specifier found CodeUnit.backslash (by simp)
    exact absurd letter not_isLetter_backslash

theorem ofText?_nil : ofText? [] = none := rfl

theorem arguments_ne_nil (text : Text) (specifier : Specifier)
    (found : ofText? text = some specifier) : specifier.arguments ≠ [] := by
  simp only [ofText?] at found
  split at found
  · cases found
    simp [List.splitOn_ne_nil]
  · cases found

end Specifier

end AnsiMarkup
