import AnsiMarkup.Diagnostic
import Mathlib.Data.List.Basic

namespace AnsiMarkup

namespace Text

def lineStart (text : Text) : Nat :=
  match text.lastIndexOf CodeUnit.newline with
  | some i => i + 1
  | none => 0

theorem lastIndexOf_append (u : CodeUnit) (front back : Text) :
    lastIndexOf u (front ++ back) =
      match back.lastIndexOf u with
      | some i => some (front.length + i)
      | none => front.lastIndexOf u := by
  induction front with
  | nil => cases found : back.lastIndexOf u <;> simp [found, lastIndexOf]
  | cons v front ih =>
    rw [List.cons_append, lastIndexOf, ih]
    cases found : back.lastIndexOf u with
    | none => simp [lastIndexOf]
    | some i => simp only [List.length_cons, Option.some.injEq]; omega

theorem lastIndexOf_eq_none_iff (u : CodeUnit) (text : Text) :
    text.lastIndexOf u = none ↔ u ∉ text := by
  induction text with
  | nil => simp [lastIndexOf]
  | cons v text ih =>
    cases found : lastIndexOf u text with
    | none =>
      have absent : u ∉ text := ih.mp found
      by_cases same : v = u
      · simp [lastIndexOf, found, same]
      · simp [lastIndexOf, found, same, absent, Ne.symm same]
    | some i =>
      have present : u ∈ text := by
        apply not_not.mp
        intro absent
        rw [ih.mpr absent] at found
        cases found
      simp [lastIndexOf, found, present]

theorem lastIndexOf_eq_some_iff (u : CodeUnit) (text : Text) (i : Nat) :
    text.lastIndexOf u = some i ↔
      ∃ front back, text = front ++ u :: back ∧ front.length = i ∧ u ∉ back := by
  constructor
  · intro found
    induction text generalizing i with
    | nil => cases found
    | cons v rest ih =>
      rw [lastIndexOf] at found
      cases later : lastIndexOf u rest with
      | some j =>
        rw [later] at found
        cases found
        obtain ⟨front, back, rfl, length, last⟩ := ih j later
        exact ⟨v :: front, back, rfl, congrArg Nat.succ length, last⟩
      | none =>
        simp only [later] at found
        split at found
        · next same =>
          cases found
          exact ⟨[], rest, by rw [same]; rfl, rfl, (lastIndexOf_eq_none_iff u rest).mp later⟩
        · cases found
  · rintro ⟨front, back, rfl, rfl, last⟩
    have none := (lastIndexOf_eq_none_iff u back).mpr last
    rw [lastIndexOf_append, lastIndexOf, none]
    simp

theorem lineStart_append (front back : Text) :
    lineStart (front ++ back) =
      match back.lastIndexOf CodeUnit.newline with
      | some i => front.length + i + 1
      | none => front.lineStart := by
  rw [lineStart, lastIndexOf_append]
  cases back.lastIndexOf CodeUnit.newline <;> rfl

theorem lineStart_of_not_mem (text : Text) (absent : CodeUnit.newline ∉ text) :
    text.lineStart = 0 := by
  rw [lineStart, (lastIndexOf_eq_none_iff _ _).mpr absent]

theorem lineStart_append_of_not_mem (front back : Text) (absent : CodeUnit.newline ∉ back) :
    lineStart (front ++ back) = front.lineStart := by
  rw [lineStart_append, (lastIndexOf_eq_none_iff _ _).mpr absent]

theorem lineStart_append_newline (front back : Text) :
    lineStart (front ++ CodeUnit.newline :: back) = front.length + 1 + back.lineStart := by
  rw [lineStart_append, lastIndexOf]
  cases found : back.lastIndexOf CodeUnit.newline with
  | none => simp [lineStart, found]
  | some i => simp only [lineStart, found]; omega

end Text

namespace Position

/-- The place of an index: bare in a text of one line, otherwise by the newlines before it. -/
def ofIndex (text : Text) (i : Nat) : Position :=
  if CodeUnit.newline ∈ text then
    .lineColumn ((text.take i).count CodeUnit.newline + 1) (i - Text.lineStart (text.take i) + 1)
  else .offset i

theorem ofIndex_congr (first second : Text) (i : Nat) (before : first.take i = second.take i)
    (newline : CodeUnit.newline ∈ first ↔ CodeUnit.newline ∈ second) :
    ofIndex first i = ofIndex second i := by
  rw [ofIndex, ofIndex, before]
  simp only [newline]

/-- The text starts at `start` of a longer one, and `j` counts from there. -/
theorem findLine_splitOn (text : Text) (line start j : Nat) (inside : j < text.length) :
    findLine line start (start + j) (text.splitOn CodeUnit.newline) =
      some (.lineColumn (line + (text.take j).count CodeUnit.newline)
        (j - Text.lineStart (text.take j) + 1)) := by
  induction size : text.length using Nat.strongRecOn generalizing text line start j with
  | ind size ih =>
    by_cases newline : CodeUnit.newline ∈ text
    · obtain ⟨first, rest, rfl, plain⟩ := List.eq_append_cons_of_mem newline
      have take_plain : CodeUnit.newline ∉ first.take j := by
        intro member
        exact plain (List.mem_of_mem_take member)
      rw [List.splitOn_append_cons_self_of_not_mem plain, findLine]
      by_cases before : j < first.length + 1
      · have taken : (first ++ CodeUnit.newline :: rest).take j = first.take j :=
          List.take_append_of_le_length (by omega)
        rw [if_pos (by omega), taken, List.count_eq_zero.mpr take_plain,
          Text.lineStart_of_not_mem _ take_plain]
        simp
      · obtain ⟨k, rfl⟩ : ∃ k, j = first.length + 1 + k := ⟨j - (first.length + 1), by omega⟩
        have taken : (first ++ CodeUnit.newline :: rest).take (first.length + 1 + k) =
            first ++ CodeUnit.newline :: rest.take k := by
          rw [Nat.add_assoc, List.take_length_add_append, Nat.add_comm 1 k, List.take_succ_cons]
        simp only [List.length_append, List.length_cons] at inside size
        have later := ih rest.length (by omega) rest (line + 1) (start + first.length + 1) k
          (by omega) rfl
        have shifted : start + (first.length + 1 + k) = start + first.length + 1 + k := by omega
        rw [if_neg (by omega), taken, shifted, later, List.count_append,
          List.count_eq_zero.mpr plain, List.count_cons_self, Text.lineStart_append_newline]
        congr 2 <;> omega
    · have take_plain : CodeUnit.newline ∉ text.take j := by
        intro member
        exact newline (List.mem_of_mem_take member)
      rw [List.splitOn_eq_singleton newline, findLine, if_pos (by omega),
        List.count_eq_zero.mpr take_plain, Text.lineStart_of_not_mem _ take_plain]
      simp

theorem locate_of_toIndex? (text : Text) (index : Number) (i : Nat) (whole : index.toIndex? = some i)
    (inside : i < text.length) : locate text index = .ok (some (ofIndex text i)) := by
  have text_ne : text ≠ [] := by
    rintro rfl
    simp at inside
  rw [locate, if_neg text_ne, whole]
  simp only [if_neg (Nat.not_le.mpr inside)]
  by_cases newline : CodeUnit.newline ∈ text
  · obtain ⟨front, back, rfl⟩ := List.append_of_mem newline
    have several : ((front ++ CodeUnit.newline :: back).splitOn CodeUnit.newline).length ≠ 1 := by
      rw [List.splitOn_append_cons_self]
      have left := List.length_pos_iff.mpr (List.splitOn_ne_nil CodeUnit.newline front)
      have right := List.length_pos_iff.mpr (List.splitOn_ne_nil CodeUnit.newline back)
      rw [List.length_append]
      omega
    have found := findLine_splitOn (front ++ CodeUnit.newline :: back) 1 0 i inside
    rw [Nat.zero_add] at found
    rw [if_neg several, found, ofIndex, if_pos newline, Nat.add_comm 1]
  · rw [List.splitOn_eq_singleton newline, ofIndex, if_neg newline]
    simp

theorem locate_ofNat (text : Text) (i : Nat) (inside : i < text.length) :
    locate text (Number.ofNat i) = .ok (some (ofIndex text i)) :=
  locate_of_toIndex? text _ i (Number.toIndex?_ofNat i) inside

end Position

end AnsiMarkup
