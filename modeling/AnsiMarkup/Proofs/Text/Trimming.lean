import AnsiMarkup.Text
import Mathlib.Data.List.DropRight

namespace AnsiMarkup

namespace Text

structure Trimmed (t : Text) : Prop where
  first : ∀ u ∈ t.head?, u.isBlank = false
  last : ∀ u ∈ t.getLast?, u.isBlank = false

def IsBlank (t : Text) : Prop := ∀ u ∈ t, u.isBlank = true

instance (t : Text) : Decidable t.IsBlank := List.decidableBAll (fun u : CodeUnit => u.isBlank = true) t

theorem dropWhile_of_head (t : Text) (first : ∀ u ∈ t.head?, u.isBlank = false) :
    t.dropWhile CodeUnit.isBlank = t := by
  cases t with
  | nil => rfl
  | cons u rest => exact List.dropWhile_cons_of_neg (Bool.eq_false_iff.mp (first u rfl))

theorem not_isBlank_head (t : Text) : ∀ u ∈ (t.dropWhile CodeUnit.isBlank).head?, u.isBlank = false := by
  intro u found
  have unblank := List.head?_dropWhile_not CodeUnit.isBlank t
  rwa [Option.mem_def.mp found] at unblank

theorem trim_eq_rdropWhile (t : Text) :
    trim t = (t.dropWhile CodeUnit.isBlank).rdropWhile CodeUnit.isBlank := rfl

theorem trimmed_trim (t : Text) : (trim t).Trimmed := by
  rw [trim_eq_rdropWhile]
  constructor
  · intro u found
    obtain ⟨rest, whole⟩ := List.rdropWhile_prefix CodeUnit.isBlank (t.dropWhile CodeUnit.isBlank)
    apply not_isBlank_head t u
    rw [← whole, List.head?_append, Option.mem_def.mp found]
    rfl
  · intro u found
    rw [List.rdropWhile, List.getLast?_reverse] at found
    exact not_isBlank_head _ u found

theorem mem_of_mem_trim (t : Text) (u : CodeUnit) (present : u ∈ trim t) : u ∈ t := by
  have kept := (List.rdropWhile_prefix CodeUnit.isBlank (t.dropWhile CodeUnit.isBlank)).subset present
  exact (List.dropWhile_suffix CodeUnit.isBlank).subset kept

theorem trim_padded (before t after : Text) (blank_before : IsBlank before) (blank_after : IsBlank after)
    (trimmed : t.Trimmed) (t_ne : t ≠ []) : trim (before ++ t ++ after) = t := by
  have front : ∀ u ∈ (t ++ after).head?, u.isBlank = false := by
    intro u found
    rw [List.head?_append_of_ne_nil _ t_ne] at found
    exact trimmed.first u found
  have back : ∀ u ∈ t.reverse.head?, u.isBlank = false := by
    intro u found
    rw [List.head?_reverse] at found
    exact trimmed.last u found
  have blank_reverse : ∀ u ∈ after.reverse, u.isBlank = true := by
    intro u member
    exact blank_after u (List.mem_reverse.mp member)
  calc
    trim (before ++ t ++ after) = (t ++ after).rdropWhile CodeUnit.isBlank := by
      rw [trim_eq_rdropWhile, List.append_assoc, List.dropWhile_append_of_pos blank_before,
        dropWhile_of_head _ front]
    _ = (t.reverse.dropWhile CodeUnit.isBlank).reverse := by
      rw [List.rdropWhile, List.reverse_append, List.dropWhile_append_of_pos blank_reverse]
    _ = t := by rw [dropWhile_of_head _ back, List.reverse_reverse]

theorem trim_eq_self_iff (t : Text) : trim t = t ↔ t.Trimmed := by
  constructor
  · intro same
    rw [← same]
    exact trimmed_trim t
  · intro trimmed
    by_cases t_ne : t = []
    · rw [t_ne]
      rfl
    · have padded := trim_padded [] t [] (by simp [IsBlank]) (by simp [IsBlank]) trimmed t_ne
      rwa [List.nil_append, List.append_nil] at padded

theorem trim_trim (t : Text) : trim (trim t) = trim t := (trim_eq_self_iff _).mpr (trimmed_trim t)

theorem not_mem_of_mem_splitOn (sep : CodeUnit) (t part : Text) (member : part ∈ t.splitOn sep) :
    sep ∉ part := by
  induction t generalizing part with
  | nil =>
    rw [List.splitOn_nil, List.mem_singleton] at member
    rw [member]
    exact List.not_mem_nil
  | cons u rest ih =>
    rw [List.splitOn_cons_eq_if_modifyHead] at member
    split at member
    · rcases List.mem_cons.mp member with rfl | later
      · exact List.not_mem_nil
      · exact ih part later
    · next other =>
      obtain ⟨first, others, split⟩ := List.exists_cons_of_ne_nil (List.splitOn_ne_nil sep rest)
      rw [split] at member ih
      rcases List.mem_cons.mp member with rfl | later
      · rw [List.mem_cons, not_or]
        exact ⟨fun same => other (beq_iff_eq.mpr same.symm), ih first List.mem_cons_self⟩
      · exact ih part (List.mem_cons_of_mem first later)

end Text

end AnsiMarkup
