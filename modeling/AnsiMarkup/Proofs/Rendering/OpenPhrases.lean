import AnsiMarkup.Proofs.Rendering.Parts

namespace AnsiMarkup

theorem getElem?_concat_cases {α : Type} (front : List α) (last : α) (n : Nat) (x : α)
    (found : (front ++ [last])[n]? = some x) :
    (front[n]? = some x ∧ (front ++ [last]).take n = front.take n) ∨
      n = front.length ∧ last = x ∧ (front ++ [last]).take n = front := by
  rcases Nat.lt_or_ge n front.length with earlier | later
  · rw [List.getElem?_append_left earlier] at found
    exact .inl ⟨found, List.take_append_of_le_length (Nat.le_of_lt earlier)⟩
  · rw [List.getElem?_append_right later, List.getElem?_singleton] at found
    split at found
    · next zero =>
      have same : n = front.length := by omega
      exact .inr ⟨same, Option.some.inj found, by rw [same, List.take_left]⟩
    · cases found

namespace Part

def inside : Part → Option Nat
  | .literal _ inside => inside
  | .opening _ around => around
  | .closing phrase _ => some phrase

/-- These phrases are open when these parts have been read, the innermost one first. A phrase is not
opened twice, and the innermost one is closed. -/
inductive LeavesOpen : List Part → List Nat → Prop
  | start : LeavesOpen [] []
  | literal (read : List Part) (opened : List Nat) (u : CodeUnit) (before : LeavesOpen read opened) :
      LeavesOpen (read ++ [.literal u opened.head?]) opened
  | opening (read : List Part) (opened : List Nat) (phrase : Nat) (before : LeavesOpen read opened)
      (fresh : ∀ around, .opening phrase around ∉ read) :
      LeavesOpen (read ++ [.opening phrase opened.head?]) (phrase :: opened)
  | closing (read : List Part) (opened : List Nat) (phrase : Nat)
      (before : LeavesOpen read (phrase :: opened)) :
      LeavesOpen (read ++ [.closing phrase opened.head?]) opened

def OpensBelow (number : Nat) (read : List Part) : Prop :=
  ∀ phrase around, .opening phrase around ∈ read → phrase < number

variable {read : List Part} {opened : List Nat} {number : Nat}

theorem OpensBelow.concat (below : OpensBelow number read) {limit : Nat} (wider : number ≤ limit)
    (part : Part) (last : ∀ phrase around, part = .opening phrase around → phrase < limit) :
    OpensBelow limit (read ++ [part]) := by
  intro phrase around member
  rcases List.mem_append.mp member with earlier | new
  · exact Nat.lt_of_lt_of_le (below phrase around earlier) wider
  · exact last phrase around (List.mem_singleton.mp new).symm

theorem OpensBelow.literals (below : OpensBelow number read) (inside : Option Nat) (piece : Text) :
    OpensBelow number (read ++ literals inside piece) := by
  intro phrase around member
  rcases List.mem_append.mp member with earlier | new
  · exact below phrase around earlier
  · rcases List.mem_map.mp new with ⟨u, -, same⟩
    cases same

theorem LeavesOpen.literals (before : LeavesOpen read opened) (piece : Text) :
    LeavesOpen (read ++ Part.literals opened.head? piece) opened := by
  induction piece generalizing read with
  | nil => rwa [Part.literals, List.map_nil, List.append_nil]
  | cons u piece ih =>
    have one := ih (.literal read opened u before)
    rwa [List.append_assoc] at one

theorem LeavesOpen.ofForest (before : LeavesOpen read opened) (below : OpensBelow number read)
    (text : Text) (last : Int) (phrases : List Phrase) :
    LeavesOpen (read ++ Part.ofForest opened.head? number text last phrases) opened ∧
      OpensBelow (number + Phrase.counts phrases)
        (read ++ Part.ofForest opened.head? number text last phrases) := by
  induction phrases using Phrase.forest_induction
    generalizing read opened number text last with
  | nil => exact ⟨before.literals _, below.literals _ _⟩
  | cons phrase rest inner right =>
    have first := before.literals (text.slice last phrase.openIndex)
    have first_below := below.literals opened.head? (text.slice last phrase.openIndex)
    -- All phrases opened so far have smaller numbers, so this one is opened for the first time.
    have entered := LeavesOpen.opening _ _ number first
      fun around member => Nat.lt_irrefl number (first_below number around member)
    have entered_below : OpensBelow (number + 1) _ :=
      first_below.concat (Nat.le_succ number) (.opening number opened.head?) (by
        rintro _ _ ⟨⟩
        exact Nat.lt_succ_self number)
    obtain ⟨within, within_below⟩ := inner entered entered_below phrase.text 0
    have left := LeavesOpen.closing _ _ _ within
    have left_below := within_below.concat (Nat.le_refl _) (.closing number opened.head?)
      (fun _ _ absurd => by cases absurd)
    obtain ⟨all, all_below⟩ := right left left_below text (phrase.closeIndex.getD 0 + 1)
    rw [ofForest_cons, Phrase.counts, Phrase.count_eq]
    rw [List.head?_cons] at all all_below
    simp only [List.append_assoc, List.cons_append, List.nil_append] at all all_below ⊢
    refine ⟨all, ?_⟩
    have sum : number + (Phrase.counts phrase.children + 1 + Phrase.counts rest) =
        number + 1 + Phrase.counts phrase.children + Phrase.counts rest := by omega
    rwa [sum]

theorem LeavesOpen.exists_opening (before : LeavesOpen read opened) :
    ∀ phrase ∈ opened, ∃ around, .opening phrase around ∈ read := by
  induction before with
  | start => simp
  | literal read opened u before ih =>
    intro phrase member
    obtain ⟨around, earlier⟩ := ih phrase member
    exact ⟨around, List.mem_append_left _ earlier⟩
  | opening read opened new before fresh ih =>
    intro phrase member
    rcases List.mem_cons.mp member with rfl | member
    · exact ⟨_, List.mem_append_right _ (List.mem_singleton_self _)⟩
    · obtain ⟨around, earlier⟩ := ih phrase member
      exact ⟨around, List.mem_append_left _ earlier⟩
  | closing read opened closed before ih =>
    intro phrase member
    obtain ⟨around, earlier⟩ := ih phrase (List.mem_cons_of_mem _ member)
    exact ⟨around, List.mem_append_left _ earlier⟩

theorem LeavesOpen.exists_opening_of_closing (before : LeavesOpen read opened) (closed phrase : Nat)
    (ends : .closing closed (some phrase) ∈ read) : ∃ around, .opening phrase around ∈ read := by
  induction before with
  | start => cases ends
  | literal read opened u before ih =>
    obtain ⟨around, earlier⟩ := ih (by simpa using ends)
    exact ⟨around, List.mem_append_left _ earlier⟩
  | opening read opened new before fresh ih =>
    obtain ⟨around, earlier⟩ := ih (by simpa using ends)
    exact ⟨around, List.mem_append_left _ earlier⟩
  | closing read opened last before ih =>
    rcases List.mem_append.mp ends with earlier | new
    · obtain ⟨around, earlier⟩ := ih earlier
      exact ⟨around, List.mem_append_left _ earlier⟩
    · rw [List.mem_singleton, Part.closing.injEq] at new
      obtain ⟨around, earlier⟩ := before.exists_opening phrase
        (List.mem_cons_of_mem _ (List.mem_of_mem_head? new.2.symm))
      exact ⟨around, List.mem_append_left _ earlier⟩

theorem LeavesOpen.before (after : LeavesOpen read opened) (n : Nat) (part : Part)
    (found : read[n]? = some part) :
    ∃ outer, LeavesOpen (read.take n) outer ∧ outer.head? = part.inside := by
  induction after with
  | start => cases found
  | literal read opened u before ih =>
    rcases getElem?_concat_cases read _ n part found with ⟨earlier, same⟩ | ⟨-, rfl, same⟩ <;> rw [same]
    · exact ih earlier
    · exact ⟨opened, before, rfl⟩
  | opening read opened phrase before fresh ih =>
    rcases getElem?_concat_cases read _ n part found with ⟨earlier, same⟩ | ⟨-, rfl, same⟩ <;> rw [same]
    · exact ih earlier
    · exact ⟨opened, before, rfl⟩
  | closing read opened phrase before ih =>
    rcases getElem?_concat_cases read _ n part found with ⟨earlier, same⟩ | ⟨-, rfl, same⟩ <;> rw [same]
    · exact ih earlier
    · exact ⟨phrase :: opened, before, rfl⟩

theorem LeavesOpen.pairwise (after : LeavesOpen read opened) :
    read.Pairwise fun earlier later =>
      ∀ phrase around, earlier = .opening phrase around → ∀ other, later ≠ .opening phrase other := by
  induction after with
  | start => exact .nil
  | literal read opened u before ih =>
    refine List.pairwise_append.mpr ⟨ih, List.pairwise_singleton _ _, ?_⟩
    intro earlier _ last new phrase around _ other same
    cases (List.mem_singleton.mp new).symm.trans same
  | opening read opened new before fresh ih =>
    refine List.pairwise_append.mpr ⟨ih, List.pairwise_singleton _ _, ?_⟩
    rintro earlier member last single phrase around rfl other same
    cases (List.mem_singleton.mp single).symm.trans same
    exact fresh around member
  | closing read opened closed before ih =>
    refine List.pairwise_append.mpr ⟨ih, List.pairwise_singleton _ _, ?_⟩
    intro earlier _ last new phrase around _ other same
    cases (List.mem_singleton.mp new).symm.trans same

theorem LeavesOpen.opening_unique (after : LeavesOpen read opened) (phrase m n : Nat)
    (first second : Option Nat) (here : read[m]? = some (.opening phrase first))
    (there : read[n]? = some (.opening phrase second)) : m = n := by
  obtain ⟨m_bound, here⟩ := List.getElem?_eq_some_iff.mp here
  obtain ⟨n_bound, there⟩ := List.getElem?_eq_some_iff.mp there
  have apart := List.pairwise_iff_getElem.mp after.pairwise
  rcases Nat.lt_trichotomy m n with before | same | behind
  · exact absurd there (apart m n m_bound n_bound before phrase first here second)
  · exact same
  · exact absurd here (apart n m n_bound m_bound behind phrase second there first)

end Part

theorem Document.leavesOpen_parts (document : Document) :
    Part.LeavesOpen document.parts [] ∧
      Part.OpensBelow (Phrase.counts document.phrases) document.parts := by
  have nothing : Part.OpensBelow 0 [] := fun _ _ absurd => by cases absurd
  have all := Part.LeavesOpen.start.ofForest nothing document.text 0 document.phrases
  rwa [Nat.zero_add] at all

end AnsiMarkup
