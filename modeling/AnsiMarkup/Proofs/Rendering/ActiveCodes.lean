import AnsiMarkup.Proofs.Rendering.OpenPhrases
import AnsiMarkup.Proofs.Rendering.Tokens

namespace AnsiMarkup

namespace Part

/-- The active codes after a part. A phrase adds its codes to those around it, or clears them if it
has none, and leaves the codes of the phrase around it. -/
def apply (codes : Option Nat → Finset Nat) (active : Finset Nat) : Part → Finset Nat
  | .literal _ _ => active
  | .opening phrase _ => if codes (some phrase) = ∅ then ∅ else codes (some phrase) ∪ active
  | .closing _ around => codes around

def active (codes : Option Nat → Finset Nat) (read : List Part) : Finset Nat :=
  read.foldl (apply codes) ∅

theorem apply_token {table : FlagTable} (coded : table.Coded) (style : Option Nat → Combination)
    (active : Finset Nat) (part : Part) :
    Terminal.Token.apply active (token (fun phrase => table.codeText (style phrase)) part) =
      apply (fun phrase => table.codeSet (style phrase)) active part := by
  cases part with
  | literal u inside => rfl
  | opening phrase around => exact FlagTable.apply_codeText coded _ active
  | closing phrase around => exact FlagTable.apply_zero_codeText coded _ active

theorem active_tokens {table : FlagTable} (coded : table.Coded) (style : Option Nat → Combination)
    (read : List Part) :
    Terminal.active (read.map (token fun phrase => table.codeText (style phrase))) =
      active (fun phrase => table.codeSet (style phrase)) read := by
  rw [Terminal.active, List.foldl_map, active]
  congr 1
  funext active part
  exact apply_token coded style active part

variable (codes : Option Nat → Finset Nat) {read : List Part} {opened : List Nat}

theorem active_concat (read : List Part) (part : Part) :
    active codes (read ++ [part]) = apply codes (active codes read) part := by
  rw [active, List.foldl_append]
  rfl

theorem LeavesOpen.active_outside (after : LeavesOpen read opened) (none : codes none = ∅)
    (outside : opened = []) : active codes read = ∅ := by
  induction after with
  | start => rfl
  | literal read opened u before ih =>
    rw [active_concat]
    exact ih outside
  | opening read opened phrase before fresh ih => cases outside
  | closing read opened phrase before ih =>
    subst outside
    rw [active_concat]
    exact none

def Interrupted (phrase : Nat) (read : List Part) : Prop :=
  ∃ closed, .closing closed (some phrase) ∈ read

theorem Interrupted.mono {phrase : Nat} {read more : List Part}
    (interrupted : Interrupted phrase read) (among : read ⊆ more) : Interrupted phrase more := by
  obtain ⟨closed, ends⟩ := interrupted
  exact ⟨closed, among ends⟩

theorem LeavesOpen.active_interrupted (after : LeavesOpen read opened) (phrase : Nat)
    (innermost : opened.head? = some phrase) (interrupted : Interrupted phrase read) :
    active codes read = codes (some phrase) := by
  obtain ⟨closed, ends⟩ := interrupted
  induction after with
  | start => cases ends
  | literal read opened u before ih =>
    rw [active_concat]
    exact ih innermost (by simpa using ends)
  | opening read opened new before fresh ih =>
    -- The phrase has just been opened, so nothing can have ended in it.
    cases innermost
    obtain ⟨around, earlier⟩ := before.exists_opening_of_closing closed _ (by simpa using ends)
    exact absurd earlier (fresh around)
  | closing read opened last before ih =>
    rw [active_concat, apply, innermost]

theorem LeavesOpen.active_uninterrupted (after : LeavesOpen read opened) (phrase : Nat)
    (innermost : opened.head? = some phrase) (whole : ¬Interrupted phrase read) :
    ∃ before around later, read = before ++ .opening phrase around :: later ∧
      active codes read = apply codes (active codes before) (.opening phrase around) := by
  induction after with
  | start => cases innermost
  | literal read opened u before ih =>
    obtain ⟨front, around, later, rfl, same⟩ :=
      ih innermost fun interrupted => whole (interrupted.mono (List.subset_append_left _ _))
    refine ⟨front, around, later ++ [.literal u opened.head?], by simp, ?_⟩
    rw [active_concat]
    exact same
  | opening read opened new before fresh ih =>
    cases innermost
    exact ⟨read, opened.head?, [], rfl, active_concat codes read _⟩
  | closing read opened last before ih =>
    refine absurd ⟨last, ?_⟩ whole
    rw [innermost]
    exact List.mem_append_right _ (List.mem_singleton_self _)

variable {phrase start : Nat} {around : Option Nat}

/-- At a unit directly in a phrase the codes are those of the phrase if it was interrupted before, and
otherwise those from its start. -/
theorem LeavesOpen.active_literal (after : LeavesOpen read opened)
    (opens : read[start]? = some (.opening phrase around)) (n : Nat) (u : CodeUnit)
    (found : read[n]? = some (.literal u (some phrase))) :
    (Interrupted phrase (read.take n) → active codes (read.take n) = codes (some phrase)) ∧
    (¬Interrupted phrase (read.take n) → active codes (read.take n) =
      apply codes (active codes (read.take start)) (.opening phrase around)) := by
  obtain ⟨outer, before, innermost⟩ := after.before n _ found
  refine ⟨before.active_interrupted codes phrase innermost, ?_⟩
  intro whole
  obtain ⟨front, other, later, split, same⟩ :=
    before.active_uninterrupted codes phrase innermost whole
  have inside : front.length < n := by
    have length := congrArg List.length split
    rw [List.length_take, List.length_append, List.length_cons] at length
    omega
  have again : read[front.length]? = some (.opening phrase other) := by
    rw [← List.getElem?_take_of_lt inside, split, List.getElem?_append_right (Nat.le_refl _),
      Nat.sub_self]
    rfl
  have taken : read.take front.length = front := by
    have shorter := congrArg (List.take front.length) split
    rwa [List.take_take, Nat.min_eq_left (Nat.le_of_lt inside), List.take_left] at shorter
  have place := after.opening_unique phrase front.length start other around again opens
  rw [place, opens] at again
  cases again
  rw [same, ← place, taken]

/-- Two units directly in a phrase are displayed alike, unless a phrase that ends between them is the
first to interrupt it and takes codes away that were active around it. -/
theorem LeavesOpen.active_literals_eq_iff (after : LeavesOpen read opened)
    (opens : read[start]? = some (.opening phrase around)) (first second : Nat)
    (order : first ≤ second) (u v : CodeUnit)
    (here : read[first]? = some (.literal u (some phrase)))
    (there : read[second]? = some (.literal v (some phrase))) :
    active codes (read.take first) = active codes (read.take second) ↔
      Interrupted phrase (read.take first) ∨ ¬Interrupted phrase (read.take second) ∨
        codes (some phrase) = ∅ ∨ active codes (read.take start) ⊆ codes (some phrase) := by
  obtain ⟨first_interrupted, first_whole⟩ := after.active_literal codes opens first u here
  obtain ⟨second_interrupted, second_whole⟩ := after.active_literal codes opens second v there
  by_cases early : Interrupted phrase (read.take first)
  · have late := early.mono (List.take_subset_take_left read order)
    rw [first_interrupted early, second_interrupted late]
    exact iff_of_true rfl (.inl early)
  · by_cases late : Interrupted phrase (read.take second)
    · rw [first_whole early, second_interrupted late, apply]
      by_cases empty : codes (some phrase) = ∅
      · rw [if_pos empty, empty]
        exact iff_of_true rfl (.inr (.inr (.inl rfl)))
      · rw [if_neg empty, Finset.union_eq_left]
        simp only [early, late, empty, not_true_eq_false, false_or]
    · rw [first_whole early, second_whole late]
      exact iff_of_true rfl (.inr (.inl late))

end Part

end AnsiMarkup
