import AnsiMarkup.Proofs.Number.Indices
import AnsiMarkup.Proofs.Position.Lines

namespace AnsiMarkup

namespace Text

def EndsInLine (text last : Text) : Prop :=
  CodeUnit.newline ∉ last ∧ (text = last ∨ ∃ front, text = front ++ CodeUnit.newline :: last)

theorem exists_endsInLine (text : Text) : ∃ last, text.EndsInLine last := by
  cases found : text.lastIndexOf CodeUnit.newline with
  | none => exact ⟨text, (lastIndexOf_eq_none_iff _ _).mp found, .inl rfl⟩
  | some i =>
    obtain ⟨front, last, whole, -, absent⟩ := (lastIndexOf_eq_some_iff _ _ _).mp found
    exact ⟨last, absent, .inr ⟨front, whole⟩⟩

theorem EndsInLine.lineStart_add {text last : Text} (ends : text.EndsInLine last) :
    text.lineStart + last.length = text.length := by
  obtain ⟨absent, rfl | ⟨front, rfl⟩⟩ := ends
  · rw [lineStart_of_not_mem _ absent, Nat.zero_add]
  · rw [lineStart_append_newline, lineStart_of_not_mem _ absent, List.length_append,
      List.length_cons]
    omega

theorem lineStart_le (text : Text) : text.lineStart ≤ text.length := by
  obtain ⟨last, ends⟩ := exists_endsInLine text
  exact Nat.le.intro ends.lineStart_add

end Text

theorem Number.toIndex?_eq_some_iff_toRat? (number : Number) (i : Nat) :
    number.toIndex? = some i ↔ number.toRat? = some (i : ℚ) := by
  rw [toIndex?_eq_some_iff]
  cases number with
  | finite q => rw [toInt?_finite, toRat?, Option.some_inj, Int.cast_natCast]
  | negZero =>
    change some (0 : Int) = some (i : Int) ↔ some (0 : ℚ) = some (i : ℚ)
    rw [Option.some_inj, Option.some_inj]
    norm_cast
  | _ => simp only [toInt?, toRat?, reduceCtorEq]

namespace Position

/-- What is said of an index: the index itself in a text of one line. In another one it is the line,
by the newlines before the index, and the column, by the units between the last of them and the index;
both are counted from one. -/
inductive Tells (text : Text) (i : Nat) : Text → Prop
  | index (single : CodeUnit.newline ∉ text) : Tells text i (Text.ofNat i)
  | lineColumn (own : Text) (several : CodeUnit.newline ∈ text)
      (line : Text.EndsInLine (text.take i) own) :
      Tells text i (Text.ofNat (1 + (text.take i).count CodeUnit.newline) ++ ":" ++
        Text.ofNat (1 + own.length))

def Before : Position → Position → Prop
  | .offset i, .offset j => i < j
  | .lineColumn line column, .lineColumn other next =>
    line < other ∨ (line = other ∧ column < next)
  | _, _ => False

def EndsLineBefore : Position → Position → Prop
  | .lineColumn line _, .lineColumn other _ => line < other
  | _, _ => False

theorem not_before_self (place : Position) : ¬ place.Before place := by
  cases place with
  | offset i => exact Nat.lt_irrefl i
  | lineColumn line column =>
    rintro (line | ⟨-, column⟩)
    · exact Nat.lt_irrefl _ line
    · exact Nat.lt_irrefl _ column

theorem Before.not_before {first second : Position} (order : first.Before second) :
    ¬ second.Before first := by
  intro back
  cases first <;> cases second <;> simp only [Before] at order back <;> omega

theorem toText_injective : Function.Injective toText := by
  have colon (n : Nat) : (58 : CodeUnit) ∉ Text.ofNat n := Text.not_mem_ofNat n 58 rfl
  have apart (i line column : Nat) : toText (.offset i) ≠ toText (.lineColumn line column) := by
    intro same
    apply colon i
    change Text.ofNat i = Text.ofNat line ++ [58] ++ Text.ofNat column at same
    rw [same]
    simp
  intro first second same
  cases first with
  | offset i =>
    cases second with
    | offset j => exact congrArg offset (Text.ofNat_injective same)
    | lineColumn line column => exact absurd same (apart i line column)
  | lineColumn line column =>
    cases second with
    | offset j => exact absurd same.symm (apart j line column)
    | lineColumn other next =>
      change Text.ofNat line ++ [58] ++ Text.ofNat column =
        Text.ofNat other ++ [58] ++ Text.ofNat next at same
      rw [List.append_assoc, List.append_assoc, List.singleton_append, List.singleton_append,
        List.append_cons_inj_of_notMem (colon line) (colon column)] at same
      obtain ⟨lines, -, columns⟩ := same
      rw [Text.ofNat_injective lines, Text.ofNat_injective columns]

theorem tells_ofIndex (text : Text) (i : Nat) (inside : i ≤ text.length) :
    Tells text i (ofIndex text i).toText := by
  rw [ofIndex]
  split
  · next several =>
    obtain ⟨own, line⟩ := Text.exists_endsInLine (text.take i)
    have column : i - Text.lineStart (text.take i) = own.length := by
      have whole := line.lineStart_add
      rw [List.length_take_of_le inside] at whole
      omega
    rw [column, Nat.add_comm _ 1, Nat.add_comm own.length 1]
    exact .lineColumn own several line
  · next single => exact .index single

theorem before_ofIndex (text : Text) (i j : Nat) (order : i < j) :
    (ofIndex text i).Before (ofIndex text j) := by
  rw [ofIndex, ofIndex]
  split
  · obtain ⟨between, more⟩ := List.take_prefix_take_left (l := text) (Nat.le_of_lt order)
    rw [← more, List.count_append]
    by_cases newline : CodeUnit.newline ∈ between
    · have grows := List.count_pos_iff.mpr newline
      exact .inl (by omega)
    · have start : Text.lineStart (text.take i) ≤ i :=
        (Text.lineStart_le _).trans (List.length_take_le i text)
      rw [List.count_eq_zero.mpr newline, Text.lineStart_append_of_not_mem _ _ newline]
      exact .inr ⟨rfl, by omega⟩
  · exact order

theorem endsLineBefore_ofIndex (text : Text) (i j : Nat) (newline : text[i]? = some CodeUnit.newline)
    (order : i < j) : (ofIndex text i).EndsLineBefore (ofIndex text j) := by
  have several : CodeUnit.newline ∈ text := List.mem_of_getElem? newline
  obtain ⟨between, more⟩ := List.take_prefix_take_left (l := text) (Nat.succ_le_of_lt order)
  rw [ofIndex, ofIndex, if_pos several, if_pos several, ← more, List.take_add_one, newline,
    List.count_append, List.count_append]
  change _ < _ + 1 + _ + 1
  omega

theorem before_ofIndex_iff (text : Text) (i j : Nat) :
    (ofIndex text i).Before (ofIndex text j) ↔ i < j := by
  constructor
  · intro before
    by_contra later
    rcases Nat.lt_or_eq_of_le (Nat.not_lt.mp later) with order | rfl
    · exact before.not_before (before_ofIndex text j i order)
    · exact not_before_self _ before
  · exact before_ofIndex text i j

theorem ofIndex_injective (text : Text) : Function.Injective (ofIndex text) := by
  intro i j same
  rcases Nat.lt_trichotomy i j with order | rfl | order
  · exact absurd (same ▸ before_ofIndex text i j order) (not_before_self _)
  · rfl
  · exact absurd (same ▸ before_ofIndex text j i order) (not_before_self _)

variable {text : Text} {index : Number} {i : Nat} {place : Position}

theorem locate_of_inside (whole : index.toRat? = some (i : ℚ)) (inside : i < text.length) :
    locate text index = .ok (some (ofIndex text i)) := by
  apply locate_of_toIndex? text index i _ inside
  exact (Number.toIndex?_eq_some_iff_toRat? index i).mpr whole

theorem locate_of_outside (text_ne : text ≠ [])
    (outside : ∀ i < text.length, index.toRat? ≠ some (i : ℚ)) :
    locate text index = .error (.indexOutOfRange index) := by
  rw [locate, if_neg text_ne]
  cases found : index.toIndex? with
  | none => rfl
  | some i =>
    have whole := (Number.toIndex?_eq_some_iff_toRat? index i).mp found
    exact if_pos (Nat.not_lt.mp fun inside => outside i inside whole)

theorem inside_or_outside (text : Text) (index : Number) :
    (∃ i < text.length, index.toRat? = some (i : ℚ)) ∨
      ∀ i < text.length, index.toRat? ≠ some (i : ℚ) := by
  by_cases inside : ∃ i < text.length, index.toRat? = some (i : ℚ)
  · exact .inl inside
  · exact .inr fun i bound whole => inside ⟨i, bound, whole⟩

theorem locate_ne_indexInNoLine (text : Text) (index other : Number) :
    locate text index ≠ .error (.indexInNoLine other) := by
  intro failed
  by_cases blank : text = []
  · rw [locate, if_pos blank] at failed
    cases failed
  · rcases inside_or_outside text index with ⟨i, inside, whole⟩ | outside
    · rw [locate_of_inside whole inside] at failed
      cases failed
    · rw [locate_of_outside blank outside] at failed
      cases failed

theorem eq_ofIndex_of_locate (located : locate text (Number.ofNat i) = .ok (some place)) :
    i < text.length ∧ place = ofIndex text i := by
  by_cases blank : text = []
  · rw [locate, if_pos blank] at located
    cases located
  · rcases inside_or_outside text (Number.ofNat i) with ⟨j, inside, whole⟩ | outside
    · have same : i = j := by exact_mod_cast Option.some.inj whole
      subst same
      rw [locate_of_inside whole inside] at located
      cases located
      exact ⟨inside, rfl⟩
    · rw [locate_of_outside blank outside] at located
      cases located

/-- The indices of a text are told by their lines and columns, and every other number is refused. Places
are told apart as their indices are, come in the order of their indices, and a newline is the last place
of its line. -/
theorem told_places (text : Text) :
    (∀ (index : Number) (i : Nat), index.toRat? = some (i : ℚ) → i < text.length →
      ∃ place, locate text index = .ok (some place) ∧ Tells text i place.toText) ∧
    (∀ index : Number, text ≠ [] → (∀ i < text.length, index.toRat? ≠ some (i : ℚ)) →
      locate text index = .error (.indexOutOfRange index) ∧
        (Error.indexOutOfRange index).kind = .internal) ∧
    (∀ index other, locate text index ≠ .error (.indexInNoLine other)) ∧
    ∀ i j first second, locate text (Number.ofNat i) = .ok (some first) →
      locate text (Number.ofNat j) = .ok (some second) →
        (first.toText = second.toText ↔ i = j) ∧ (first.Before second ↔ i < j) ∧
          (text[i]? = some CodeUnit.newline → i < j → first.EndsLineBefore second) := by
  refine ⟨?_, ?_, locate_ne_indexInNoLine text, ?_⟩
  · intro index i whole inside
    exact ⟨ofIndex text i, locate_of_inside whole inside,
      tells_ofIndex text i (Nat.le_of_lt inside)⟩
  · intro index text_ne outside
    exact ⟨locate_of_outside text_ne outside, rfl⟩
  · intro i j first second located_first located_second
    obtain ⟨-, rfl⟩ := eq_ofIndex_of_locate located_first
    obtain ⟨-, rfl⟩ := eq_ofIndex_of_locate located_second
    refine ⟨?_, before_ofIndex_iff text i j, endsLineBefore_ofIndex text i j⟩
    rw [toText_injective.eq_iff, (ofIndex_injective text).eq_iff]

/-- A zero with a minus sign is an index, a fraction is none, and a newline ends its line. -/
theorem told_places_lines :
    let text : Text := "ab\ncd"
    (∃ place, locate text .negZero = .ok (some place) ∧ Tells text 0 place.toText) ∧
      locate text (.finite (mkRat 3 2)) = .error (.indexOutOfRange (.finite (mkRat 3 2))) ∧
      locate text (Number.ofNat 2) = .ok (some (.lineColumn 1 3)) ∧
      locate text (Number.ofNat 3) = .ok (some (.lineColumn 2 1)) ∧
      (lineColumn 1 3).toText ≠ (lineColumn 2 1).toText ∧
      (lineColumn 1 3).Before (.lineColumn 2 1) ∧
      (lineColumn 1 3).EndsLineBefore (.lineColumn 2 1) := by
  intro text
  obtain ⟨inside, outside, -, places⟩ := told_places text
  have newline : locate text (Number.ofNat 2) = .ok (some (.lineColumn 1 3)) := rfl
  have next : locate text (Number.ofNat 3) = .ok (some (.lineColumn 2 1)) := rfl
  obtain ⟨apart, order, line⟩ := places 2 3 _ _ newline next
  refine ⟨inside .negZero 0 rfl (by decide), (outside _ (by decide) (by decide)).1, newline, next, ?_,
    order.mpr (by decide), line rfl (by decide)⟩
  intro same
  exact absurd (apart.mp same) (by decide)

end Position

end AnsiMarkup
