import AnsiMarkup.Proofs.Markup.Refinement
import AnsiMarkup.Proofs.Markup.Traced
import AnsiMarkup.Terminal

/-! Reading loses no unit but backslashes and specifiers, and writes none but markers. -/

namespace AnsiMarkup

namespace CodeUnit

structure IsCarried (u : CodeUnit) : Prop where
  unmarked : Marker.ofUnit? u = none
  no_letter : ¬ Specifier.IsLetter u

theorem isCarried_backslash : backslash.IsCarried :=
  ⟨Marker.ofUnit?_backslash, Specifier.not_isLetter_backslash⟩

/-- The unit is no marker, no backslash and no part of a specifier. -/
structure IsInert (u : CodeUnit) : Prop where
  unmarked : Marker.ofUnit? u = none
  ne_backslash : u ≠ backslash
  no_letter : ¬ Specifier.IsLetter u

theorem IsInert.isCarried {u : CodeUnit} (inert : u.IsInert) : u.IsCarried :=
  ⟨inert.unmarked, inert.no_letter⟩

theorem isInert_newline : newline.IsInert := by
  refine ⟨rfl, by decide, ?_⟩
  unfold Specifier.IsLetter
  decide

theorem isInert_escape : Terminal.escape.IsInert := by
  refine ⟨rfl, by decide, ?_⟩
  unfold Specifier.IsLetter
  decide

end CodeUnit

variable {u : CodeUnit}

theorem CodeUnit.IsCarried.count_marker (carried : u.IsCarried) (marker : Marker) :
    marker.toText.count u = 0 := by
  rw [List.count_eq_zero, Marker.toText, List.mem_singleton]
  rintro rfl
  have unmarked := carried.unmarked
  rw [Marker.ofUnit?_toUnit] at unmarked
  cases unmarked

theorem CodeUnit.IsCarried.count_specifier (carried : u.IsCarried) (text : Text)
    (specifier : Specifier) (found : Specifier.ofText? text = some specifier) : text.count u = 0 := by
  rw [List.count_eq_zero]
  intro present
  exact carried.no_letter (Specifier.mem_of_ofText? text specifier found u present)

theorem CodeUnit.IsInert.count_resolve (inert : u.IsInert) (scope : WholeScope) :
    scope.resolve.1.text.count u = scope.text.count u := by
  rcases WholeScope.resolve_cases scope with ⟨-, resolved⟩ | ⟨body, whole, resolved⟩
  · rw [resolved]
  · have absent : u ∉ [backslash] := by simpa using inert.ne_backslash
    rw [resolved, whole, List.count_append, List.count_eq_zero.mpr absent, Nat.add_zero]

theorem WholeScope.resolve_of_specifier (scope : WholeScope) (specifier : Specifier)
    (found : Specifier.ofText? scope.text = some specifier) : scope.resolve.1 = scope := by
  rcases resolve_cases scope with ⟨-, resolved⟩ | ⟨body, whole, -⟩
  · rw [resolved]
  · rw [whole, Specifier.ofText?_backslash] at found
    cases found

namespace WholeReader

def total (u : CodeUnit) (reader : WholeReader) : Nat :=
  reader.document.text.count u + (reader.opened.flatMap fun phrase => phrase.scope.text).count u

theorem total_of_outside (reader : WholeReader) (outside : reader.opened = []) :
    reader.total u = reader.document.text.count u := by
  rw [total, outside, List.flatMap_nil, List.count_nil, Nat.add_zero]

theorem total_setScope (reader : WholeReader) (scope : WholeScope) :
    (reader.setScope scope).total u + reader.scope.text.count u =
      reader.total u + scope.text.count u := by
  rcases reader with ⟨document, opened, strays⟩
  cases opened with
  | nil =>
    simp only [setScope, WholeReader.scope, total, List.flatMap_nil, List.count_nil]
    omega
  | cons phrase outer =>
    simp only [setScope, WholeReader.scope, total, List.flatMap_cons, List.count_append]
    omega

theorem total_append (reader : WholeReader) (piece : Text) :
    (reader.append piece).total u = reader.total u + piece.count u := by
  have changed := total_setScope (u := u) reader (reader.scope.append piece)
  rw [WholeScope.append, List.count_append] at changed
  rw [append, WholeScope.append]
  omega

theorem total_resolve (inert : u.IsInert) (reader : WholeReader) :
    (reader.setScope reader.scope.resolve.1).total u = reader.total u := by
  have changed := total_setScope (u := u) reader reader.scope.resolve.1
  rw [inert.count_resolve] at changed
  omega

theorem total_meetOpening (carried : u.IsCarried) (reader : WholeReader) :
    reader.meetOpening.total u = (reader.setScope reader.scope.resolve.1).total u := by
  simp only [meetOpening]
  split
  · rw [total_append, carried.count_marker, Nat.add_zero]
  · simp [total, WholePhrase.start, WholeScope.empty]

theorem total_closePhrase (carried : u.IsCarried) (reader : WholeReader) (phrase : WholePhrase)
    (outer : List WholePhrase) :
    (reader.closePhrase phrase outer).total u =
      reader.document.text.count u + ((phrase :: outer).flatMap fun p => p.scope.text).count u := by
  let around : WholeReader := { reader with opened := outer }
  let piece : Text := Marker.opening.toText ++ phrase.scope.text ++ Marker.closing.toText
  have added : ((around.scope.addChild phrase.close).append piece).text.count u =
      around.scope.text.count u + phrase.scope.text.count u := by
    change (around.scope.text ++ piece).count u = _
    simp only [piece, List.count_append, carried.count_marker, Nat.zero_add, Nat.add_zero]
  have changed : (reader.closePhrase phrase outer).total u + around.scope.text.count u =
      around.total u + ((around.scope.addChild phrase.close).append piece).text.count u :=
    total_setScope around _
  have outside : around.total u =
      reader.document.text.count u + (outer.flatMap fun p => p.scope.text).count u := rfl
  rw [List.flatMap_cons, List.count_append]
  omega

theorem total_meetClosing (carried : u.IsCarried) (reader : WholeReader) (ahead : Text) :
    (reader.meetClosing ahead).total u = (reader.setScope reader.scope.resolve.1).total u := by
  rcases reader with ⟨document, opened, strays⟩
  cases opened with
  | nil =>
    have text : ((document.resolve.1.append Marker.closing.toText).text).count u =
        document.resolve.1.text.count u := by
      rw [WholeScope.append, List.count_append, carried.count_marker, Nat.add_zero]
    simp only [meetClosing, meetStray, total, text]
    rfl
  | cons phrase outer =>
    simp only [meetClosing]
    cases found : Specifier.ofText? phrase.scope.text with
    | some specifier =>
      have dropped := carried.count_specifier phrase.scope.text specifier found
      have resolved := WholeScope.resolve_of_specifier phrase.scope specifier found
      simp [total, WholePhrase.specify, setScope, WholeReader.scope, resolved, dropped]
    | none =>
      simp only
      split
      · rw [total_append, carried.count_marker, Nat.add_zero]
        rfl
      · rw [total_closePhrase carried]
        rfl

theorem total_marker (carried : u.IsCarried) (reader : WholeReader) (marker : Marker) (ahead : Text) :
    (reader.step marker.toUnit ahead).total u =
      (reader.setScope reader.scope.resolve.1).total u := by
  rw [step, Marker.ofUnit?_toUnit]
  cases marker with
  | opening => exact total_meetOpening carried reader
  | closing => exact total_meetClosing carried reader ahead

theorem total_step (inert : u.IsInert) (reader : WholeReader) (v : CodeUnit) (ahead : Text) :
    (reader.step v ahead).total u = reader.total u + [v].count u := by
  cases found : Marker.ofUnit? v with
  | none =>
    rw [step, found]
    exact total_append reader [v]
  | some marker =>
    have unit := Marker.toUnit_of_ofUnit? v marker found
    have absent : [v].count u = 0 := by
      rw [← unit]
      exact inert.isCarried.count_marker marker
    rw [absent, Nat.add_zero, ← unit, total_marker inert.isCarried, total_resolve inert]

theorem total_read (inert : u.IsInert) (reader : WholeReader) (markup : Text) :
    (reader.read [] markup).total u = reader.total u + markup.count u := by
  induction markup generalizing reader with
  | nil => rw [read_nil, List.count_nil, Nat.add_zero]
  | cons v markup ih =>
    rw [read_cons, ih, total_step inert, Nat.add_assoc, ← List.count_append, List.singleton_append]

end WholeReader

theorem count_text_of_parse (inert : u.IsInert) (markup : Text) (document : Document)
    (parsed : (parse markup).result = .ok document) :
    document.text.count u = markup.count u := by
  have all := WholeReader.total_read inert WholeReader.start markup
  have nothing : WholeReader.start.total u = 0 := WholeReader.total_of_outside _ rfl
  obtain ⟨outside, text, -⟩ := (parse_eq_ok_iff markup document).mp parsed
  rw [nothing, Nat.zero_add] at all
  rw [text]
  exact (WholeReader.total_of_outside _ outside).symm.trans all

end AnsiMarkup
