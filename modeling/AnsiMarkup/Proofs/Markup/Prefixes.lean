import AnsiMarkup.Proofs.Markup.Steps
import Mathlib.Data.List.Infix

/-! Markup read in two parts. What is ahead of a unit matters for the places of stray markers only, and
one unit touches at most the two innermost scopes. -/

namespace AnsiMarkup

namespace WholeReader

def readFront (reader : WholeReader) (ahead : Text) : Text → WholeReader
  | [] => reader
  | u :: front => (reader.step u (front ++ ahead)).readFront ahead front

theorem read_append (reader : WholeReader) (front ahead : Text) :
    reader.read [] (front ++ ahead) = (reader.readFront ahead front).read [] ahead := by
  induction front generalizing reader with
  | nil => rfl
  | cons u front ih => rw [List.cons_append, read_cons, ih, readFront]

theorem readFront_nil (reader : WholeReader) (markup : Text) :
    reader.readFront [] markup = reader.read [] markup := by
  have whole := read_append reader markup []
  rw [List.append_nil, read_nil] at whole
  exact whole.symm

theorem readFront_append (reader : WholeReader) (front back ahead : Text) :
    reader.readFront ahead (front ++ back) =
      (reader.readFront (back ++ ahead) front).readFront ahead back := by
  induction front generalizing reader with
  | nil => rfl
  | cons u front ih => rw [List.cons_append, readFront, readFront, ih, List.append_assoc]

/-- The same state, but for the places that stray markers were given. -/
structure Alike (first second : WholeReader) : Prop where
  document : first.document = second.document
  opened : first.opened = second.opened
  strays : first.strays.map Stray.index = second.strays.map Stray.index

theorem scope_of_outside (reader : WholeReader) (outside : reader.opened = []) :
    reader.scope = reader.document := by
  rw [scope, outside]

namespace Alike

variable {first second third : WholeReader}

theorem refl (reader : WholeReader) : Alike reader reader := ⟨rfl, rfl, rfl⟩

theorem of_eq (same : first = second) : Alike first second := by
  rw [same]
  exact refl second

theorem symm (alike : Alike first second) : Alike second first :=
  ⟨alike.document.symm, alike.opened.symm, alike.strays.symm⟩

theorem trans (left : Alike first second) (right : Alike second third) : Alike first third :=
  ⟨left.document.trans right.document, left.opened.trans right.opened,
    left.strays.trans right.strays⟩

theorem scope (alike : Alike first second) : first.scope = second.scope := by
  rw [WholeReader.scope, WholeReader.scope, alike.opened, alike.document]

theorem setScope (alike : Alike first second) (scope : WholeScope) :
    Alike (first.setScope scope) (second.setScope scope) := by
  rcases first with ⟨document, opened, strays⟩
  rcases second with ⟨_, _, others⟩
  rcases alike with ⟨rfl, rfl, same⟩
  cases opened with
  | nil => exact ⟨rfl, rfl, same⟩
  | cons phrase outer => exact ⟨rfl, rfl, same⟩

theorem append (alike : Alike first second) (piece : Text) :
    Alike (first.append piece) (second.append piece) := by
  rw [WholeReader.append, WholeReader.append, alike.scope]
  exact alike.setScope _

theorem meetOpening (alike : Alike first second) : Alike first.meetOpening second.meetOpening := by
  simp only [WholeReader.meetOpening, alike.scope]
  have resolved := alike.setScope second.scope.resolve.1
  split
  · exact resolved.append _
  · exact ⟨resolved.document, congrArg (_ :: ·) resolved.opened, resolved.strays⟩

theorem meetClosing (alike : Alike first second) (ahead other : Text) :
    Alike (first.meetClosing ahead) (second.meetClosing other) := by
  rcases first with ⟨document, opened, strays⟩
  rcases second with ⟨_, _, others⟩
  rcases alike with ⟨rfl, rfl, same⟩
  cases opened with
  | nil =>
    simp only [WholeReader.meetClosing, meetStray]
    refine ⟨rfl, rfl, ?_⟩
    split
    · exact same
    · exact congrArg (_ :: ·) same
  | cons phrase outer =>
    simp only [WholeReader.meetClosing]
    split
    · exact ⟨rfl, rfl, same⟩
    · have whole : Alike ⟨document, phrase :: outer, strays⟩ ⟨document, phrase :: outer, others⟩ :=
        ⟨rfl, rfl, same⟩
      split
      · exact (whole.setScope _).append _
      · have around : Alike ⟨document, outer, strays⟩ ⟨document, outer, others⟩ := ⟨rfl, rfl, same⟩
        rw [closePhrase, closePhrase]
        simp only [around.scope]
        exact around.setScope _

theorem step (alike : Alike first second) (u : CodeUnit) (ahead other : Text) :
    Alike (first.step u ahead) (second.step u other) := by
  unfold WholeReader.step
  split
  · exact alike.append [u]
  · exact alike.meetOpening
  · exact alike.meetClosing ahead other

theorem readFront (alike : Alike first second) (markup ahead other : Text) :
    Alike (first.readFront ahead markup) (second.readFront other markup) := by
  induction markup generalizing first second with
  | nil => exact alike
  | cons u markup ih => exact ih (alike.step u (markup ++ ahead) (markup ++ other))

end Alike

theorem length_opened_setScope (reader : WholeReader) (scope : WholeScope) :
    (reader.setScope scope).opened.length = reader.opened.length := by
  rcases reader with ⟨document, opened, strays⟩
  cases opened <;> rfl

/-- What one unit can do to the open scopes: it changes the innermost one, puts a new one on it, or
closes it into the one around it. -/
inductive Move (reader : WholeReader) (u : CodeUnit) (ahead : Text) : WholeReader → Prop
  | outside (document : WholeScope) (outside : reader.opened = []) :
      Move reader u ahead { reader with document := document }
  | stray (outside : reader.opened = []) (marker : Marker.ofUnit? u = some .closing)
      (structural : reader.document.resolve.2 = false) :
      Move reader u ahead (reader.meetStray ahead)
  | inside (phrase changed : WholePhrase) (outer : List WholePhrase)
      (opened : reader.opened = phrase :: outer) :
      Move reader u ahead { reader with opened := changed :: outer }
  | opening (resolved : WholeReader) (same : resolved = reader.setScope reader.scope.resolve.1)
      (marker : Marker.ofUnit? u = some .opening) :
      Move reader u ahead
        { resolved with
          opened := WholePhrase.start reader.scope.resolve.1.text.length :: resolved.opened }
  | closing (phrase : WholePhrase) (outer : List WholePhrase) (scope : WholeScope)
      (opened : reader.opened = phrase :: outer) :
      Move reader u ahead (({ reader with opened := outer } : WholeReader).setScope scope)

variable {reader : WholeReader} {u : CodeUnit} {ahead : Text}

theorem move_setScope (scope : WholeScope) : reader.Move u ahead (reader.setScope scope) := by
  cases opened : reader.opened with
  | nil =>
    simp only [setScope, opened]
    have move : reader.Move u ahead { reader with document := scope } := .outside scope opened
    rwa [opened] at move
  | cons phrase outer =>
    simp only [setScope, opened]
    exact .inside phrase _ outer opened

theorem move_step (reader : WholeReader) (u : CodeUnit) (ahead : Text) :
    reader.Move u ahead (reader.step u ahead) := by
  have literal (marker : Marker) : reader.Move u ahead
      ((reader.setScope reader.scope.resolve.1).append marker.toText) := by
    rw [append, setScope_setScope]
    exact move_setScope _
  unfold step
  split
  · exact move_setScope _
  · next marker =>
    simp only [meetOpening]
    split
    · exact literal .opening
    · exact .opening _ rfl marker
  · next marker =>
    unfold meetClosing
    split
    · next outside =>
      cases structural : reader.document.resolve.2 with
      | true =>
        simp only [meetStray, structural, if_true]
        exact .outside _ outside
      | false => exact .stray outside marker structural
    · next phrase outer opened =>
      have scope_eq : reader.scope = phrase.scope := by rw [scope, opened]
      split
      · exact .inside phrase _ outer opened
      · simp only [← scope_eq]
        split
        · exact literal .closing
        · exact .closing phrase outer _ opened

theorem strays_step (reader : WholeReader) (u : CodeUnit) (ahead : Text) :
    (reader.step u ahead).strays = reader.strays ∨
      reader.opened = [] ∧ Marker.ofUnit? u = some .closing ∧
        reader.document.resolve.2 = false ∧ reader.step u ahead = reader.meetStray ahead := by
  have strays_setScope (other : WholeReader) (scope : WholeScope) :
      (other.setScope scope).strays = other.strays := by
    rw [setScope]
    split <;> rfl
  generalize moved : reader.step u ahead = next
  have move := move_step reader u ahead
  rw [moved] at move
  cases move with
  | outside document outside => exact .inl rfl
  | stray outside marker structural => exact .inr ⟨outside, marker, structural, rfl⟩
  | inside phrase changed outer opened => exact .inl rfl
  | opening resolved same marker => exact .inl (by rw [same, strays_setScope])
  | closing phrase outer scope opened => exact .inl (by rw [strays_setScope])

theorem strays_meetStray (structural : reader.document.resolve.2 = false) (ahead : Text) :
    ∃ stray, (reader.meetStray ahead).strays = stray :: reader.strays := by
  simp only [meetStray, structural, Bool.false_eq_true, if_false]
  exact ⟨_, rfl⟩

theorem strays_suffix_step (reader : WholeReader) (u : CodeUnit) (ahead : Text) :
    reader.strays <:+ (reader.step u ahead).strays := by
  rcases strays_step reader u ahead with same | ⟨-, -, structural, met⟩
  · rw [same]
  · rcases strays_meetStray structural ahead with ⟨stray, more⟩
    rw [met, more]
    exact List.suffix_cons stray reader.strays

theorem strays_suffix_readFront (reader : WholeReader) (ahead markup : Text) :
    reader.strays <:+ (reader.readFront ahead markup).strays := by
  induction markup generalizing reader with
  | nil => exact List.suffix_refl _
  | cons u markup ih => exact (strays_suffix_step reader u _).trans (ih _)

end WholeReader

end AnsiMarkup
