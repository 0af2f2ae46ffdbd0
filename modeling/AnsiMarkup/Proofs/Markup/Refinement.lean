import AnsiMarkup.Proofs.Markup.Chunks
import AnsiMarkup.Proofs.Markup.Whole

namespace AnsiMarkup

def Scope.whole (scope : Scope) : WholeScope := ⟨scope.text, scope.children⟩

def OpenPhrase.whole (phrase : OpenPhrase) : WholePhrase :=
  ⟨phrase.openIndex, phrase.arguments, phrase.overrideAlways, phrase.scope.whole⟩

def Stray.ofDiagnostic (diagnostic : Diagnostic) : Stray :=
  ⟨diagnostic.index, .ok (some diagnostic.position)⟩

namespace Scope

theorem whole_append (scope : Scope) (piece : Text) :
    (scope.append piece).whole = scope.whole.append piece := by
  rw [whole, text_append, children_append]
  rfl

theorem resolve_whole {scope : Scope} (sound : scope.Sound) :
    scope.whole.resolve = (scope.takeEscape.1.whole, scope.takeEscape.2) := by
  obtain ⟨children, -, -⟩ := takeEscape_frame scope
  simp only [WholeScope.resolve, whole, ofText_text sound, children]

end Scope

theorem OpenPhrase.close_whole (phrase : OpenPhrase) : phrase.whole.close = phrase.close := rfl

namespace Reader

def whole (reader : Reader) : WholeReader :=
  ⟨reader.document.whole, reader.opened.map OpenPhrase.whole,
    reader.diagnostics.map Stray.ofDiagnostic⟩

/-- Newlines are counted in the document only: a specifier drops text of its phrase uncounted. -/
structure Sound (reader : Reader) : Prop where
  document : reader.document.Sound
  counted : reader.document.Counted
  opened : ∀ phrase ∈ reader.opened, phrase.scope.Sound

/-- What a marker leaves: a sound state, after which raw text may follow. -/
structure Ready (reader : Reader) : Prop where
  sound : reader.Sound
  settled : reader.scope.Settled

theorem scope_setScope (reader : Reader) (scope : Scope) : (reader.setScope scope).scope = scope := by
  unfold Reader.setScope Reader.scope
  cases reader.opened <;> rfl

theorem setScope_setScope (reader : Reader) (first second : Scope) :
    (reader.setScope first).setScope second = reader.setScope second := by
  unfold Reader.setScope
  cases reader.opened <;> rfl

theorem whole_scope (reader : Reader) : reader.whole.scope = reader.scope.whole := by
  unfold Reader.scope WholeReader.scope whole
  cases reader.opened <;> rfl

theorem whole_setScope (reader : Reader) (scope : Scope) :
    (reader.setScope scope).whole = reader.whole.setScope scope.whole := by
  unfold Reader.setScope WholeReader.setScope whole
  cases reader.opened <;> simp [OpenPhrase.whole]

theorem whole_append (reader : Reader) (piece : Text) :
    (reader.append piece).whole = reader.whole.append piece := by
  rw [append, whole_setScope, Scope.whole_append, WholeReader.append, whole_scope]

variable {reader : Reader}

theorem Sound.scope (sound : reader.Sound) : reader.scope.Sound := by
  unfold Reader.scope
  cases opened : reader.opened with
  | nil => exact sound.document
  | cons phrase outer => exact sound.opened phrase (by simp [opened])

theorem Sound.scope_counted (sound : reader.Sound) (outside : reader.opened = []) :
    reader.scope.Counted := by
  rw [Reader.scope, outside]
  exact sound.counted

theorem Sound.setScope (sound : reader.Sound) (scope : Scope) (scope_sound : scope.Sound)
    (counted : reader.opened = [] → scope.Counted) : (reader.setScope scope).Sound := by
  unfold Reader.setScope
  cases opened : reader.opened with
  | nil => exact ⟨scope_sound, counted opened, by simp⟩
  | cons phrase outer =>
    refine ⟨sound.document, sound.counted, List.forall_mem_cons.mpr ⟨scope_sound, ?_⟩⟩
    intro other member
    exact sound.opened other (by rw [opened]; exact List.mem_cons_of_mem _ member)

theorem Sound.resolve (sound : reader.Sound) :
    (reader.setScope reader.scope.takeEscape.1).Sound := by
  apply sound.setScope _ sound.scope.takeEscape
  intro outside
  exact (sound.scope_counted outside).takeEscape sound.scope

theorem Ready.append_plain (ready : reader.Ready) (raw : Text) (plain : raw.IsPlain) :
    (reader.append raw).Sound := by
  apply ready.sound.setScope _ (ready.sound.scope.append_plain ready.settled raw plain)
  intro outside
  exact (ready.sound.scope_counted outside).append ready.sound.scope raw

theorem Sound.append_marker (sound : reader.Sound) (body : Text) (marker : Marker) :
    (reader.append (body ++ marker.toText)).Ready := by
  constructor
  · apply sound.setScope _ (sound.scope.append_marker body marker)
    intro outside
    exact (sound.scope_counted outside).append sound.scope _
  · rw [append, scope_setScope]
    exact Scope.settled_append_marker _ body marker

theorem ready_meetOpening (sound : reader.Sound) : reader.meetOpening.Ready := by
  have resolved := sound.resolve
  simp only [meetOpening]
  split
  · exact resolved.append_marker [] .opening
  · exact ⟨⟨resolved.document, resolved.counted,
      List.forall_mem_cons.mpr ⟨Scope.sound_empty, resolved.opened⟩⟩, Scope.settled_empty⟩

theorem whole_meetOpening (sound : reader.Sound) :
    reader.meetOpening.whole = reader.whole.meetOpening := by
  have resolved := Scope.resolve_whole sound.scope
  rw [← whole_scope] at resolved
  simp only [meetOpening, WholeReader.meetOpening, resolved, ← whole_setScope]
  cases reader.scope.takeEscape.2 with
  | true => exact whole_append _ _
  | false =>
    have length := sound.scope.takeEscape.length_eq
    simp only [Bool.false_eq_true, if_false, whole, List.map_cons, OpenPhrase.whole,
      OpenPhrase.start, WholePhrase.start, length]
    rfl

theorem locate_strayPosition {scope : Scope} (sound : scope.Sound) (counted : scope.Counted)
    (ahead : Text) :
    Position.locate (scope.text ++ Marker.closing.toUnit :: ahead)
        (Number.ofNat scope.text.length) = .ok (some (strayPosition scope ahead)) := by
  have inside : scope.text.length < (scope.text ++ Marker.closing.toUnit :: ahead).length := by
    simp
  have closing : CodeUnit.newline ≠ Marker.closing.toUnit := by decide
  have newline_iff : CodeUnit.newline ∈ scope.text ++ Marker.closing.toUnit :: ahead ↔
      ¬ (scope.newlines = 0 ∧ !ahead.contains CodeUnit.newline) := by
    rw [counted.newlines, List.count_eq_zero]
    simp [closing]
    tauto
  rw [Position.locate_ofNat _ _ inside, Position.ofIndex, List.take_left, strayPosition]
  by_cases lines : CodeUnit.newline ∈ scope.text ++ Marker.closing.toUnit :: ahead
  · rw [if_pos lines, if_neg (newline_iff.mp lines), counted.newlines, counted.lineStart,
      sound.length_eq]
  · rw [if_neg lines, if_pos (not_not.mp (lines ∘ newline_iff.mpr)), sound.length_eq]

theorem ready_meetStray (sound : reader.Sound) (outside : reader.opened = []) (ahead : Text) :
    (reader.meetStray ahead).Ready := by
  have resolved := sound.document.takeEscape
  have counted := sound.counted.takeEscape sound.document
  refine ⟨⟨resolved.append_marker [] .closing, counted.append resolved Marker.closing.toText,
    sound.opened⟩, ?_⟩
  rw [Reader.scope]
  simp only [meetStray, outside]
  exact Scope.settled_append_marker _ [] .closing

theorem whole_meetStray (sound : reader.Sound) (ahead : Text) :
    (reader.meetStray ahead).whole = reader.whole.meetStray ahead := by
  have resolved := Scope.resolve_whole sound.document
  have located := locate_strayPosition sound.document.takeEscape
    (sound.counted.takeEscape sound.document) ahead
  have length := sound.document.takeEscape.length_eq
  simp only [whole, meetStray, WholeReader.meetStray, resolved, Scope.whole_append]
  cases reader.document.takeEscape.2 with
  | true => rfl
  | false =>
    simp only [Bool.false_eq_true, if_false, List.map_cons, Stray.ofDiagnostic, length]
    rw [← located]
    rfl

theorem ready_closePhrase (sound : reader.Sound) (phrase : OpenPhrase) (outer : List OpenPhrase)
    (inside : ∀ other ∈ outer, other ∈ reader.opened) :
    (reader.closePhrase phrase outer).Ready := by
  have around : ({ reader with opened := outer } : Reader).Sound := by
    refine ⟨sound.document, sound.counted, ?_⟩
    intro other member
    exact sound.opened other (inside other member)
  have added := around.setScope _ (around.scope.addChild phrase.close) (by
    intro outside
    have counted := around.scope_counted outside
    exact ⟨counted.newlines, counted.lineStart⟩)
  have written := added.append_marker (Marker.opening.toText ++ phrase.close.text) .closing
  rw [append, scope_setScope, setScope_setScope] at written
  exact written

theorem ready_meetClosing (sound : reader.Sound) (ahead : Text) :
    (reader.meetClosing ahead).Ready := by
  unfold meetClosing
  split
  · rename_i outside
    exact ready_meetStray sound outside ahead
  · rename_i phrase outer opened
    have phrase_sound : phrase.scope.Sound := sound.opened phrase (by simp [opened])
    have outer_inside : ∀ other ∈ outer, other ∈ reader.opened := by
      intro other member
      rw [opened]
      exact List.mem_cons_of_mem _ member
    split
    · refine ⟨⟨sound.document, sound.counted, List.forall_mem_cons.mpr
        ⟨Scope.Sound.restart phrase.scope, ?_⟩⟩, ?_⟩
      · intro other member
        exact sound.opened other (outer_inside other member)
      · simp [Scope.Settled, Reader.scope, OpenPhrase.specify, Scope.restart]
    · have resolved := sound.resolve
      simp only [Reader.scope, opened] at resolved
      simp only
      split
      · exact resolved.append_marker [] .closing
      · exact ready_closePhrase sound _ outer outer_inside

theorem whole_closePhrase (phrase : OpenPhrase) (outer : List OpenPhrase) :
    (reader.closePhrase phrase outer).whole =
      reader.whole.closePhrase phrase.whole (outer.map OpenPhrase.whole) := by
  have around : ({ reader with opened := outer } : Reader).whole =
      { reader.whole with opened := outer.map OpenPhrase.whole } := rfl
  simp only [closePhrase, WholeReader.closePhrase, whole_setScope, Scope.whole_append, around,
    OpenPhrase.close_whole]
  rw [← around, whole_scope]
  rfl

theorem whole_meetClosing (sound : reader.Sound) (ahead : Text) :
    (reader.meetClosing ahead).whole = reader.whole.meetClosing ahead := by
  unfold meetClosing WholeReader.meetClosing
  cases opened : reader.opened with
  | nil =>
    have whole_opened : reader.whole.opened = [] := by simp [whole, opened]
    simp only [whole_opened]
    exact whole_meetStray sound ahead
  | cons phrase outer =>
    have phrase_sound : phrase.scope.Sound := sound.opened phrase (by simp [opened])
    have whole_opened : reader.whole.opened = phrase.whole :: outer.map OpenPhrase.whole := by
      simp [whole, opened]
    simp only [whole_opened, Scope.specifier_loneChunk? phrase_sound]
    rw [show phrase.whole.scope.text = phrase.scope.text from rfl]
    cases Specifier.ofText? phrase.scope.text with
    | some specifier => rfl
    | none =>
      have resolved := Scope.resolve_whole phrase_sound
      simp only [show phrase.whole.scope = phrase.scope.whole from rfl, resolved]
      cases phrase.scope.takeEscape.2 with
      | true =>
        simp only [if_true]
        rw [whole_append, whole_setScope]
      | false =>
        simp only [Bool.false_eq_true, if_false]
        exact whole_closePhrase _ outer

theorem ready_meet (ready : reader.Ready) (raw : Text) (plain : raw.IsPlain) (marker : Marker)
    (ahead : Text) : (reader.meet raw marker ahead).Ready := by
  have sound := ready.append_plain raw plain
  cases marker with
  | opening => exact ready_meetOpening sound
  | closing => exact ready_meetClosing sound ahead

theorem whole_meet (ready : reader.Ready) (raw : Text) (plain : raw.IsPlain) (marker : Marker)
    (ahead : Text) :
    (reader.meet raw marker ahead).whole = reader.whole.meet raw marker ahead := by
  have sound := ready.append_plain raw plain
  cases marker with
  | opening => exact (whole_meetOpening sound).trans (by rw [whole_append]; rfl)
  | closing => exact (whole_meetClosing sound ahead).trans (by rw [whole_append]; rfl)

theorem whole_read (ready : reader.Ready) (raw : Text) (plain : raw.IsPlain) (ahead : Text) :
    (reader.read raw ahead).whole = reader.whole.read raw ahead := by
  -- `raw` holds no marker, so that taking it up as one chunk keeps the reader ready.
  induction ahead generalizing reader raw with
  | nil => exact whole_append reader raw.reverse
  | cons u ahead ih =>
    rw [read, WholeReader.read]
    cases found : Marker.ofUnit? u with
    | none => exact ih ready (u :: raw) (List.forall_mem_cons.mpr ⟨found, plain⟩)
    | some marker =>
      simp only
      rw [ih (ready_meet ready raw.reverse plain.reverse marker ahead) [] (by decide),
        whole_meet ready raw.reverse plain.reverse marker ahead]

theorem ready_start : start.Ready :=
  ⟨⟨Scope.sound_empty, Scope.counted_empty, by simp [start]⟩, Scope.settled_empty⟩

theorem whole_read_start (markup : Text) : (start.read [] markup).whole = readWhole markup :=
  whole_read ready_start [] (by decide) markup

end Reader

theorem result_parse (markup : Text) : (parse markup).result = (readWhole markup).result := by
  rw [← Reader.whole_read_start, WholeReader.result]
  cases opened : (Reader.start.read [] markup).opened with
  | nil => simp [parse, Markup.outcome, Reader.whole, opened, Scope.whole]
  | cons phrase outer =>
    simp [parse, Markup.outcome, Reader.whole, opened, Scope.whole, OpenPhrase.whole,
      Function.comp_def]

theorem parse_eq_ok_iff (markup : Text) (document : Document) :
    (parse markup).result = .ok document ↔
      (readWhole markup).opened = [] ∧ document.text = (readWhole markup).document.text ∧
        document.phrases = (readWhole markup).document.children.reverse := by
  rcases document with ⟨text, phrases⟩
  rw [result_parse, WholeReader.result]
  cases (readWhole markup).opened with
  | nil =>
    simp only [Except.ok.injEq, Document.mk.injEq, true_and]
    exact and_congr eq_comm eq_comm
  | cons phrase outer => simp

theorem Markup.unclosed_eq (texts : List Text) (innermost : Text) :
    let before := Text.join Marker.opening.toText texts
    unclosed texts innermost =
      .unclosedPhrase
        (some (Position.ofIndex (before ++ Marker.opening.toText ++ innermost) before.length))
        (innermost.take contextLength) := by
  intro before
  have inside : before.length < (before ++ Marker.opening.toText ++ innermost).length := by
    simp only [Marker.toText, List.length_append, List.length_singleton]
    omega
  rw [unclosed, Position.locate_ofNat _ _ inside]

theorem diagnostics_parse (markup : Text) :
    (parse markup).diagnostics.map Stray.ofDiagnostic = (readWhole markup).strays.reverse := by
  rw [← Reader.whole_read_start]
  simp [parse, Markup.outcome, Reader.whole]

theorem diagnostics_eq_nil_iff (markup : Text) :
    (parse markup).diagnostics = [] ↔ (readWhole markup).strays = [] := by
  have same := diagnostics_parse markup
  constructor
  · intro silent
    rw [silent] at same
    exact List.reverse_eq_nil_iff.mp same.symm
  · intro silent
    rw [silent] at same
    exact List.map_eq_nil_iff.mp same

/-- Chunks, counters and look-backs at the last chunk are out of sight: what is parsed and what is
reported on the way, in its order, is what reading whole texts gives. Each report's place is the one
located in the text so far and the markup ahead. -/
theorem parse_eq_readWhole (markup : Text) :
    (parse markup).result = (readWhole markup).result ∧
      (parse markup).diagnostics.map Stray.ofDiagnostic = (readWhole markup).strays.reverse :=
  ⟨result_parse markup, diagnostics_parse markup⟩

end AnsiMarkup
