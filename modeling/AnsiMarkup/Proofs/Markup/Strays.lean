import AnsiMarkup.Proofs.Markup.Conservation
import AnsiMarkup.Proofs.Markup.Levels

/-! Closing markers outside all phrases: where they are reported is where they are in the end. -/

namespace AnsiMarkup

/-- The marker stands in the document outside all its phrases. Its place was found in a text that
agrees with the document up to there, and has newlines if the markup has. -/
structure Stray.Sited (lines : Prop) (document : WholeScope) (stray : Stray) : Prop where
  marker : document.text[stray.index]? = some Marker.closing.toUnit
  apart : ∀ child ∈ document.children, ∃ first last : Nat, child.openIndex = first ∧
    child.closeIndex = some (last : Int) ∧ (stray.index < first ∨ last < stray.index)
  place : ∃ text : Text, stray.place = .ok (some (Position.ofIndex text stray.index)) ∧
    text.take stray.index = document.text.take stray.index ∧ (CodeUnit.newline ∈ text ↔ lines)

namespace Stray

variable {lines : Prop} {document : WholeScope} {stray : Stray}

theorem Sited.inside (sited : stray.Sited lines document) : stray.index < document.text.length :=
  (List.getElem?_eq_some_iff.mp sited.marker).1

theorem Sited.append (sited : stray.Sited lines document) (piece : Text) :
    stray.Sited lines (document.append piece) := by
  obtain ⟨text, located, before, newline⟩ := sited.place
  refine ⟨?_, sited.apart, text, located, ?_, newline⟩
  · exact (List.getElem?_append_left sited.inside).trans sited.marker
  · exact before.trans (List.take_append_of_le_length (Nat.le_of_lt sited.inside)).symm

theorem Sited.resolve (sited : stray.Sited lines document) :
    stray.Sited lines document.resolve.1 := by
  rcases WholeScope.resolve_cases document with ⟨-, resolved⟩ | ⟨body, whole, resolved⟩
  · rw [resolved]
    exact sited
  · obtain ⟨text, located, before, newline⟩ := sited.place
    have marker := sited.marker
    have bound := sited.inside
    rw [whole] at marker bound before
    have inside : stray.index < body.length := by
      by_contra beyond
      have last : stray.index = body.length := by
        rw [List.length_append, List.length_singleton] at bound
        omega
      rw [last, List.getElem?_concat_length] at marker
      exact absurd marker (by decide)
    rw [List.getElem?_append_left inside] at marker
    rw [List.take_append_of_le_length (Nat.le_of_lt inside)] at before
    rw [resolved]
    exact ⟨marker, sited.apart, text, located, before, newline⟩

theorem Sited.addChild (sited : stray.Sited lines document) (child : Phrase) (last : Nat)
    (opens : child.openIndex = document.text.length) (closes : child.closeIndex = some (last : Int)) :
    stray.Sited lines (document.addChild child) := by
  refine ⟨sited.marker, ?_, sited.place⟩
  exact List.forall_mem_cons.mpr
    ⟨⟨document.text.length, last, opens, closes, Or.inl sited.inside⟩, sited.apart⟩

end Stray

theorem WholeScope.Traced.standsIn {scope : WholeScope} {strict : Prop}
    (traced : scope.Traced strict) (child : Phrase) (member : child ∈ scope.children) :
    ∃ first last, child.StandsIn scope.text first last := by
  obtain ⟨nodes, shows, -⟩ := traced
  have listed := List.mem_reverse.mpr member
  rw [shows.children] at listed
  obtain ⟨before, specifier, content, after, rfl, found⟩ := Node.mem_scopePhrases nodes 0 child listed
  rw [Nat.zero_add] at found
  rw [shows.text]
  exact ⟨_, _, Node.standsIn before after content specifier child found⟩

namespace WholeReader

structure Sited (lines : Prop) (reader : WholeReader) : Prop where
  strays : ∀ stray ∈ reader.strays, stray.Sited lines reader.document
  ordered : reader.strays.Pairwise fun later earlier => earlier.index < later.index

variable {lines : Prop} {reader : WholeReader}

theorem Sited.setScope (sited : reader.Sited lines) (scope : WholeScope)
    (kept : ∀ stray : Stray, stray.Sited lines reader.scope → stray.Sited lines scope) :
    (reader.setScope scope).Sited lines := by
  rcases reader with ⟨document, opened, strays⟩
  cases opened with
  | nil => exact ⟨fun stray member => kept stray (sited.strays stray member), sited.ordered⟩
  | cons phrase outer => exact ⟨sited.strays, sited.ordered⟩

theorem Sited.append (sited : reader.Sited lines) (piece : Text) :
    (reader.append piece).Sited lines := by
  apply sited.setScope
  intro stray here
  exact here.append piece

theorem Sited.resolve (sited : reader.Sited lines) :
    (reader.setScope reader.scope.resolve.1).Sited lines := by
  apply sited.setScope
  intro stray here
  exact here.resolve

theorem sited_meetOpening (sited : reader.Sited lines) : reader.meetOpening.Sited lines := by
  simp only [meetOpening]
  split
  · exact sited.resolve.append Marker.opening.toText
  · exact ⟨sited.resolve.strays, sited.resolve.ordered⟩

theorem sited_meetStray (traced : reader.Traced) (sited : reader.Sited lines) (ahead : Text)
    (newline : lines ↔ CodeUnit.newline ∈ reader.document.text ++ ahead) :
    (reader.meetStray ahead).Sited lines := by
  have resolved (stray : Stray) (member : stray ∈ reader.strays) :=
    (sited.strays stray member).resolve
  have kept (stray : Stray) (member : stray ∈ reader.strays) :=
    (resolved stray member).append Marker.closing.toText
  simp only [meetStray]
  split
  · exact ⟨kept, sited.ordered⟩
  · let scope := reader.document.resolve.1
    have inside : scope.text.length < (scope.text ++ Marker.closing.toUnit :: ahead).length := by
      simp
    have newline_resolved : CodeUnit.newline ∈ scope.text ↔
        CodeUnit.newline ∈ reader.document.text := by
      rw [← List.count_pos_iff, ← List.count_pos_iff,
        CodeUnit.isInert_newline.count_resolve reader.document]
    have unbroken : CodeUnit.newline ≠ Marker.closing.toUnit := by decide
    refine ⟨List.forall_mem_cons.mpr ⟨⟨?_, ?_, ?_⟩, kept⟩, List.pairwise_cons.mpr ⟨?_, sited.ordered⟩⟩
    · exact List.getElem?_concat_length
    · intro child member
      obtain ⟨first, last, stands⟩ := traced.document.resolve.standsIn child member
      exact ⟨first, last, stands.openIndex, stands.closeIndex, Or.inr stands.inside⟩
    · refine ⟨_, Position.locate_ofNat _ _ inside, ?_, ?_⟩
      · rw [List.take_left]
        exact List.take_left.symm
      · rw [newline, List.mem_append, List.mem_append, List.mem_cons, newline_resolved]
        simp only [unbroken, false_or]
    · intro stray member
      exact (resolved stray member).inside

theorem sited_closePhrase (sited : reader.Sited lines) (phrase : WholePhrase)
    (outer : List WholePhrase) (anchored : Anchored reader.document (phrase :: outer)) :
    (reader.closePhrase phrase outer).Sited lines := by
  let around : WholeReader := { reader with opened := outer }
  have around_sited : around.Sited lines := ⟨sited.strays, sited.ordered⟩
  have opens : phrase.openIndex = around.scope.text.length := by
    rw [scope_eq_around]
    exact anchored.1
  apply around_sited.setScope
  intro stray here
  have added := here.addChild phrase.close (phrase.openIndex + 1 + phrase.scope.text.length)
    (congrArg Nat.cast opens) (by simp [WholePhrase.close])
  exact added.append _

theorem sited_meetClosing (traced : reader.Traced) (sited : reader.Sited lines) (ahead : Text)
    (newline : reader.opened = [] →
      (lines ↔ CodeUnit.newline ∈ reader.document.text ++ ahead)) :
    (reader.meetClosing ahead).Sited lines := by
  unfold meetClosing
  split
  · rename_i outside
    exact sited_meetStray traced sited ahead (newline outside)
  · rename_i phrase outer opened
    have anchored := traced.anchored
    rw [opened] at anchored
    split
    · exact ⟨sited.strays, sited.ordered⟩
    · have scope_eq : reader.scope = phrase.scope := by rw [scope, opened]
      simp only [← scope_eq]
      split
      · exact sited.resolve.append Marker.closing.toText
      · exact sited_closePhrase sited _ outer anchored

theorem sited_step (traced : reader.Traced) (sited : reader.Sited lines) (u : CodeUnit)
    (ahead : Text)
    (newline : lines ↔ 0 < reader.total CodeUnit.newline + (u :: ahead).count CodeUnit.newline) :
    (reader.step u ahead).Sited lines := by
  unfold step
  split
  · exact sited.append [u]
  · exact sited_meetOpening sited
  · rename_i closing
    refine sited_meetClosing traced sited ahead fun outside => ?_
    have unbroken : u ≠ CodeUnit.newline := by
      rintro rfl
      cases closing
    rw [newline, total_of_outside reader outside, List.count_cons_of_ne unbroken,
      ← List.count_append, List.count_pos_iff]

theorem sited_read (traced : reader.Traced) (sited : reader.Sited lines) (markup : Text)
    (newline : lines ↔ 0 < reader.total CodeUnit.newline + markup.count CodeUnit.newline) :
    (reader.read [] markup).Sited lines := by
  induction markup generalizing reader with
  | nil => rw [read_nil]; exact sited
  | cons u markup ih =>
    rw [read_cons]
    apply ih (traced_step traced u markup) (sited_step traced sited u markup newline)
    rw [newline, total_step CodeUnit.isInert_newline, Nat.add_assoc, ← List.count_append,
      List.singleton_append]

end WholeReader

theorem sited_readWhole (markup : Text) :
    (readWhole markup).Sited (CodeUnit.newline ∈ markup) := by
  refine WholeReader.sited_read WholeReader.traced_start ⟨?_, .nil⟩ markup ?_
  · simp [WholeReader.start]
  · rw [← List.count_pos_iff]
    simp [WholeReader.total, WholeReader.start, WholeScope.empty]

/-- All that is reported is right about the text in the end. The indices rise; at each of them the
text has a closing marker that no phrase of the document holds; and the place that was told is the
one that is located in the whole text. -/
theorem diagnostics_in_text (markup : Text) (document : Document)
    (parsed : (parse markup).result = .ok document) :
    (parse markup).diagnostics.Pairwise (fun earlier later => earlier.index < later.index) ∧
      ∀ d ∈ (parse markup).diagnostics,
        d.index < document.text.length ∧
        document.text[d.index]? = some Marker.closing.toUnit ∧
        (∀ phrase ∈ document.phrases, ∃ last, phrase.closeIndex = some last ∧
          ((d.index : Int) < phrase.openIndex ∨ last < d.index)) ∧
        Position.locate document.text (Number.ofNat d.index) = .ok (some d.position) := by
  have sited := sited_readWhole markup
  have newline := count_text_of_parse CodeUnit.isInert_newline markup document parsed
  have reported := diagnostics_parse markup
  have whole : document.text = (readWhole markup).document.text ∧
      document.phrases = (readWhole markup).document.children.reverse := by
    rw [result_parse, WholeReader.result] at parsed
    split at parsed
    · cases parsed
      exact ⟨rfl, rfl⟩
    · cases parsed
  constructor
  · have rising := List.pairwise_reverse.mpr sited.ordered
    rw [← reported, List.pairwise_map] at rising
    exact rising
  · intro d member
    have listed : Stray.ofDiagnostic d ∈ (readWhole markup).strays := by
      rw [← List.mem_reverse, ← reported]
      exact List.mem_map_of_mem member
    have here := sited.strays _ listed
    obtain ⟨text, located, before, lines⟩ := here.place
    have inside : d.index < document.text.length := by
      rw [whole.1]
      exact here.inside
    have marker := here.marker
    rw [← whole.1] at marker before
    refine ⟨inside, marker, ?_, ?_⟩
    · intro phrase child
      rw [whole.2, List.mem_reverse] at child
      obtain ⟨first, last, opens, closes, apart⟩ := here.apart phrase child
      refine ⟨last, closes, ?_⟩
      rw [opens]
      exact_mod_cast apart
    · have lines_iff : CodeUnit.newline ∈ text ↔ CodeUnit.newline ∈ document.text := by
        rw [lines, ← List.count_pos_iff, ← List.count_pos_iff, newline]
      rw [Position.locate_ofNat _ _ inside,
        Position.ofIndex_congr document.text text d.index before.symm lines_iff.symm]
      exact located.symm

/-- A stray marker that loses a backslash before it, and one after a new line and a phrase that loses
its specifier. -/
theorem diagnostics_in_text_lines :
    let markup : Text := "\\\\>\n<0>a>>"
    let document : Document := ⟨"\\>\n<a>>", [⟨"a", 3, some 5, [.finite 0], false, none, []⟩]⟩
    (parse markup).result = .ok document ∧
      (parse markup).diagnostics = [⟨1, .lineColumn 1 2⟩, ⟨6, .lineColumn 2 4⟩] ∧
      6 < document.text.length ∧
      document.text[6]? = some Marker.closing.toUnit ∧
      (∀ phrase ∈ document.phrases, ∃ last, phrase.closeIndex = some last ∧
        ((6 : Int) < phrase.openIndex ∨ last < 6)) ∧
      Position.locate document.text (Number.ofNat 6) = .ok (some (.lineColumn 2 4)) := by
  intro markup document
  have parsed : (parse markup).result = .ok document := rfl
  have reported : (parse markup).diagnostics = [⟨1, .lineColumn 1 2⟩, ⟨6, .lineColumn 2 4⟩] := rfl
  have last := (diagnostics_in_text markup document parsed).2 ⟨6, .lineColumn 2 4⟩
  rw [reported] at last
  exact ⟨parsed, reported, last (by simp)⟩

end AnsiMarkup
