import AnsiMarkup.Proofs.Markup.Composition
import AnsiMarkup.Proofs.Rendering.Erasure
import AnsiMarkup.Proofs.Rendering.Trees

namespace AnsiMarkup

theorem Node.document_append (front back : List Node) :
    document (front ++ back) = (document front).append (document back) := by
  rw [document, scopeText_append, scopePhrases_append, scopePhrases_add]
  rfl

section Trees

variable {front back : List Node} {first second : Document} (first_tree : first = Node.document front)
  (second_tree : second = Node.document back)

include first_tree second_tree

theorem walk_append {m : Type → Type} [Monad m] [LawfulMonad m] {visitor : Visitor m}
    (unplaced : visitor.Unplaced) (parent : Option Phrase) :
    walk visitor (first.append second).text (first.append second).phrases parent = (do
      let piece ← walk visitor first.text first.phrases parent
      let others ← walk visitor second.text second.phrases parent
      pure (piece ++ others)) := by
  rw [first_tree, second_tree, ← Node.document_append, walk_document, walk_document, walk_document,
    Node.walkedScope_append, Node.walkedScope_add unplaced]

theorem strip_append :
    strip (first.append second).text (first.append second).phrases =
      .ok (Node.scopePlain front ++ Node.scopePlain back) := by
  rw [first_tree, second_tree, ← Node.document_append, Node.strip_document, Node.scopePlain_append]

end Trees

theorem map_run {σ α β : Type} (f : α → β) (x : ExceptT Error (StateM σ) α) (state : σ) :
    (f <$> x).run.run state = (x.run.run state).map (Except.map f) id := by
  rw [ExceptT.run_map]
  rfl

theorem Supply.style_shift (table : FlagTable) (n : Nat) (phrase : Phrase) :
    style table (phrase.shift n) = Phrase.shift n <$> style table phrase := by
  have same : (phrase.shift n).styleCode = phrase.styleCode := rfl
  rw [style, style, same]
  cases phrase.styleCode with
  | some code => rfl
  | none =>
    simp only [Option.isSome_none, Bool.false_eq_true, if_false]
    rw [map_bind]
    rfl

namespace Rendering

theorem enter_shift (table : FlagTable) (n : Nat) (phrase : Phrase) :
    enter table (phrase.shift n) = Phrase.shift n <$> enter table phrase := by
  apply ExceptT.ext
  apply StateT.ext
  intro progress
  rw [map_run, enter, enter, ExceptT.run_mk, ExceptT.run_mk, StateT.run, Supply.style_shift, map_run]
  conv_rhs => arg 3; rw [StateT.run]
  rcases (Supply.style table phrase).run.run progress.supply with ⟨result, supply⟩
  cases result <;> rfl

theorem unplaced_visitor (table : FlagTable) : (visitor table).Unplaced :=
  ⟨fun n phrase _ => enter_shift table n phrase, fun _ _ _ _ => rfl, fun _ _ _ => rfl,
    fun _ _ _ _ => rfl⟩

theorem walk_run (table : FlagTable) (text : Text) (phrases : List Phrase) (supply : Supply)
    (parent : Option Phrase) (codes : List Text) :
    ∃ later, (walk (visitor table) text phrases parent).run.run ⟨supply, codes⟩ =
      ((render table text phrases supply parent).output,
        ⟨(render table text phrases supply parent).supply, later⟩) := by
  rw [walk_eq, writtenAll_run, render_eq]
  exact ⟨_, rfl⟩

end Rendering

theorem render_append (table : FlagTable) {front back : List Node} {first second : Document}
    (first_tree : first = Node.document front) (second_tree : second = Node.document back)
    (supply left : Supply) (parent : Option Phrase) (output : Text)
    (rendered : (render table first.text first.phrases supply parent).output = .ok output)
    (spent : (render table first.text first.phrases supply parent).supply = left) :
    let both := render table (first.append second).text (first.append second).phrases supply parent
    let rest := render table second.text second.phrases left parent
    both.output = rest.output.map (output ++ ·) ∧ both.supply = rest.supply := by
  intro both rest
  obtain ⟨codes, here⟩ := Rendering.walk_run table first.text first.phrases supply parent []
  obtain ⟨later, behind⟩ := Rendering.walk_run table second.text second.phrases left parent codes
  obtain ⟨all, run⟩ := Rendering.walk_run table (first.append second).text
    (first.append second).phrases supply parent []
  rw [rendered, spent] at here
  rw [walk_append first_tree second_tree (Rendering.unplaced_visitor table), bind_run, here] at run
  simp only at run
  rw [bind_run] at run
  change _ = (rest.output, (⟨rest.supply, later⟩ : Rendering.Progress)) at behind
  change _ = (both.output, (⟨both.supply, all⟩ : Rendering.Progress)) at run
  have ends : (rest.output.map (output ++ ·), (⟨rest.supply, later⟩ : Rendering.Progress)) =
      (both.output, ⟨both.supply, all⟩) := by
    rw [← run, behind]
    cases rest.output <;> rfl
  rw [Prod.mk.injEq, Rendering.Progress.mk.injEq] at ends
  exact ⟨ends.1.symm, ends.2.1.symm⟩

theorem Rendering.palette_serveAll (table : FlagTable) (palette : Palette) (served : Nat)
    (phrases : List Phrase) (fresh : ∀ phrase ∈ phrases, phrase.Fresh) :
    (serveAll table ⟨palette, served⟩ phrases).supply.palette = palette := by
  rcases serveAll_of_fresh table palette served phrases fresh with
    ⟨styles, -, all⟩ | ⟨before, phrase, after, styles, error, -, -, -, all⟩
  · rw [all]
  · rw [all]

namespace Painter

variable (painter : Painter)

theorem paintDocument_eq_render (document : Document) :
    painter.paintDocument document =
      let rendering := render painter.table document.text document.phrases
        (.ofPalette painter.palette) none
      rendering.output.map (⟨·, rendering.supply.served⟩) := by
  rw [paintDocument_eq, render_eq]
  rfl

theorem paintDocument_append {front back : List Node} {first second : Document}
    (first_tree : first = Node.document front) (second_tree : second = Node.document back)
    (painting : Painting) (painted : painter.paintDocument first = .ok painting) :
    painter.paintDocument (first.append second) =
      let rest := render painter.table second.text second.phrases
        ⟨painter.palette, painting.served⟩ none
      rest.output.map fun output => ⟨painting.output ++ output, rest.supply.served⟩ := by
  have fresh : ∀ phrase ∈ Phrase.order first.phrases, phrase.Fresh := by
    rw [first_tree]
    exact Node.fresh_scopePhrases front 0
  let before := render painter.table first.text first.phrases (.ofPalette painter.palette) none
  have kept : before.supply.palette = painter.palette := by
    simp only [before, render_eq]
    exact Rendering.palette_serveAll painter.table painter.palette 0 _ fresh
  rw [paintDocument_eq_render] at painted
  change before.output.map (Painting.mk · before.supply.served) = _ at painted
  cases rendered : before.output with
  | error error =>
    rw [rendered] at painted
    cases painted
  | ok output =>
    rw [rendered] at painted
    cases painted
    have left : before.supply = ⟨painter.palette, before.supply.served⟩ := by
      rw [← kept]
    obtain ⟨outputs, supplies⟩ := render_append painter.table first_tree second_tree
      (.ofPalette painter.palette) _ none output rendered left
    rw [paintDocument_eq_render]
    simp only [outputs, supplies]
    cases (render painter.table second.text second.phrases _ none).output <;> rfl

end Painter

/-- Behind markup that can be parsed and does not end in a backslash, other markup is parsed, stripped
and painted as on its own: its phrases and reports are shifted, and its styles are served from where
those before it end. If nothing is reported and the text is no specifier, the markup is parsed the same
as the text of a phrase. -/
theorem markup_compositional (markup : Text) (document : Document)
    (parsed : (parse markup).result = .ok document)
    (unescaped : markup.endsWith CodeUnit.backslash = false) :
    (∀ behind : Text,
      ((∃ whole, (parse (markup ++ behind)).result = .ok whole) ↔
        ∃ rest, (parse behind).result = .ok rest) ∧
      (parse (markup ++ behind)).diagnostics.map Diagnostic.index =
        (parse markup).diagnostics.map Diagnostic.index ++
          (parse behind).diagnostics.map (fun d => d.index + document.text.length) ∧
      ∀ rest, (parse behind).result = .ok rest →
        (parse (markup ++ behind)).result = .ok (document.append rest) ∧
        (∃ first second, (plain markup).result = .ok first ∧ (plain behind).result = .ok second ∧
          (plain (markup ++ behind)).result = .ok (first ++ second)) ∧
        ∀ (painter : Painter) (painting : Painting), (painter.paint markup).result = .ok painting →
          let rendering := render painter.table rest.text rest.phrases
            ⟨painter.palette, painting.served⟩ none
          (painter.paint (markup ++ behind)).result =
            rendering.output.map fun output =>
              ⟨painting.output ++ output, rendering.supply.served⟩) ∧
    ((parse markup).diagnostics = [] → Specifier.ofText? document.text = none →
      let enclosed := Marker.opening.toText ++ markup ++ Marker.closing.toText
      (parse enclosed).result = .ok document.enclose ∧ (parse enclosed).diagnostics = []) := by
  constructor
  · intro behind
    refine ⟨?_, map_index_diagnostics_append markup behind document unescaped parsed, ?_⟩
    · constructor
      · rintro ⟨whole, both⟩
        exact exists_parse_of_append markup behind document whole unescaped parsed both
      · rintro ⟨rest, parsed_behind⟩
        exact ⟨_, parse_append markup behind document rest unescaped parsed parsed_behind⟩
    · intro rest parsed_behind
      have both := parse_append markup behind document rest unescaped parsed parsed_behind
      obtain ⟨front, first_tree, -, -⟩ := parse_tree markup document parsed
      obtain ⟨back, second_tree, -, -⟩ := parse_tree behind rest parsed_behind
      refine ⟨both, ?_, ?_⟩
      · refine ⟨Node.scopePlain front, Node.scopePlain back, ?_, ?_, ?_⟩
        · rw [result_plain_of_parse markup document parsed, first_tree, Node.strip_document]
        · rw [result_plain_of_parse behind rest parsed_behind, second_tree, Node.strip_document]
        · rw [result_plain_of_parse _ _ both]
          exact strip_append first_tree second_tree
      · intro painter painting painted
        rw [painter.result_paint_of_parse markup document parsed] at painted
        rw [painter.result_paint_of_parse _ _ both]
        exact painter.paintDocument_append first_tree second_tree painting painted
  · intro silent unspecified
    exact parse_enclosed markup document parsed silent unescaped unspecified

/-- The second of two phrases takes the second style, and the first one is parsed the same inside a
phrase. -/
theorem markup_compositional_pair :
    let a : Phrase := ⟨"a", 0, some 2, [], false, none, []⟩
    let c : Phrase := ⟨"c", 1, some 3, [], false, none, []⟩
    let table := FlagTable.standard
    (parse "<a>").result = .ok ⟨"<a>", [a]⟩ ∧
      (parse "<a>b<c>").result = .ok ⟨"<a>b<c>", [a, c.shift 3]⟩ ∧
      (plain "<a>b<c>").result = .ok "abc" ∧
      (∃ painting, (Painter.paint ⟨table, ⟨[1, 2], []⟩⟩ "<a>").result = .ok painting ∧
        (Painter.paint ⟨table, ⟨[1, 2], []⟩⟩ "<a>b<c>").result =
          let rendering := render table "b<c>" [c] ⟨⟨[1, 2], []⟩, painting.served⟩ none
          rendering.output.map fun output =>
            ⟨painting.output ++ output, rendering.supply.served⟩) ∧
      (parse "<<a>>").result = .ok ⟨"<<a>>", [⟨"<a>", 0, some 4, [], false, none, [a]⟩]⟩ := by
  intro a c table
  have parsed : (parse "<a>").result = .ok ⟨"<a>", [a]⟩ := rfl
  have parsed_behind : (parse "b<c>").result = .ok ⟨"b<c>", [c]⟩ := rfl
  obtain ⟨behind, inside⟩ := markup_compositional "<a>" ⟨"<a>", [a]⟩ parsed rfl
  obtain ⟨-, -, appended⟩ := behind "b<c>"
  obtain ⟨both, ⟨first, second, stripped, stripped_behind, stripped_both⟩, paintings⟩ :=
    appended ⟨"b<c>", [c]⟩ parsed_behind
  cases stripped.symm.trans (plain_of_parse "<a>" _ parsed)
  cases stripped_behind.symm.trans (plain_of_parse "b<c>" _ parsed_behind)
  have painted : ∃ painting,
      (Painter.paint ⟨table, ⟨[1, 2], []⟩⟩ "<a>").result = .ok painting := by
    -- No more is to be known of the table, and it is costly to unfold.
    generalize table = table
    rw [Painter.result_paint_of_parse _ _ _ parsed, Painter.paintDocument_eq]
    exact ⟨_, rfl⟩
  obtain ⟨painting, painted⟩ := painted
  exact ⟨parsed, both, stripped_both, ⟨painting, painted, paintings _ painting painted⟩,
    (inside rfl rfl).1⟩

end AnsiMarkup
