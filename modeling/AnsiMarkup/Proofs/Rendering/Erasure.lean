import AnsiMarkup.Proofs.Rendering.Tokens

namespace AnsiMarkup

theorem Markup.kind_unclosed (texts : List Text) (innermost : Text) :
    (unclosed texts innermost).kind = .parse := by
  rw [unclosed_eq]
  rfl

theorem kind_of_parse_eq_error (markup : Text) (error : Error)
    (failed : (parse markup).result = .error error) : error.kind = .parse := by
  rw [parse, Markup.outcome] at failed
  split at failed
  · cases failed
  · cases failed
    exact Markup.kind_unclosed _ _

theorem plain_of_parse (markup : Text) (document : Document)
    (parsed : (parse markup).result = .ok document) :
    (plain markup).result = .ok (document.parts.filterMap Part.unit?) := by
  have closed := fun phrase member => (fresh_of_parse markup document parsed phrase member).closed
  rw [result_plain_of_parse markup document parsed]
  exact strip_eq document closed

namespace Painter.Paints

variable {painter : Painter} {markup : Text} {painting : Painting} {document : Document}
  {styles : List Combination}

theorem erase_output (paints : painter.Paints markup painting document styles) :
    Terminal.erase painting.output = document.parts.filterMap Part.unit? := by
  rw [Terminal.erase, paints.tokens, List.filterMap_map]
  congr 1
  funext part
  exact Part.unit?_token _ part

theorem countSequences_output (paints : painter.Paints markup painting document styles) :
    Terminal.countSequences painting.output = 2 * Phrase.counts document.phrases := by
  rw [Terminal.countSequences, paints.tokens, Document.parts, Part.countP_isSelect_ofForest]

end Painter.Paints

/-- On a table with positive codes, a text painted from markup without escape units holds two
sequences for each phrase, and without them it is the plain text. Whatever the markup, painting it
and taking its plain text report the same on the way. There is no plain text where the markup cannot
be parsed, and nowhere else, and the error is that of the painting. -/
theorem erase_paint (specs : List CategorySpec) (painter : Painter)
    (declared : FlagTable.ofSpecs specs = .ok painter.table)
    (codes : ∀ category ∈ specs, ∀ flag ∈ category.flags, flag.code.IsCode) (markup : Text) :
    (Terminal.escape ∉ markup → ∀ painting, (painter.paint markup).result = .ok painting →
      (plain markup).result = .ok (Terminal.erase painting.output) ∧
      ∃ document, (parse markup).result = .ok document ∧
        Terminal.countSequences painting.output = 2 * Phrase.counts document.phrases) ∧
    (painter.paint markup).diagnostics = (parse markup).diagnostics ∧
    (plain markup).diagnostics = (parse markup).diagnostics ∧
    (∀ error, (plain markup).result = .error error ↔ (parse markup).result = .error error) ∧
    ∀ error, (plain markup).result = .error error →
      error.kind = .parse ∧ (painter.paint markup).result = .error error := by
  have coded := FlagTable.coded_of_ofSpecs specs painter.table declared codes
  have fails (error : Error) :
      (plain markup).result = .error error ↔ (parse markup).result = .error error := by
    cases parsed : (parse markup).result with
    | ok document =>
      rw [plain_of_parse markup document parsed]
      constructor <;> intro absurd <;> cases absurd
    | error cause =>
      rw [plain, Reported.andThen, parsed]
      change Except.error cause = Except.error error ↔ _
      rw [Except.error.injEq, Except.error.injEq]
  refine ⟨?_, rfl, rfl, fails, ?_⟩
  · intro clean painting painted
    obtain ⟨document, styles, paints⟩ := painter.exists_paints coded markup clean painting painted
    rw [plain_of_parse markup document paints.parsed, paints.erase_output]
    exact ⟨rfl, document, paints.parsed, paints.countSequences_output⟩
  · intro error failed
    have unparsed := (fails error).mp failed
    refine ⟨kind_of_parse_eq_error markup error unparsed, ?_⟩
    rw [Painter.paint, Reported.andThen, unparsed]
    rfl

/-- A phrase in another one, and an unmatched marker behind them. -/
theorem erase_paint_nested :
    (∃ painting,
      (Painter.paint ⟨FlagTable.standard, ⟨[1, 2], []⟩⟩ "a<b<c>>>").result = .ok painting ∧
      (plain "a<b<c>>>").result = .ok (Terminal.erase painting.output) ∧
      Terminal.countSequences painting.output = 4) ∧
    (Painter.paint ⟨FlagTable.standard, ⟨[1, 2], []⟩⟩ "a<b<c>>>").diagnostics =
      [⟨7, .offset 7⟩] ∧
    (plain "a<b<c>>>").diagnostics = [⟨7, .offset 7⟩] := by
  have declared := FlagTable.ofSpecs_standardSpecs
  -- No more is to be known of the table, and it is costly to unfold.
  generalize FlagTable.standard = table at declared ⊢
  let inner : Phrase := ⟨"c", 1, some 3, [], false, none, []⟩
  let outer : Phrase := ⟨"b<c>", 1, some 6, [], false, none, [inner]⟩
  have parsed : (parse "a<b<c>>>").result = .ok ⟨"a<b<c>>>", [outer]⟩ := rfl
  have painted : ∃ painting,
      (Painter.paint ⟨table, ⟨[1, 2], []⟩⟩ "a<b<c>>>").result = .ok painting := by
    rw [Painter.result_paint_of_parse _ _ _ parsed, Painter.paintDocument_eq]
    exact ⟨_, rfl⟩
  have clean : Terminal.escape ∉ ("a<b<c>>>" : Text) := by decide
  have reported : (parse "a<b<c>>>").diagnostics = [⟨7, .offset 7⟩] := rfl
  obtain ⟨painting, painted⟩ := painted
  obtain ⟨erased, painting_reports, plain_reports, -⟩ :=
    erase_paint FlagTable.standardSpecs ⟨table, ⟨[1, 2], []⟩⟩ declared
      FlagTable.isCode_standardSpecs "a<b<c>>>"
  obtain ⟨same, document, again, sequences⟩ := erased clean painting painted
  rw [parsed] at again
  cases again
  exact ⟨⟨painting, painted, same, sequences⟩, painting_reports.trans reported,
    plain_reports.trans reported⟩

end AnsiMarkup
