import AnsiMarkup.Proofs.Command.Outcomes
import AnsiMarkup.Proofs.Json.RoundTrip
import AnsiMarkup.Proofs.Rendering.Erasure

namespace AnsiMarkup

/-- Markup that can be painted has a plain text. Where it cannot, either the plain text fails with
the same error, or an argument is wrong. -/
theorem Painter.paint_plain_cases (painter : Painter) (markup : Text) :
    (∃ painting text, (painter.paint markup).result = .ok painting ∧
      (plain markup).result = .ok text) ∨
    (∃ error text, (painter.paint markup).result = .error error ∧ error.kind = .argument ∧
      (plain markup).result = .ok text) ∨
    ∃ error, (painter.paint markup).result = .error error ∧ (plain markup).result = .error error := by
  cases parsed : (parse markup).result with
  | error error =>
    refine .inr (.inr ⟨error, ?_, ?_⟩)
    · rw [paint, Reported.andThen, parsed]
      rfl
    · rw [plain, Reported.andThen, parsed]
      rfl
  | ok document =>
    have erased := plain_of_parse markup document parsed
    have painted := painter.result_paint_of_parse markup document parsed
    rcases painter.paintDocument_cases document (fresh_of_parse markup document parsed) with
      ⟨styles, -, done⟩ | ⟨before, phrase, after, styles, error, -, -, refuses, failed⟩
    · exact .inl ⟨_, _, painted.trans done, erased⟩
    · exact .inr (.inl ⟨error, _, painted.trans failed, refuses.kind_eq, erased⟩)

namespace Json

theorem read?_indented (value : Value) :
    read? (Command.line (indented value)) = some (reread value) :=
  read?_write .indented Layout.spaced_indented 0 value [CodeUnit.newline]
    (List.all_eq_true.mp rfl)

theorem reread_list (items : List Value) : reread (.list items) = .list (items.map reread) := by
  have each : rereadItems items = items.map reread := by
    induction items with
    | nil => rfl
    | cons item rest ih => rw [rereadItems, ih, List.map_cons]
  rw [reread, each]

end Json

namespace Command

theorem reread_paintingValue (painting : Painting) (diagnostics : List Diagnostic) :
    (Json.reread (paintingValue painting diagnostics)).member "output" = .text painting.output ∧
    (Json.reread (paintingValue painting diagnostics)).member "diagnostics" =
      .list (diagnostics.map fun d => Json.reread (diagnosticValue d)) := by
  constructor
  · rfl
  · calc
      (Json.reread (paintingValue painting diagnostics)).member "diagnostics"
        = Json.reread (.list (diagnostics.map diagnosticValue)) := rfl
      _ = .list ((diagnostics.map diagnosticValue).map Json.reread) := Json.reread_list _
      _ = .list (diagnostics.map fun d => Json.reread (diagnosticValue d)) := by
        rw [List.map_map, Function.comp_def]

theorem reread_diagnosticValue (d : Diagnostic) :
    (Json.reread (diagnosticValue d)).member "message" = .text d.message := rfl

namespace RenderRequest

def asking (request : RenderRequest) (strip json : Value) : RenderRequest :=
  { request with strip := strip, json := json }

/-- Painting fails with an error, after the parser has reported some diagnostics: none if the failure
comes before any work on the markup. -/
inductive Fails (request : RenderRequest) (path : Text) (content : Option Text)
    (input : List Chunk) : List Diagnostic → Error → Prop
  | early (error : Error) (failed : request.prepared path content input = .error error) :
      Fails request path content input [] error
  | late (painter : Painter) (markup : Text) (error : Error)
      (ready : request.prepared path content input = .ok (painter, markup))
      (failed : (painter.paint markup).result = .error error) :
      Fails request path content input (parse markup).diagnostics error

variable (request : RenderRequest) {path : Text} {content : Option Text} {input : List Chunk}
  {painter : Painter} {markup : Text} {set unset : Value}

theorem run_asking_neither (ready : request.prepared path content input = .ok (painter, markup))
    (omitted : unset.isTrue = false) (colored : Bool) :
    (request.asking unset unset).run colored path content input =
      ending colored (parse markup).diagnostics
        ((painter.paint markup).result.map Painting.output) := by
  have ends := (request.asking unset unset).run_of_prepared_eq_ok ready colored
  simpa [answer, warned, asking, omitted] using ends

theorem run_asking_json (ready : request.prepared path content input = .ok (painter, markup))
    (asked : set.isTrue = true) (omitted : unset.isTrue = false) (colored : Bool) :
    (request.asking unset set).run colored path content input =
      ending colored [] ((painter.paint markup).result.map fun painting =>
        Json.indented (paintingValue painting (parse markup).diagnostics)) := by
  have ends := (request.asking unset set).run_of_prepared_eq_ok ready colored
  simpa [answer, warned, asking, asked, omitted] using ends

theorem run_asking_strip (ready : request.prepared path content input = .ok (painter, markup))
    (asked : set.isTrue = true) (json : Value) (colored : Bool) :
    (request.asking set json).run colored path content input =
      ending colored (parse markup).diagnostics (plain markup).result := by
  have ends := (request.asking set json).run_of_prepared_eq_ok ready colored
  simpa [answer, warned, asking, asked] using ends

theorem asking_cases (path : Text) (content : Option Text) (input : List Chunk)
    (asked : set.isTrue = true) (omitted : unset.isTrue = false) (colored : Bool) :
    let run (strip json : Value) := (request.asking strip json).run colored path content input
    (∃ painting text diagnostics, run unset unset = ending colored diagnostics (.ok painting.output) ∧
      run unset set =
        ending colored [] (.ok (Json.indented (paintingValue painting diagnostics))) ∧
      ∀ json, run set json = ending colored diagnostics (.ok text)) ∨
    ∃ diagnostics error, request.Fails path content input diagnostics error ∧
      run unset unset = ending colored diagnostics (.error error) ∧
      run unset set = ending colored [] (.error error) ∧
      ((∀ json, run set json = ending colored diagnostics (.error error)) ∨
        error.kind = .argument ∧
          ∃ text, ∀ json, run set json = ending colored diagnostics (.ok text)) := by
  intro run
  cases prepared : request.prepared path content input with
  | error error =>
    have fails (strip json : Value) : run strip json = ending colored [] (.error error) :=
      (request.asking strip json).run_of_prepared_eq_error prepared colored
    right
    exact ⟨[], error, .early error prepared, fails _ _, fails _ _, .inl fun json => fails _ json⟩
  | ok pair =>
    obtain ⟨painter, markup⟩ := pair
    have painted : run unset unset = _ := request.run_asking_neither prepared omitted colored
    have reported : run unset set = _ := request.run_asking_json prepared asked omitted colored
    have stripped (json : Value) : run set json = _ :=
      request.run_asking_strip prepared asked json colored
    rw [painted, reported]
    simp only [stripped]
    rcases painter.paint_plain_cases markup with ⟨painting, text, paints, erased⟩ |
      ⟨error, text, failed, wrong, erased⟩ | ⟨error, failed, erased⟩
    · left
      rw [paints, erased]
      exact ⟨painting, text, (parse markup).diagnostics, rfl, rfl, fun _ => rfl⟩
    · right
      rw [failed, erased]
      exact ⟨_, error, .late painter markup error prepared failed, rfl, rfl,
        .inr ⟨wrong, text, fun _ => rfl⟩⟩
    · right
      rw [failed, erased]
      exact ⟨_, error, .late painter markup error prepared failed, rfl, rfl, .inl fun _ => rfl⟩

end RenderRequest

end Command

/-- One request in three modes. Both flags together mean the plain text. Painting succeeds with JSON
as without it; then what is read from the JSON holds the output and the messages of all warnings, and
nothing is written beside it. Where painting fails the error is the same and stands alone beside the
JSON, but behind the warnings without it. For plain text nothing changes unless an argument is wrong:
then there still is a plain text, with the same warnings. -/
theorem modes_agree (surroundings : Surroundings) (content : Text → Option Text)
    (input : List Chunk) (request : Command.RenderRequest) (set unset other : Value)
    (asked : set.isTrue = true) (omitted : unset.isTrue = false) :
    let run (strip json : Value) :=
      Command.run false surroundings content input (.render (request.asking strip json))
    let path := request.configPath surroundings
    let painted := run unset unset
    let reported := run unset set
    let stripped := run set unset
    run set other = stripped ∧
    (painted.exit = none ↔ reported.exit = none) ∧
    (painted.exit = none →
      reported.err = [] ∧ stripped.exit = none ∧ stripped.err = painted.err ∧
      ∃ (report : Value) (output : Text) (diagnostics : List Value) (messages : List Text),
        Json.read? reported.out = some report ∧
        report.member "output" = .text output ∧
        report.member "diagnostics" = .list diagnostics ∧
        diagnostics.map (Value.member · "message") = messages.map Value.text ∧
        painted.out = Command.line output ∧
        painted.err = messages.flatMap fun message => Command.line ("Warning: " ++ message)) ∧
    (painted.exit ≠ none → ∃ diagnostics error,
      request.Fails path (content path) input diagnostics error ∧
      let warnings := diagnostics.flatMap fun d => Command.line ("Warning: " ++ d.message)
      let record := Command.line ("Error: " ++ error.message)
      painted = ⟨[], warnings ++ record, some 1⟩ ∧ reported = ⟨[], record, some 1⟩ ∧
      (stripped = painted ∨
        error.kind = .argument ∧ stripped.exit = none ∧ stripped.err = warnings)) := by
  intro run path painted reported stripped
  rcases request.asking_cases path (content path) input asked omitted false with
    ⟨painting, text, diagnostics, paints, reports, strips⟩ |
    ⟨diagnostics, error, fails, paints, reports, strips⟩
  · have painted_eq : painted = _ := paints
    have reported_eq : reported = _ := reports
    have stripped_eq (json : Value) : run set json = _ := strips json
    rw [painted_eq, reported_eq, show stripped = _ from stripped_eq unset]
    refine ⟨stripped_eq other, Iff.rfl, ?_, fun failed => absurd rfl failed⟩
    intro _
    obtain ⟨output, list⟩ := Command.reread_paintingValue painting diagnostics
    refine ⟨rfl, rfl, rfl, _, _, _, diagnostics.map Diagnostic.message, Json.read?_indented _, output,
      list, ?_, rfl, ?_⟩
    · rw [List.map_map, List.map_map]
      exact List.map_congr_left fun d _ => Command.reread_diagnosticValue d
    · rw [List.flatMap_map]
      rfl
  · have painted_eq : painted = _ := paints
    have reported_eq : reported = _ := reports
    rw [painted_eq, reported_eq]
    rcases strips with strips | ⟨wrong, text, strips⟩
    all_goals
      have stripped_eq (json : Value) : run set json = _ := strips json
      rw [show stripped = _ from stripped_eq unset]
      refine ⟨stripped_eq other, Iff.rfl, nofun, ?_⟩
      intro _
    · exact ⟨diagnostics, error, fails, rfl, rfl, .inl rfl⟩
    · exact ⟨diagnostics, error, fails, rfl, rfl, .inr ⟨wrong, rfl, rfl⟩⟩

/-- A bold phrase, and a marker that closes nothing. -/
theorem modes_agree_bold :
    let request : Command.RenderRequest :=
      { words := ["a", "<b>>"], config := .absent, style := .list [.text "bold"], always := .absent,
        strip := .absent, json := .absent }
    let run (strip json : Value) := Command.run false ⟨"/home", false, none⟩ (fun _ => none) []
      (.render (request.asking strip json))
    (Value.bool true).isTrue = true ∧ Value.absent.isTrue = false ∧
    run (.bool true) (.bool true) = run (.bool true) .absent ∧
    (run .absent .absent).exit = none ∧ (run .absent (.bool true)).exit = none ∧
    ∃ report, Json.read? (run .absent (.bool true)).out = some report ∧
      ∃ output, report.member "output" = .text output ∧
        (run .absent .absent).out = Command.line output := by
  intro request run
  obtain ⟨both, same, succeeded, -⟩ := modes_agree ⟨"/home", false, none⟩ (fun _ => none) [] request
    (.bool true) .absent (.bool true) rfl rfl
  have painted : (run .absent .absent).exit = none := by
    decide +kernel
  obtain ⟨-, -, -, report, output, -, -, read, holds, -, -, out, -⟩ := succeeded painted
  exact ⟨rfl, rfl, both, painted, same.mp painted, report, read, output, holds, out⟩

end AnsiMarkup
