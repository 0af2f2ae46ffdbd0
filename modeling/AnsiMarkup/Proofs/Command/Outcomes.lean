import AnsiMarkup.Command.Arguments
import AnsiMarkup.Proofs.Rendering.Serving

namespace AnsiMarkup

namespace Job

theorem lift_bind_run {α β : Type} (first : Except Error α) (next : α → Job β) (streams : Streams) :
    ((first : Job α) >>= next).run.run streams =
      match first with
      | .ok value => (next value).run.run streams
      | .error error => (.error error, streams) := by
  rw [bind_run]
  cases first <;> rfl

end Job

theorem Emphasis.apply_line (emphasis : Emphasis) (text : Text) (single : CodeUnit.newline ∉ text) :
    emphasis.apply true (text ++ [CodeUnit.newline]) =
      Terminal.select emphasis.start ++ text ++ Terminal.select emphasis.stop ++ [CodeUnit.newline] ++
        Terminal.select emphasis.start ++ Terminal.select emphasis.stop := by
  have kept : (text.flatMap fun u => if u = CodeUnit.newline then
      Terminal.select emphasis.stop ++ u :: Terminal.select emphasis.start else [u]) = text := by
    calc
      _ = text.flatMap fun u => [u] := by
        apply List.flatMap_congr
        intro u member
        rw [if_neg]
        rintro rfl
        exact single member
      _ = text := List.flatMap_singleton' text
  rw [apply, if_neg (by simp), List.flatMap_append, kept]
  simp

theorem Position.newline_not_mem_toText (position : Position) : CodeUnit.newline ∉ position.toText := by
  have digits (n : Nat) : CodeUnit.newline ∉ Text.ofNat n := Text.not_mem_ofNat n CodeUnit.newline rfl
  cases position with
  | offset index => exact digits index
  | lineColumn line column =>
    rw [toText, List.mem_append, List.mem_append, not_or, not_or]
    exact ⟨⟨digits line, by decide⟩, digits column⟩

theorem Streams.errorRecord_eq (colored : Bool) (message : Text) :
    errorRecord colored message =
      (if colored then ("\x1b[31mError:\x1b[39m" : Text) else "Error:") ++ " " ++ message ++ "\n" := by
  cases colored <;> rfl

namespace Command

theorem warning_eq (colored : Bool) (d : Diagnostic) :
    warning colored d =
      if colored then "\x1b[33mWarning: " ++ d.message ++ "\x1b[39m\n\x1b[33m\x1b[39m"
      else "Warning: " ++ d.message ++ "\n" := by
  cases colored with
  | false => rfl
  | true =>
    have single : CodeUnit.newline ∉ ("Warning: " : Text) ++ d.message := by
      rw [List.mem_append, not_or, Diagnostic.message, List.mem_append, not_or]
      exact ⟨by decide, by decide, d.position.newline_not_mem_toText⟩
    calc
      warning true d
        = ("\x1b[33m" : Text) ++ ("Warning: " ++ d.message) ++ "\x1b[39m" ++ "\n" ++ "\x1b[33m" ++ "\x1b[39m" :=
          Emphasis.apply_line _ _ single
      _ = ("\x1b[33m" : Text) ++ "Warning: " ++ d.message ++ (((("\x1b[39m" : Text) ++ "\n") ++ "\x1b[33m") ++
            "\x1b[39m") := by simp only [List.append_assoc]
      _ = "\x1b[33mWarning: " ++ d.message ++ "\x1b[39m\n\x1b[33m\x1b[39m" := rfl

def warnings (colored : Bool) (diagnostics : List Diagnostic) : Text :=
  diagnostics.flatMap (warning colored)

theorem forM_warn_run (colored : Bool) (diagnostics : List Diagnostic) (streams : Streams) :
    (diagnostics.forM fun d => Job.warn (warning colored d)).run.run streams =
      (.ok (), { streams with err := streams.err ++ warnings colored diagnostics }) := by
  induction diagnostics generalizing streams with
  | nil =>
    rw [warnings, List.flatMap_nil, List.append_nil]
    rfl
  | cons d rest ih =>
    rw [warnings, List.flatMap_cons, ← List.append_assoc]
    exact ih _

theorem heed_run {α : Type} (colored : Bool) (reported : Reported α) (streams : Streams) :
    (heed colored reported).run.run streams =
      (reported.result,
        { streams with err := streams.err ++ warnings colored reported.diagnostics }) := by
  rw [heed, bind_run, forM_warn_run]
  rfl

def ending (colored : Bool) (diagnostics : List Diagnostic) : Except Error Text → Streams
  | .ok result => ⟨line result, warnings colored diagnostics, none⟩
  | .error error =>
    ⟨[], warnings colored diagnostics ++ Streams.errorRecord colored error.message, some 1⟩

namespace RenderRequest

def prepared (request : RenderRequest) (path : Text) (content : Option Text) (input : List Chunk) :
    Except Error (Painter × Text) := do
  let inputs ← request.inputs path content
  let markup ← request.markup input
  let painter ← Painter.ofStyles FlagTable.standard inputs
  .ok (painter, markup)

def answer (request : RenderRequest) (painter : Painter) (markup : Text) : Except Error Text :=
  if request.strip.isTrue then (plain markup).result
  else if request.json.isTrue then
    (painter.paint markup).result.map fun painting =>
      Json.indented (paintingValue painting (parse markup).diagnostics)
  else (painter.paint markup).result.map Painting.output

/-- The diagnostics that are warned of. Those of a painting in JSON are in its text instead. -/
def warned (request : RenderRequest) (markup : Text) : List Diagnostic :=
  if !request.strip.isTrue && request.json.isTrue then [] else (parse markup).diagnostics

theorem write_run (request : RenderRequest) (colored : Bool) (painter : Painter) (markup : Text)
    (streams : Streams) :
    (request.write colored painter markup).run.run streams =
      let err := streams.err ++ warnings colored (request.warned markup)
      match request.answer painter markup with
      | .ok result => (.ok (), { streams with out := streams.out ++ line result, err := err })
      | .error error => (.error error, { streams with err := err }) := by
  cases strip : request.strip.isTrue with
  | true =>
    simp only [write, answer, warned, strip, if_true, Bool.not_true, Bool.false_and,
      Bool.false_eq_true, if_false]
    rw [bind_run, heed_run]
    cases (plain markup).result <;> rfl
  | false =>
    cases json : request.json.isTrue with
    | true =>
      simp only [write, answer, warned, strip, json, if_true, Bool.not_false, Bool.true_and,
        Bool.false_eq_true, if_false]
      rw [Job.lift_bind_run]
      -- The diagnostics are in the answer here, so nothing is warned of.
      rw [warnings, List.flatMap_nil, List.append_nil]
      cases (painter.paint markup).result <;> rfl
    | false =>
      simp only [write, answer, warned, strip, json, Bool.not_false, Bool.true_and,
        Bool.false_eq_true, if_false]
      rw [bind_run, heed_run]
      cases (painter.paint markup).result <;> rfl

theorem job_run (request : RenderRequest) (colored : Bool) (path : Text) (content : Option Text)
    (input : List Chunk) (streams : Streams) :
    (request.job colored path content input).run.run streams =
      match request.prepared path content input with
      | .ok (painter, markup) => (request.write colored painter markup).run.run streams
      | .error error => (.error error, streams) := by
  rw [job, Job.lift_bind_run, prepared]
  cases request.inputs path content with
  | error error => rfl
  | ok inputs =>
    simp only [Job.lift_bind_run]
    cases request.markup input with
    | error error => rfl
    | ok markup =>
      change _ =
        match (Painter.ofStyles FlagTable.standard inputs).bind fun painter => .ok (painter, markup) with
        | .ok (painter, markup) => _
        | .error error => _
      cases Painter.ofStyles FlagTable.standard inputs <;> rfl

variable (request : RenderRequest) {path : Text} {content : Option Text} {input : List Chunk}

theorem run_of_prepared_eq_error {error : Error}
    (failed : request.prepared path content input = .error error) (colored : Bool) :
    request.run colored path content input = ending colored [] (.error error) := by
  rw [run, Job.streams, job_run, failed]
  rfl

theorem run_of_prepared_eq_ok {painter : Painter} {markup : Text}
    (ready : request.prepared path content input = .ok (painter, markup)) (colored : Bool) :
    request.run colored path content input =
      ending colored (request.warned markup) (request.answer painter markup) := by
  rw [run, Job.streams, job_run, ready]
  simp only [write_run]
  cases request.answer painter markup <;> rfl

end RenderRequest

end Command

/-- A rendering request ends in one of two ways. Either its whole answer is the output, on a line of
its own, and only warnings stand beside it; or there is no output, one error stands behind the
warnings, and the status is one. The warnings are those about the diagnostics that the parser
reported, each once and in order, unless the answer was to hold them; there are none if the error
came before. In colors a warning is yellow up to the end of its line, and of an error only the first
word is red. -/
theorem render_whole_or_nothing (colored : Bool) (surroundings : Surroundings)
    (content : Text → Option Text) (input : List Chunk) (request : Command.RenderRequest) :
    let streams := Command.run colored surroundings content input (.render request)
    let path := request.configPath surroundings
    let written (diagnostics : List Diagnostic) : Text := diagnostics.flatMap fun d =>
      if colored then "\x1b[33mWarning: " ++ d.message ++ "\x1b[39m\n\x1b[33m\x1b[39m"
      else "Warning: " ++ d.message ++ "\n"
    let record (error : Error) : Text :=
      (if colored then ("\x1b[31mError:\x1b[39m" : Text) else "Error:") ++ " " ++ error.message ++ "\n"
    (∃ error, request.prepared path (content path) input = .error error ∧
      streams = ⟨[], record error, some 1⟩) ∨
    ∃ painter markup, request.prepared path (content path) input = .ok (painter, markup) ∧
      let warnings := written (request.warned markup)
      ((∃ result, request.answer painter markup = .ok result ∧
          streams = ⟨result ++ "\n", warnings, none⟩) ∨
        ∃ error, request.answer painter markup = .error error ∧
          streams = ⟨[], warnings ++ record error, some 1⟩) := by
  intro streams path written record
  have told (diagnostics : List Diagnostic) : Command.warnings colored diagnostics = written diagnostics :=
    List.flatMap_congr fun d _ => Command.warning_eq colored d
  have recorded (error : Error) : Streams.errorRecord colored error.message = record error :=
    Streams.errorRecord_eq colored error.message
  cases prepared : request.prepared path (content path) input with
  | error error =>
    refine .inl ⟨error, rfl, ?_⟩
    rw [← recorded]
    exact request.run_of_prepared_eq_error prepared colored
  | ok pair =>
    obtain ⟨painter, markup⟩ := pair
    have ends : streams = _ := request.run_of_prepared_eq_ok prepared colored
    refine .inr ⟨painter, markup, rfl, ?_⟩
    rw [← told]
    cases answer : request.answer painter markup with
    | ok result => exact .inl ⟨result, rfl, by rw [ends, answer]; rfl⟩
    | error error => exact .inr ⟨error, rfl, by rw [ends, answer, ← recorded]; rfl⟩

/-- A marker that closes nothing, and a phrase for which there is no style. -/
theorem render_whole_or_nothing_refused :
    let request : Command.RenderRequest :=
      { words := ["a>", "<b>"], config := .absent, style := .absent, always := .absent,
        strip := .absent, json := .absent }
    Command.run true ⟨"/home", false, none⟩ (fun _ => none) [] (.render request) =
      ⟨[], "\x1b[33mWarning: Un-escaped '>' character at position 1\x1b[39m\n\x1b[33m\x1b[39m" ++
        "\x1b[31mError:\x1b[39m Requested a 1st formatting argument for 'b' but only 0 were supplied!\n",
        some 1⟩ := by
  intro request
  have ready : request.prepared (request.configPath ⟨"/home", false, none⟩) none [] =
      .ok (⟨FlagTable.standard, Palette.empty⟩, "a> <b>") := rfl
  have exhausted : request.answer ⟨FlagTable.standard, Palette.empty⟩ "a> <b>" =
      .error (.slotsExhausted 1 "b" 0) := by decide +kernel
  rcases render_whole_or_nothing true ⟨"/home", false, none⟩ (fun _ => none) [] request with
    ⟨error, failed, -⟩ | ⟨painter, markup, prepared, ends⟩
  · rw [ready] at failed
    cases failed
  · rw [ready] at prepared
    cases prepared
    rw [exhausted] at ends
    rcases ends with ⟨result, answered, -⟩ | ⟨error, refused, streams⟩
    · cases answered
    · cases refused
      rw [streams]
      decide +kernel

end AnsiMarkup
