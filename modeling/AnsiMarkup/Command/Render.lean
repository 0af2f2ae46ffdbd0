import AnsiMarkup.Command.Stream
import AnsiMarkup.Config
import AnsiMarkup.Json.Writing
import AnsiMarkup.Painter

namespace AnsiMarkup

namespace Command

def texts (value : Value) : Except Error (List Text) :=
  let refused : Except Error (List Text) := (Json.compact value).bind fun json => .error (.notTextList json)
  match value with
  | .absent => .ok []
  | .text t => .ok [t]
  | .list items =>
    match Value.asTexts? items with
    | some ts => .ok ts
    | none => refused
  | _ => refused

def equals : CodeUnit := 61

/-- A phrase text and its style around the last equals sign, both of them not empty. -/
def alwaysOption (option : Text) : Except Error (Text × Text) :=
  match option.lastIndexOf equals with
  | none => .error (.badAlwaysOption option)
  | some i =>
    if i = 0 ∨ i + 1 = option.length then .error (.badAlwaysOption option)
    else .ok (option.take i, option.drop (i + 1))

def assignOptions (always : Record Value) : List Text → Except Error (Record Value)
  | [] => .ok always
  | option :: rest => do
    let (text, style) ← alwaysOption option
    assignOptions (Record.assign text (.text style) always) rest

/-- Styles of the configuration come first. An option replaces the configured style of its text. -/
def styleInputs (config : Config) (styles always : List Text) : Except Error (List Value) := do
  let always ← assignOptions config.always always
  .ok (config.styles ++ styles.map Value.text ++ [.record always])

structure RenderRequest where
  words : List Text
  config : Value
  style : Value
  always : Value
  strip : Value
  json : Value
  deriving Repr

namespace RenderRequest

def configPath (request : RenderRequest) (surroundings : Surroundings) : Text :=
  request.config.asText?.getD surroundings.configPath

def inputs (request : RenderRequest) (path : Text) (content : Option Text) :
    Except Error (List Value) := do
  let config ← Config.load path content
  let styles ← texts request.style
  let always ← texts request.always
  styleInputs config styles always

def markup (request : RenderRequest) (input : List Chunk) : Except Error Text :=
  if request.words = [] then Chunk.read input
  else .ok (Text.join [CodeUnit.space] request.words)

end RenderRequest

def warning (colored : Bool) (d : Diagnostic) : Text :=
  Emphasis.yellow.apply colored ("Warning: " ++ d.message ++ [CodeUnit.newline])

def diagnosticValue (d : Diagnostic) : Value :=
  .record [("kind", .text Diagnostic.kindText), ("message", .text d.message),
    ("index", .number (Number.ofNat d.index)), ("position", .text d.position.toText)]

def paintingValue (painting : Painting) (diagnostics : List Diagnostic) : Value :=
  .record [("output", .text painting.output),
    ("sequentialStylesUsed", .number (Number.ofNat painting.served)),
    ("diagnostics", .list (diagnostics.map diagnosticValue))]

def line (text : Text) : Text := text ++ [CodeUnit.newline]

def heed {α : Type} (colored : Bool) (reported : Reported α) : Job α := do
  reported.diagnostics.forM fun d => Job.warn (warning colored d)
  reported.result

namespace RenderRequest

/-- Renders markup with checked styles. Plain text is preferred to JSON where both are asked for; the
JSON of a painting holds its diagnostics. -/
def write (request : RenderRequest) (colored : Bool) (painter : Painter) (markup : Text) : Job Unit :=
  if request.strip.isTrue then do
    let text ← heed colored (plain markup)
    Job.print (line text)
  else if request.json.isTrue then do
    let reported := painter.paint markup
    let painting ← reported.result
    Job.print (line (Json.indented (paintingValue painting reported.diagnostics)))
  else do
    let painting ← heed colored (painter.paint markup)
    Job.print (line painting.output)

def job (request : RenderRequest) (colored : Bool) (path : Text) (content : Option Text)
    (input : List Chunk) : Job Unit := do
  let inputs ← request.inputs path content
  let markup ← request.markup input
  let painter ← Painter.ofStyles FlagTable.standard inputs
  request.write colored painter markup

def run (request : RenderRequest) (colored : Bool) (path : Text) (content : Option Text)
    (input : List Chunk) : Streams := (request.job colored path content input).streams colored

end RenderRequest

end Command

end AnsiMarkup
