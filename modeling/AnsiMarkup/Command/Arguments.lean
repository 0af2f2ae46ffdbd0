import AnsiMarkup.Command.Listing
import AnsiMarkup.Command.Render

namespace AnsiMarkup

namespace Command

structure Switch where
  short : Option CodeUnit
  long : Text
  shown : Text
  takesValue : Bool
  variadic : Bool
  deriving DecidableEq, Repr

namespace Switch

def version : Switch := ⟨some 86, "--version", "-V, --version", false, false⟩
def config : Switch := ⟨none, "--config", "--config <path>", true, false⟩
def style : Switch := ⟨some 115, "--style", "-s, --style <expr...>", true, true⟩
def always : Switch := ⟨some 97, "--always", "-a, --always <text=expr...>", true, true⟩
def strip : Switch := ⟨none, "--strip", "--strip", false, false⟩
def json : Switch := ⟨none, "--json", "--json", false, false⟩

def dash : CodeUnit := 45

def isShort (switch : Switch) (u : CodeUnit) : Bool := switch.short == some u

def isWritten (switch : Switch) (argument : Text) : Bool :=
  argument == switch.long ||
    match argument with
    | [first, u] => first == dash && switch.isShort u
    | _ => false

end Switch

/-- Arguments of one command, split into operands, settings of known options, and the arguments from
the first unknown option on. Settings are kept newest first. -/
structure Split where
  operands : List Text
  unknown : List Text
  settings : List (Switch × Text)
  active : Option Switch
  missing : Option Switch
  deriving Repr

namespace Split

def start : Split := ⟨[], [], [], none, none⟩

def looksLikeOption (argument : Text) : Bool :=
  argument.head? == some Switch.dash && 1 < argument.length

def set (split : Split) (switch : Switch) (value : Text) : Split :=
  { split with settings := (switch, value) :: split.settings }

/-- After an unknown option all that is not a known one is unknown too. -/
def add (split : Split) (argument : Text) : Split :=
  if split.unknown = [] ∧ !looksLikeOption argument then
    { split with operands := split.operands ++ [argument] }
  else { split with unknown := split.unknown ++ [argument] }

def addRest (split : Split) (arguments : List Text) : Split :=
  if split.unknown = [] then { split with operands := split.operands ++ arguments }
  else { split with unknown := split.unknown ++ ("--" : Text) :: arguments }

def attachedShort? (known : List Switch) (argument : Text) : Option (Switch × Text) :=
  match argument with
  | first :: u :: v :: rest =>
    if first = Switch.dash ∧ u ≠ Switch.dash then
      (known.find? (·.isShort u)).map fun switch => (switch, v :: rest)
    else none
  | _ => none

def attachedLong? (known : List Switch) (argument : Text) : Option (Switch × Text) :=
  let name := argument.takeWhile (· ≠ equals)
  match argument.dropWhile (· ≠ equals) with
  | [] => none
  | _ :: value =>
    if name.length ≤ 2 then none
    else (known.find? fun switch => switch.takesValue && switch.long == name).map fun switch =>
      (switch, value)

def attached? (known : List Switch) (argument : Text) : Option (Switch × Text) :=
  (attachedShort? known argument).or (attachedLong? known argument)

/-- Reads arguments. A value is the next argument, whatever it is; a variadic option takes those after
it as well, up to one that looks like an option. -/
def read (known : List Switch) (split : Split) : List Text → Split
  | [] => split
  | argument :: rest =>
    if argument = "--" then split.addRest rest
    else
      -- What a variadic option has not taken is read as if no option stood before it.
      match split.active, looksLikeOption argument with
      | some switch, false => read known (split.set switch argument) rest
      | _, _ =>
        let split := { split with active := none }
        match known.find? (·.isWritten argument) with
        | some switch =>
          if switch.takesValue then
            match rest with
            | [] => { split with missing := some switch }
            | value :: others =>
              read known
                { split.set switch value with active := if switch.variadic then some switch else none }
                others
          else read known (split.set switch []) rest
        | none =>
          match attached? known argument with
          | some (switch, value) => read known (split.set switch value) rest
          | none => read known (split.add argument) rest

def has (split : Split) (switch : Switch) : Bool := split.settings.any (·.1 == switch)

def values (split : Split) (switch : Switch) : List Text :=
  (split.settings.reverse.filter (·.1 == switch)).map (·.2)

def listValue (split : Split) (switch : Switch) : Value :=
  if split.has switch then .list ((split.values switch).map Value.text) else .absent

end Split

inductive Invocation
  | version
  | usage
  | refused (message : Text)
  | render (request : RenderRequest)
  | flags (json : Bool)
  deriving Repr

namespace Invocation

def missingValue (switch : Switch) : Invocation :=
  .refused ("option '" ++ switch.shown ++ "' argument missing")

def unknownOption (argument : Text) : Invocation :=
  .refused ("unknown option '" ++ argument ++ "'")

def unknownCommand (name : Text) : Invocation := .refused ("unknown command '" ++ name ++ "'")

def checked (split : Split) (invocation : Invocation) : Invocation :=
  match split.missing, split.unknown with
  | some switch, _ => missingValue switch
  | none, argument :: _ => unknownOption argument
  | none, [] => invocation

def ofRender (config : Option Text) (operands unknown : List Text) : Invocation :=
  let split := Split.start.read [.style, .always, .strip, .json] unknown
  checked split <| .render
    { words := operands ++ split.operands
      config := (config.map Value.text).getD .absent
      style := split.listValue .style
      always := split.listValue .always
      strip := .bool (split.has .strip)
      json := .bool (split.has .json) }

def ofFlags (unknown : List Text) : Invocation :=
  let split := Split.start.read [.json] unknown
  checked split (.flags (split.has .json))

/-- The program's own options are taken from all arguments, then the first operand names a command. -/
def ofArguments (arguments : List Text) : Invocation :=
  let split := Split.start.read [.version, .config] arguments
  if split.has .version then .version
  else
    match split.missing, split.operands with
    | some switch, _ => missingValue switch
    | none, name :: operands =>
      if name = "render" then
        ofRender (split.values .config).getLast? operands split.unknown
      else if name = "flags" then ofFlags split.unknown
      else unknownCommand name
    | none, [] => checked split .usage

end Invocation

def versionText : Text := "0.1.0"

def usageText : Text := "Usage: tintag [options] [command]"

def run (colored : Bool) (surroundings : Surroundings) (content : Text → Option Text)
    (input : List Chunk) : Invocation → Streams
  | .version => ⟨line versionText, [], some 0⟩
  | .usage => ⟨[], line usageText, some 1⟩
  | .refused message => ⟨[], line ("error: " ++ message), some 1⟩
  | .render request =>
    let path := request.configPath surroundings
    request.run colored path (content path) input
  | .flags json => listFlags colored json

end Command

end AnsiMarkup
