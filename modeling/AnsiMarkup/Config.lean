import AnsiMarkup.Error
import AnsiMarkup.Json.Reading
import AnsiMarkup.Text

namespace AnsiMarkup

namespace Path

def slash : CodeUnit := 47

/-- Adds a segment to those kept, newest first. A parent segment takes away the one before it; where
there is none it stays in a relative path. -/
def addSegment (absolute : Bool) (kept : List Text) (segment : Text) : List Text :=
  if segment = [] ∨ segment = "." then kept
  else if segment = ".." then
    match kept with
    | [] => if absolute then [] else [segment]
    | last :: earlier => if last = ".." then segment :: last :: earlier else earlier
  else segment :: kept

def normalize (path : Text) : Text :=
  let absolute := path.head? = some slash
  let kept := ((path.splitOn slash).foldl (addSegment absolute) []).reverse
  let body := Text.join [slash] kept
  let tail : Text := if path.endsWith slash then [slash] else []
  if absolute then if body = [] then [slash] else slash :: body ++ tail
  else if body = [] then "." ++ tail
  else body ++ tail

def join (parts : List Text) : Text :=
  let joined := Text.join [slash] (parts.filter (· ≠ []))
  if joined = [] then "." else normalize joined

end Path

structure Surroundings where
  home : Text
  windows : Bool
  applicationData : Option Text
  deriving Repr

namespace Surroundings

def configDirectory (s : Surroundings) : Text :=
  if s.windows then
    let base := s.applicationData.getD []
    Path.join [if base = [] then s.home else base, "tintag"]
  else Path.join [s.home, ".config", "tintag"]

def configPath (s : Surroundings) : Text := Path.join [s.configDirectory, "config.json"]

end Surroundings

structure Config where
  styles : List Value
  always : Record Value
  deriving Repr

namespace Config

def empty : Config := ⟨[], []⟩

def isStyle : Value → Bool
  | .text _ | .number _ => true
  | _ => false

def checkStyles (source : Text) (index : Nat) : List Value → Except Error (List Value)
  | [] => .ok []
  | style :: rest =>
    if isStyle style then (checkStyles source (index + 1) rest).map (style :: ·)
    else .error (.configBadStyle source index)

def stylesOf (source : Text) : Value → Except Error (List Value)
  | .absent => .ok []
  | .list items => checkStyles source 0 items
  | _ => .error (.configStylesNotList source)

def checkAlways (source : Text) (always : Record Value) :
    List (Text × Value) → Except Error (Record Value)
  | [] => .ok always
  | (text, style) :: rest =>
    if isStyle style then checkAlways source (Record.assign text style always) rest
    else .error (.configBadAlways source text)

def alwaysOf (source : Text) : Value → Except Error (Record Value)
  | .absent => .ok []
  | .record entries => checkAlways source [] entries
  | .mapping _ => .ok []
  | _ => .error (.configAlwaysNotRecord source)

def ofValue (source : Text) (raw : Value) : Except Error Config :=
  match raw with
  | .record _ | .mapping _ => do
    let styles ← stylesOf source (raw.member "styles")
    let always ← alwaysOf source (raw.member "always")
    .ok ⟨styles, always⟩
  | _ => .error (.configNotRecord source)

/-- The value in a JSON file: null if there is no such file or it is no JSON. -/
def stored (content : Option Text) : Value := (content.bind Json.read?).getD .null

def load (path : Text) (content : Option Text) : Except Error Config :=
  match stored content with
  | .null => .ok empty
  | raw => ofValue path raw

end Config

end AnsiMarkup
