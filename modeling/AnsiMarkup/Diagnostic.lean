import AnsiMarkup.Error
import AnsiMarkup.Position

namespace AnsiMarkup

namespace Position

/-- The line of an index among lines that each end with a newline; `line` and `start` are the number
and the start of the first of them. -/
def findLine (line start index : Nat) : List Text → Option Position
  | [] => none
  | first :: rest =>
    if index < start + first.length + 1 then some (.lineColumn line (index - start + 1))
    else findLine (line + 1) (start + first.length + 1) index rest

def locate (text : Text) (index : Number) : Except Error (Option Position) :=
  if text = [] then .ok none
  else
    match index.toIndex? with
    | none => .error (.indexOutOfRange index)
    | some i =>
      if text.length ≤ i then .error (.indexOutOfRange index)
      else
        let lines := List.splitOn CodeUnit.newline text
        if lines.length = 1 then .ok (some (.offset i))
        else
          match findLine 1 0 i lines with
          | some position => .ok (some position)
          | none => .error (.indexInNoLine index)

end Position

/-- A closing marker outside all phrases. It stays in the text, at the index. -/
structure Diagnostic where
  index : Nat
  position : Position
  deriving DecidableEq, Repr

namespace Diagnostic

def kindText : Text := "unmatched-close"

def message (d : Diagnostic) : Text := "Un-escaped '>' character at position " ++ d.position.toText

end Diagnostic

/-- The diagnostics are those met before the end, whether it came with a value or an error. -/
structure Reported (α : Type) where
  diagnostics : List Diagnostic
  result : Except Error α

def Reported.andThen {α β : Type} (reported : Reported α) (next : α → Except Error β) : Reported β :=
  ⟨reported.diagnostics, reported.result.bind next⟩

end AnsiMarkup
