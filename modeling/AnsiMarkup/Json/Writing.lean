import AnsiMarkup.Error
import AnsiMarkup.Value

namespace AnsiMarkup

namespace Json

structure Layout where
  gap : Nat → Text
  colon : Text

def Layout.compact : Layout := ⟨fun _ => [], ":"⟩

def Layout.indented : Layout :=
  ⟨fun depth => CodeUnit.newline :: List.replicate (2 * depth) CodeUnit.space, ": "⟩

def hexDigits (n : Nat) (width : Nat) : Text :=
  let digits := (Nat.toDigits 16 n).flatMap Text.ofChar
  List.replicate (width - digits.length) 48 ++ digits

def escapeUnit (u : CodeUnit) : Text :=
  match u with
  | 34 => "\\\""
  | 92 => "\\\\"
  | 8 => "\\b"
  | 9 => "\\t"
  | 10 => "\\n"
  | 12 => "\\f"
  | 13 => "\\r"
  | _ => if u < 32 then "\\u" ++ hexDigits u.toNat 4 else [u]

def escapeLone (u : CodeUnit) : Text :=
  if u.isHighSurrogate || u.isLowSurrogate then "\\u" ++ hexDigits u.toNat 4 else escapeUnit u

/-- Surrogates stay as they are in pairs and are escaped alone. -/
def escape : Text → Text
  | [] => []
  | [u] => escapeLone u
  | u :: v :: rest =>
    if u.isHighSurrogate && v.isLowSurrogate then u :: v :: escape rest
    else escapeLone u ++ escape (v :: rest)

def quoted (text : Text) : Text := "\"" ++ escape text ++ "\""

def numberText : Number → Text
  | .nan | .posInfinity | .negInfinity => "null"
  | n => n.toText

def enclosed (layout : Layout) (depth : Nat) (left right : Text) (parts : List Text) : Text :=
  if parts = [] then left ++ right
  else
    left ++ layout.gap (depth + 1) ++ Text.join ("," ++ layout.gap (depth + 1)) parts ++
      layout.gap depth ++ right

mutual

/-- The text of a value. What is absent is null in a list and left out of a record. -/
def write (layout : Layout) (depth : Nat) : Value → Text
  | .absent | .null => "null"
  | .bool true => "true"
  | .bool false => "false"
  | .number n => numberText n
  | .integer i => Text.ofInt i
  | .text t => quoted t
  | .list items => enclosed layout depth "[" "]" (writeItems layout (depth + 1) items)
  | .record entries => enclosed layout depth "\x7b" "\x7d" (writeMembers layout (depth + 1) entries)
  | .mapping _ => "\x7b\x7d"

def writeItems (layout : Layout) (depth : Nat) : List Value → List Text
  | [] => []
  | item :: rest => write layout depth item :: writeItems layout depth rest

def writeMembers (layout : Layout) (depth : Nat) : List (Text × Value) → List Text
  | [] => []
  | (_, .absent) :: rest => writeMembers layout depth rest
  | (key, value) :: rest =>
    (quoted key ++ layout.colon ++ write layout depth value) :: writeMembers layout depth rest

end

mutual

def hasInteger : Value → Bool
  | .integer _ => true
  | .list items => itemsHaveInteger items
  | .record entries => membersHaveInteger entries
  | _ => false

def itemsHaveInteger : List Value → Bool
  | [] => false
  | item :: rest => hasInteger item || itemsHaveInteger rest

def membersHaveInteger : List (Text × Value) → Bool
  | [] => false
  | (_, value) :: rest => hasInteger value || membersHaveInteger rest

end

def compact (value : Value) : Except Error Text :=
  if hasInteger value then .error .unwritableInteger else .ok (write Layout.compact 0 value)

def indented (value : Value) : Text := write Layout.indented 0 value

end Json

end AnsiMarkup
