import AnsiMarkup.Number
import AnsiMarkup.Record

namespace AnsiMarkup

inductive Value
  | absent
  | null
  | bool (value : Bool)
  | number (value : Number)
  | integer (value : Int)
  | text (value : Text)
  | list (items : List Value)
  | record (entries : List (Text × Value))
  | mapping (entries : List (Value × Value))
  deriving Repr

namespace Value

def asText? : Value → Option Text
  | .text t => some t
  | _ => none

def asTexts? (items : List Value) : Option (List Text) := items.mapM asText?

def member (value : Value) (key : Text) : Value :=
  match value with
  | .record entries => (Entries.get? key entries).getD .absent
  | _ => .absent

def isTrue : Value → Bool
  | .absent | .null => false
  | .bool b => b
  | .number n => match n with
    | .nan | .negZero => false
    | .finite q => q ≠ 0
    | _ => true
  | .integer i => i ≠ 0
  | .text t => t ≠ []
  | _ => true

end Value

end AnsiMarkup
