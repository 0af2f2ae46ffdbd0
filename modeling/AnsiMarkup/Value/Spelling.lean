import AnsiMarkup.Error
import AnsiMarkup.Value

namespace AnsiMarkup

namespace Value

mutual

def toText : Value → Text
  | .absent => "undefined"
  | .null => "null"
  | .bool true => "true"
  | .bool false => "false"
  | .number n => n.toText
  | .integer i => Text.ofInt i
  | .text t => t
  | .list items => Text.join "," (itemTexts items)
  | .record _ => "[object Object]"
  | .mapping _ => "[object Map]"

/-- The texts of list items; nothing is written for an item that is null or absent. -/
def itemTexts : List Value → List Text
  | [] => []
  | .absent :: rest => [] :: itemTexts rest
  | .null :: rest => [] :: itemTexts rest
  | item :: rest => toText item :: itemTexts rest

end

/-- The key whose entry stands where a record keeps its way to be spelled. -/
def spellingKey : Text := "toString"

mutual

def lacksText : Value → Bool
  | .record entries => Entries.contains entries spellingKey
  | .list items => itemsLackText items
  | _ => false

def itemsLackText : List Value → Bool
  | [] => false
  | item :: rest => lacksText item || itemsLackText rest

end

def spelled (value : Value) : Except Error Text :=
  if value.lacksText then .error .noText else .ok value.toText

def digit? (base : Nat) (u : CodeUnit) : Option Nat :=
  let digit :=
    if u.isDigit then u.toNat - 48
    else if 97 ≤ u ∧ u ≤ 102 then u.toNat - 87
    else if 65 ≤ u ∧ u ≤ 70 then u.toNat - 55
    else base
  if digit < base then some digit else none

def natural? (base : Nat) (digits : Text) : Option Nat :=
  if digits = [] then none
  else digits.foldlM (fun n u => (digit? base u).map (n * base + ·)) 0

/-- An integer literal between blanks: decimal with a sign, or unsigned in base 16, 8 or 2. Blanks
alone are zero. -/
def literal? (t : Text) : Option Int :=
  match Text.trim t with
  | [] => some 0
  | 48 :: 120 :: digits | 48 :: 88 :: digits => (natural? 16 digits).map Int.ofNat
  | 48 :: 111 :: digits | 48 :: 79 :: digits => (natural? 8 digits).map Int.ofNat
  | 48 :: 98 :: digits | 48 :: 66 :: digits => (natural? 2 digits).map Int.ofNat
  | 43 :: digits => (natural? 10 digits).map Int.ofNat
  | 45 :: digits => (natural? 10 digits).map fun n => -(n : Int)
  | digits => (natural? 10 digits).map Int.ofNat

def literal (t : Text) : Except Error Int :=
  match literal? t with
  | some i => .ok i
  | none => .error (.unreadableInteger t)

/-- The integer of a value. Numbers must be safe integers; what is neither number, integer nor truth
value goes by its text. -/
def toInteger (value : Value) : Except Error Int :=
  match value with
  | .absent | .null => .error (.noInteger value.toText)
  | .bool b => .ok (if b then 1 else 0)
  | .number n =>
    match n.toSafeInt? with
    | some i => .ok i
    | none => .error (.notWhole n.toText)
  | .integer i => .ok i
  | .text _ | .list _ | .record _ | .mapping _ => value.spelled.bind literal

end Value

end AnsiMarkup
