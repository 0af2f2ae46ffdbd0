import AnsiMarkup.Number
import AnsiMarkup.Text

namespace AnsiMarkup

inductive Marker
  | opening
  | closing
  deriving DecidableEq, Repr

namespace Marker

def toUnit : Marker → CodeUnit
  | .opening => 60
  | .closing => 62

def ofUnit? (u : CodeUnit) : Option Marker :=
  if u = 60 then some .opening else if u = 62 then some .closing else none

theorem ofUnit?_toUnit (m : Marker) : ofUnit? m.toUnit = some m := by
  cases m <;> rfl

theorem toUnit_of_ofUnit? (u : CodeUnit) (m : Marker) (found : ofUnit? u = some m) : m.toUnit = u := by
  unfold ofUnit? at found
  split at found
  · next opening => cases found; exact opening.symm
  · split at found
    · next closing => cases found; exact closing.symm
    · cases found

def toText (m : Marker) : Text := [m.toUnit]

/-- Where a search from a number starts: fractions are dropped, and what is below zero is zero. -/
def searchStart (length : Nat) : Number → Option Nat
  | .nan | .negInfinity | .negZero => some 0
  | .posInfinity => none
  | .finite q =>
    let start := (Number.truncate q).toNat
    if length < start then none else some start

def next? (text : Text) (start : Nat) : Option (Marker × Nat) :=
  let ahead := text.drop start
  match ahead.findSome? ofUnit? with
  | none => none
  | some marker => some (marker, start + ahead.findIdx (fun u => (ofUnit? u).isSome))

end Marker

structure Escaping where
  text : Text
  literal : Bool
  deriving DecidableEq, Repr

/-- One backslash is removed from the end. It made the marker literal unless another stands before it. -/
def Escaping.ofText (preceding : Text) : Escaping :=
  if preceding.endsWith CodeUnit.backslash then
    ⟨preceding.dropLast, !(Text.endsWith preceding.dropLast CodeUnit.backslash)⟩
  else ⟨preceding, false⟩

structure Specifier where
  arguments : List Number
  overrideAlways : Bool
  deriving DecidableEq, Repr

namespace Specifier

def comma : CodeUnit := 44

def mark : CodeUnit := 33

def isInteger : Text → Bool
  | 45 :: digits => digits ≠ [] && digits.all CodeUnit.isDigit
  | digits => digits ≠ [] && digits.all CodeUnit.isDigit

def body (text : Text) : Text := if text.endsWith mark then text.dropLast else text

def ofText? (text : Text) : Option Specifier :=
  let parts := (body text).splitOn comma
  if parts.all isInteger then some ⟨parts.map Number.ofIntegerText, text.endsWith mark⟩ else none

end Specifier

end AnsiMarkup
