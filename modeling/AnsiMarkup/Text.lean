/-! Text as a sequence of 16-bit code units. Lengths, indices and cuts count units, so a cut may
leave half of a surrogate pair; it is written as U+FFFD only when text leaves the library. -/

namespace AnsiMarkup

abbrev CodeUnit := UInt16

abbrev Text := List CodeUnit

namespace CodeUnit

def newline : CodeUnit := 10
def carriageReturn : CodeUnit := 13
def space : CodeUnit := 32
def backslash : CodeUnit := 92

def isDigit (u : CodeUnit) : Bool := 48 ≤ u && u ≤ 57

def isHighSurrogate (u : CodeUnit) : Bool := 0xD800 ≤ u && u < 0xDC00

def isLowSurrogate (u : CodeUnit) : Bool := 0xDC00 ≤ u && u < 0xE000

/-- Tab to carriage return, the spaces, the line and paragraph separators and the byte order mark. -/
def isBlank (u : CodeUnit) : Bool :=
  (9 ≤ u && u ≤ 13) || u == 0x20 || u == 0xA0 || u == 0x1680 || (0x2000 ≤ u && u ≤ 0x200A) ||
    u == 0x2028 || u == 0x2029 || u == 0x202F || u == 0x205F || u == 0x3000 || u == 0xFEFF

end CodeUnit

namespace Text

def ofCodePoint (n : Nat) : Text :=
  if n < 0x10000 then [n.toUInt16]
  else [(0xD800 + (n - 0x10000) / 0x400).toUInt16, (0xDC00 + (n - 0x10000) % 0x400).toUInt16]

def ofChar (c : Char) : Text := ofCodePoint c.toNat

def ofString (s : String) : Text := s.toList.flatMap ofChar

instance : Coe String Text := ⟨ofString⟩

def replacement : Char := '\uFFFD'

def loneChar (u : CodeUnit) : Char :=
  if u.isHighSurrogate || u.isLowSurrogate then replacement else Char.ofNat u.toNat

def pairChar (high low : CodeUnit) : Char :=
  Char.ofNat (0x10000 + (high.toNat - 0xD800) * 0x400 + (low.toNat - 0xDC00))

def toChars : Text → List Char
  | [] => []
  | [u] => [loneChar u]
  | u :: v :: rest =>
    if u.isHighSurrogate && v.isLowSurrogate then pairChar u v :: toChars rest
    else loneChar u :: toChars (v :: rest)

def toString (t : Text) : String := String.ofList (toChars t)

def ofNat (n : Nat) : Text := (Nat.toDigits 10 n).flatMap ofChar

def ofInt : Int → Text
  | .ofNat n => ofNat n
  | .negSucc n => "-" ++ ofNat (n + 1)

def digitsValue (t : Text) : Nat := t.foldl (fun n u => n * 10 + (u.toNat - 48)) 0

def clampIndex (length : Nat) (i : Int) : Nat :=
  if i < 0 then (length + i).toNat else min i.toNat length

def sliceFrom (t : Text) (start : Int) : Text := t.drop (clampIndex t.length start)

def slice (t : Text) (start stop : Int) : Text :=
  (t.take (clampIndex t.length stop)).drop (clampIndex t.length start)

def join (sep : Text) (parts : List Text) : Text := sep.intercalate parts

def lastIndexOf (u : CodeUnit) : Text → Option Nat
  | [] => none
  | v :: rest =>
    match lastIndexOf u rest with
    | some i => some (i + 1)
    | none => if v = u then some 0 else none

def endsWith (t : Text) (u : CodeUnit) : Bool := t.getLast? == some u

def trim (t : Text) : Text :=
  ((t.dropWhile CodeUnit.isBlank).reverse.dropWhile CodeUnit.isBlank).reverse

end Text

end AnsiMarkup
