import AnsiMarkup.Number.Shortest
import AnsiMarkup.Text

namespace AnsiMarkup

/-- A text of one line is pointed into by index, a longer one by line and column from one. -/
inductive Position
  | offset (index : Nat)
  | lineColumn (line column : Nat)
  deriving DecidableEq, Repr

def Position.toText : Position → Text
  | .offset index => Text.ofNat index
  | .lineColumn line column => Text.ofNat line ++ ":" ++ Text.ofNat column

namespace Ordinal

/-- The digits spoken first: those before the last full groups of three. -/
def leadingGroup (digits : Text) : Text :=
  digits.take (if digits.length % 3 = 0 then 3 else digits.length % 3)

/-- Eight, eleven and eighteen, and what starts with them, begin with a vowel. -/
def article (digits : Text) : Text :=
  if digits.head? = some 56 ∨ leadingGroup digits = [49, 49] ∨ leadingGroup digits = [49, 56] then "an"
  else "a"

def suffix (n : Number) : Text :=
  match n.toRat? with
  | none => "th"
  | some q =>
    if Number.remainder q 100 < 11 ∨ 13 < Number.remainder q 100 then
      if Number.remainder q 10 = 1 then "st"
      else if Number.remainder q 10 = 2 then "nd"
      else if Number.remainder q 10 = 3 then "rd"
      else "th"
    else "th"

end Ordinal

def ordinal (n : Number) : Text :=
  Ordinal.article n.toText ++ " " ++ n.toText ++ Ordinal.suffix n

end AnsiMarkup
