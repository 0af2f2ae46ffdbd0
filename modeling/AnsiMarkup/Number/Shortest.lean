import AnsiMarkup.Number

namespace AnsiMarkup

namespace Number

def decimalPoint (q : Rat) : Int :=
  let e : Int := (Nat.toDigits 10 q.num.toNat).length - (Nat.toDigits 10 q.den).length
  if power 10 e ≤ q then e + 1 else e

/-- The two multiples of a step around a magnitude, the nearer first; of equals the even first. -/
def neighbours (scaled : Rat) : List Nat :=
  let low := scaled.floor.toNat
  if roundHalfEven scaled = low then [low, low + 1] else [low + 1, low]

def decimalOf? (q : Rat) (point : Int) (count : Nat) : Option (Nat × Int) :=
  let e := point - count
  (neighbours (q / power 10 e)).findSome? fun (digits : Nat) =>
    if ofMagnitude ((digits : Rat) * power 10 e) = .finite q then some (digits, e) else none

def shortestDecimal (q : Rat) : Nat × Int :=
  let point := decimalPoint q
  ((List.range 17).findSome? fun k => decimalOf? q point (k + 1)).getD
    ((roundHalfEven (q / power 10 (point - 17))).toNat, point - 17)

def zeros (n : Nat) : Text := List.replicate n 48

/-- Digits are written out between 10^-7 and 10^21, with an exponent outside. -/
def decimalText (digits : Text) (point : Int) : Text :=
  let count : Int := digits.length
  if count ≤ point ∧ point ≤ 21 then digits ++ zeros (point - count).toNat
  else if 0 < point ∧ point ≤ 21 then digits.take point.toNat ++ "." ++ digits.drop point.toNat
  else if -6 < point ∧ point ≤ 0 then "0." ++ zeros (-point).toNat ++ digits
  else
    let exponent := if 0 < point then "e+" ++ Text.ofInt (point - 1) else "e" ++ Text.ofInt (point - 1)
    match digits with
    | first :: second :: rest => [first] ++ "." ++ second :: rest ++ exponent
    | _ => digits ++ exponent

def magnitudeText (q : Rat) : Text :=
  let (digits, e) := shortestDecimal q
  let written := Text.ofNat digits
  let kept := (written.reverse.dropWhile (· == 48)).reverse
  decimalText kept (written.length + e)

def toText (n : Number) : Text :=
  match n.toSafeInt? with
  | some i => Text.ofInt i
  | none =>
    match n with
    | .nan => "NaN"
    | .posInfinity => "Infinity"
    | .negInfinity => "-Infinity"
    | .negZero => "0"
    | .finite q => if q < 0 then "-" ++ magnitudeText (-q) else magnitudeText q

end Number

end AnsiMarkup
