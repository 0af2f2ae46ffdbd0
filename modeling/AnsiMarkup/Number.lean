import AnsiMarkup.Text

/-! Numbers as exact values: a rational, a zero with a minus sign, an infinity, or no number. What is
computed with them is exact, and then rounded to 53 significant bits. -/

namespace AnsiMarkup

inductive Number
  | nan
  | posInfinity
  | negInfinity
  | negZero
  | finite (value : Rat)
  deriving DecidableEq, Repr

namespace Number

def ofNat (n : Nat) : Number := .finite n

def toRat? : Number → Option Rat
  | .negZero => some 0
  | .finite q => some q
  | _ => none

def toInt? (n : Number) : Option Int :=
  match n.toRat? with
  | some q => if q.den = 1 then some q.num else none
  | none => none

def safeLimit : Nat := 9007199254740992

def toSafeInt? (n : Number) : Option Int :=
  match n.toInt? with
  | some i => if i.natAbs < safeLimit then some i else none
  | none => none

def toIndex? (n : Number) : Option Nat :=
  match n.toInt? with
  | some (.ofNat i) => some i
  | _ => none

theorem toIndex?_ofNat (n : Nat) : (ofNat n).toIndex? = some n := by
  simp [toIndex?, toInt?, toRat?, ofNat]

def truncate (q : Rat) : Int := if q < 0 then q.ceil else q.floor

/-- The remainder of division with a truncated quotient; it has the sign of the dividend. -/
def remainder (q : Rat) (m : Nat) : Rat := q - m * truncate (q / m)

/-- Equality of numbers used as keys: the two zeros are one key. -/
def sameKey (a b : Number) : Bool :=
  a == b || (a.toRat? == some 0 && b.toRat? == some 0)

def neg : Number → Number
  | .nan => .nan
  | .posInfinity => .negInfinity
  | .negInfinity => .posInfinity
  | .negZero => .finite 0
  | .finite q => if q = 0 then .negZero else .finite (-q)

def power (base : Nat) (e : Int) : Rat :=
  match e with
  | .ofNat n => (Nat.pow base n : Nat)
  | .negSucc n => mkRat 1 (Nat.pow base (n + 1))

def roundHalfEven (q : Rat) : Int :=
  let k := q.floor
  let rest := q - k
  if rest < mkRat 1 2 then k else if mkRat 1 2 < rest then k + 1 else k + k % 2

def log2 (q : Rat) : Int :=
  let e : Int := (Nat.log2 q.num.toNat : Int) - (Nat.log2 q.den : Int)
  if power 2 e ≤ q then e else e - 1

/-- The number nearest to a magnitude: 53 bits, no bit below 2^-1074, infinite from 2^1024 on. -/
def ofMagnitude (q : Rat) : Number :=
  if q ≤ 0 then .finite 0
  else
    let e := max (-1074) (log2 q - 52)
    -- The quotient has 53 bits before the point, or fewer where the bits end at 2^-1074.
    let rounded := roundHalfEven (q / power 2 e) * power 2 e
    if rounded < power 2 1024 then .finite rounded else .posInfinity

def ofSigned (negative : Bool) (magnitude : Rat) : Number :=
  if negative then (ofMagnitude magnitude).neg else ofMagnitude magnitude

/-- The number nearest to `digits * 10 ^ exponent`. Exponents so far out that the answer is zero or
infinite are answered without building the power. -/
def ofDecimal (negative : Bool) (digits : Nat) (exponent : Int) : Number :=
  let point := (Nat.toDigits 10 digits).length + exponent
  if digits = 0 ∨ point < -400 then ofSigned negative 0
  else if 400 < point then if negative then .negInfinity else .posInfinity
  else ofSigned negative (digits * power 10 exponent)

def ofIntegerText (t : Text) : Number :=
  match t with
  | 45 :: digits => ofSigned true (Text.digitsValue digits)
  | digits => ofSigned false (Text.digitsValue digits)

def nearest (q : Rat) : Number := if q < 0 then ofSigned true (-q) else ofSigned false q

/-- Opposite infinities have no sum, and zero keeps its minus sign only if both zeros have one. -/
def add (a b : Number) : Number :=
  match a, b with
  | .nan, _ | _, .nan | .posInfinity, .negInfinity | .negInfinity, .posInfinity => .nan
  | .posInfinity, _ | _, .posInfinity => .posInfinity
  | .negInfinity, _ | _, .negInfinity => .negInfinity
  | .negZero, other | other, .negZero => other
  | .finite p, .finite q => nearest (p + q)

def sub (a b : Number) : Number := a.add b.neg

end Number

end AnsiMarkup
