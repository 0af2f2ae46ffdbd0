import AnsiMarkup.Text

namespace AnsiMarkup

namespace Utf8

def replacement : CodeUnit := 0xFFFD

def encodeCodePoint (n : Nat) : List UInt8 :=
  if n < 0x80 then [n.toUInt8]
  else if n < 0x800 then [(0xC0 + n / 0x40).toUInt8, (0x80 + n % 0x40).toUInt8]
  else if n < 0x10000 then
    [(0xE0 + n / 0x1000).toUInt8, (0x80 + n / 0x40 % 0x40).toUInt8, (0x80 + n % 0x40).toUInt8]
  else
    [(0xF0 + n / 0x40000).toUInt8, (0x80 + n / 0x1000 % 0x40).toUInt8,
      (0x80 + n / 0x40 % 0x40).toUInt8, (0x80 + n % 0x40).toUInt8]

/-- A lone surrogate is written as U+FFFD. -/
def encode (t : Text) : List UInt8 := (Text.toChars t).flatMap fun c => encodeCodePoint c.toNat

/-- Between characters, or within one: the bytes it still needs, its value so far, and the range of
its next byte. -/
inductive State
  | start
  | within (needed value low high : Nat)
  deriving DecidableEq, Repr

def first (b : Nat) : Text × State :=
  if b < 0x80 then ([b.toUInt16], .start)
  else if 0xC2 ≤ b ∧ b < 0xE0 then ([], .within 1 (b - 0xC0) 0x80 0xBF)
  else if 0xE0 ≤ b ∧ b < 0xF0 then
    ([], .within 2 (b - 0xE0) (if b = 0xE0 then 0xA0 else 0x80) (if b = 0xED then 0x9F else 0xBF))
  else if 0xF0 ≤ b ∧ b < 0xF5 then
    ([], .within 3 (b - 0xF0) (if b = 0xF0 then 0x90 else 0x80) (if b = 0xF4 then 0x8F else 0xBF))
  else ([replacement], .start)

/-- A byte that cannot continue a character ends it, for one replacement, and is read anew. -/
def step (state : State) (b : Nat) : Text × State :=
  match state with
  | .start => first b
  | .within needed value low high =>
    if low ≤ b ∧ b ≤ high then
      let value := value * 0x40 + (b - 0x80)
      if needed = 1 then (Text.ofCodePoint value, .start)
      else ([], .within (needed - 1) value 0x80 0xBF)
    else (replacement :: (first b).1, (first b).2)

def decodeFrom (state : State) : List UInt8 → Text
  | [] => if state = .start then [] else [replacement]
  | b :: rest => (step state b.toNat).1 ++ decodeFrom (step state b.toNat).2 rest

def decode (bytes : List UInt8) : Text := decodeFrom .start bytes

end Utf8

end AnsiMarkup
