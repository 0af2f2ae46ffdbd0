import AnsiMarkup.Number
import AnsiMarkup.Value

namespace AnsiMarkup

namespace Json

inductive Token
  | openList
  | closeList
  | openRecord
  | closeRecord
  | comma
  | colon
  | text (value : Text)
  | scalar (value : Value)
  deriving Repr

def exponent? : Text → Option Int
  | [] => some 0
  | e :: rest =>
    let negative := rest.head? = some 45
    let digits := if negative ∨ rest.head? = some 43 then rest.tail else rest
    if (e = 101 ∨ e = 69) ∧ digits ≠ [] ∧ digits.all CodeUnit.isDigit then
      some (if negative then -(Text.digitsValue digits : Int) else Text.digitsValue digits)
    else none

def fraction? : Text → Option (Text × Text)
  | 46 :: rest =>
    let digits := rest.takeWhile CodeUnit.isDigit
    if digits = [] then none else some (digits, rest.dropWhile CodeUnit.isDigit)
  | rest => some ([], rest)

/-- A number: no plus sign, no leading zero, and a digit on both sides of the point. -/
def number? (word : Text) : Option Number := do
  let negative := word.head? = some 45
  let unsigned := if negative then word.tail else word
  let whole := unsigned.takeWhile CodeUnit.isDigit
  let (fraction, rest) ← fraction? (unsigned.dropWhile CodeUnit.isDigit)
  let exponent ← exponent? rest
  if whole = [] ∨ (whole.head? = some 48 ∧ whole ≠ [48]) then none
  else
    some (Number.ofDecimal negative (Text.digitsValue (whole ++ fraction))
      (exponent - fraction.length))

def wordToken? (word : Text) : Option Token :=
  if word = "null" then some (.scalar .null)
  else if word = "true" then some (.scalar (.bool true))
  else if word = "false" then some (.scalar (.bool false))
  else (number? word).map fun n => .scalar (.number n)

def punctuation? (u : CodeUnit) : Option Token :=
  match u with
  | 91 => some .openList
  | 93 => some .closeList
  | 123 => some .openRecord
  | 125 => some .closeRecord
  | 44 => some .comma
  | 58 => some .colon
  | _ => none

def isSpace (u : CodeUnit) : Bool := u == 32 || u == 9 || u == 10 || u == 13

def quote : CodeUnit := 34

def escaped? (u : CodeUnit) : Option CodeUnit :=
  match u with
  | 34 => some 34
  | 92 => some 92
  | 47 => some 47
  | 98 => some 8
  | 102 => some 12
  | 110 => some 10
  | 114 => some 13
  | 116 => some 9
  | _ => none

def hexDigit? (u : CodeUnit) : Option Nat :=
  if 48 ≤ u ∧ u ≤ 57 then some (u.toNat - 48)
  else if 97 ≤ u ∧ u ≤ 102 then some (u.toNat - 87)
  else if 65 ≤ u ∧ u ≤ 70 then some (u.toNat - 55)
  else none

/-- What the units being read belong to; units read so far are kept newest first. -/
inductive Mode
  | between
  | word (units : Text)
  | string (units : Text)
  | escape (units : Text)
  | hex (units : Text) (digits value : Nat)
  deriving Repr

structure Lexer where
  tokens : List Token
  mode : Mode
  deriving Repr

namespace Lexer

def start (tokens : List Token) (u : CodeUnit) : Lexer :=
  if isSpace u then ⟨tokens, .between⟩
  else if u = quote then ⟨tokens, .string []⟩
  else
    match punctuation? u with
    | some token => ⟨token :: tokens, .between⟩
    | none => ⟨tokens, .word [u]⟩

def endsWord (u : CodeUnit) : Bool := isSpace u || u == quote || (punctuation? u).isSome

def step (lexer : Lexer) (u : CodeUnit) : Option Lexer :=
  match lexer.mode with
  | .between => some (start lexer.tokens u)
  | .word units =>
    if endsWord u then (wordToken? units.reverse).map fun token => start (token :: lexer.tokens) u
    else some { lexer with mode := .word (u :: units) }
  | .string units =>
    if u = quote then some ⟨.text units.reverse :: lexer.tokens, .between⟩
    else if u = CodeUnit.backslash then some { lexer with mode := .escape units }
    else if u < 32 then none
    else some { lexer with mode := .string (u :: units) }
  | .escape units =>
    if u = 117 then some { lexer with mode := .hex units 0 0 }
    else (escaped? u).map fun v => { lexer with mode := .string (v :: units) }
  | .hex units digits value =>
    (hexDigit? u).map fun digit =>
      let value := value * 16 + digit
      if digits = 3 then { lexer with mode := .string (value.toUInt16 :: units) }
      else { lexer with mode := .hex units (digits + 1) value }

def finish (lexer : Lexer) : Option (List Token) :=
  match lexer.mode with
  | .between => some lexer.tokens.reverse
  | .word units => (wordToken? units.reverse).map fun token => (token :: lexer.tokens).reverse
  | _ => none

end Lexer

def tokens? (text : Text) : Option (List Token) :=
  (text.foldlM Lexer.step ⟨[], .between⟩).bind Lexer.finish

end Json

end AnsiMarkup
