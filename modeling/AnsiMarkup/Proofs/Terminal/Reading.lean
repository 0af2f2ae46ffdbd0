import AnsiMarkup.Terminal
import Mathlib.Data.Finset.Insert
import Mathlib.Data.List.Basic

/-! A text as a terminal reads it: units to display, and sequences that set display codes. -/

namespace AnsiMarkup

namespace Terminal

def semicolon : CodeUnit := 59

def isParameter (u : CodeUnit) : Bool := u.isDigit || u == semicolon

def parameters? : Text → Option Text
  | 27 :: 91 :: rest =>
    if (rest.dropWhile isParameter).head? = some 109 then some (rest.takeWhile isParameter) else none
  | _ => none

inductive Token
  | unit (u : CodeUnit)
  | select (parameters : Text)
  deriving DecidableEq, Repr

namespace Token

def unit? : Token → Option CodeUnit
  | .unit u => some u
  | .select _ => none

def isSelect : Token → Bool
  | .unit _ => false
  | .select _ => true

end Token

/-- The tokens of a text whose first `passed` units belong to a sequence read before. -/
def tokensAfter (passed : Nat) : Text → List Token
  | [] => []
  | u :: rest =>
    match passed with
    | passed + 1 => tokensAfter passed rest
    | 0 =>
      match parameters? (u :: rest) with
      | some parameters => .select parameters :: tokensAfter (parameters.length + 2) rest
      | none => .unit u :: tokensAfter 0 rest

def tokens (text : Text) : List Token := tokensAfter 0 text

def erase (text : Text) : Text := (tokens text).filterMap Token.unit?

def countSequences (text : Text) : Nat := (tokens text).countP Token.isSelect

/-- A parameter that is empty or zero clears the set of active codes, any other is added to it. -/
def setCode (active : Finset Nat) (parameter : Text) : Finset Nat :=
  if parameter = [] ∨ Text.digitsValue parameter = 0 then ∅
  else insert (Text.digitsValue parameter) active

def Token.apply (active : Finset Nat) : Token → Finset Nat
  | .unit _ => active
  | .select parameters => (List.splitOn semicolon parameters).foldl setCode active

def active (read : List Token) : Finset Nat := read.foldl Token.apply ∅

def activeAfter (n : Nat) (text : Text) : Finset Nat := active ((tokens text).take n)

theorem tokensAfter_eq_drop (passed : Nat) (text : Text) :
    tokensAfter passed text = tokens (text.drop passed) := by
  induction text generalizing passed with
  | nil => cases passed <;> rfl
  | cons u rest ih =>
    cases passed with
    | zero => rfl
    | succ passed => exact ih passed

theorem tokens_unit (u : CodeUnit) (rest : Text) (plain : u ≠ escape) :
    tokens (u :: rest) = .unit u :: tokens rest := by
  have none : parameters? (u :: rest) = none := by
    rw [parameters?]
    rintro after same
    exact absurd (List.cons.inj same).1 plain
  rw [tokens, tokensAfter, none]
  rfl

theorem tokens_append (text rest : Text) (plain : escape ∉ text) :
    tokens (text ++ rest) = text.map .unit ++ tokens rest := by
  induction text with
  | nil => rfl
  | cons u text ih =>
    rw [List.mem_cons, not_or] at plain
    rw [List.cons_append, tokens_unit u _ (Ne.symm plain.1), ih plain.2]
    rfl

theorem parameters?_select (parameters rest : Text)
    (allowed : ∀ u ∈ parameters, isParameter u = true) :
    parameters? (select parameters ++ rest) = some parameters := by
  have whole : select parameters ++ rest = 27 :: 91 :: (parameters ++ 109 :: rest) := by
    change 27 :: 91 :: ((parameters ++ [109]) ++ rest) = _
    rw [List.append_assoc]
    rfl
  have letter : isParameter 109 = false := rfl
  rw [whole, parameters?, List.dropWhile_append_of_pos allowed, List.takeWhile_append_of_pos allowed,
    List.dropWhile_cons_of_neg (by simp [letter]), List.takeWhile_cons_of_neg (by simp [letter])]
  simp

theorem tokens_select (parameters rest : Text)
    (allowed : ∀ u ∈ parameters, isParameter u = true) :
    tokens (select parameters ++ rest) = .select parameters :: tokens rest := by
  have found := parameters?_select parameters rest allowed
  have whole : select parameters ++ rest = 27 :: (91 :: parameters ++ [109] ++ rest) := by
    simp only [select, List.cons_append, List.append_assoc]
    rfl
  have length : (91 :: parameters ++ [109]).length = parameters.length + 2 := by simp
  rw [whole] at found ⊢
  rw [tokens, tokensAfter, found]
  simp only
  -- The bracket, the parameters and the letter are passed over.
  rw [tokensAfter_eq_drop, ← length, List.drop_left]

end Terminal

end AnsiMarkup
