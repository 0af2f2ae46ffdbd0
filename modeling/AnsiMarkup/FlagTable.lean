import AnsiMarkup.Error
import AnsiMarkup.Value.Spelling

/-! Named display flags in ordered categories, and their combinations: integers read as sets of bits.
A negative one is an endless row of ones to the left, so it holds all but finitely many bits. -/

namespace AnsiMarkup

abbrev Combination := Int

namespace Combination

def bit (place : Nat) : Combination := Int.ofNat (1 <<< place)

def holds (c : Combination) (place : Nat) : Bool :=
  match c with
  | .ofNat n => n.testBit place
  | .negSucc n => !n.testBit place

def without (m n : Nat) : Nat := m ^^^ (m &&& n)

def union : Combination → Combination → Combination
  | .ofNat m, .ofNat n => .ofNat (m ||| n)
  | .ofNat m, .negSucc n => .negSucc (without n m)
  | .negSucc m, .ofNat n => .negSucc (without m n)
  | .negSucc m, .negSucc n => .negSucc (m &&& n)

theorem holds_bit (place other : Nat) : (bit place).holds other = decide (place = other) := by
  change (1 <<< place).testBit other = _
  rw [Nat.one_shiftLeft, Nat.testBit_two_pow]

theorem holds_union (a b : Combination) (place : Nat) :
    (a.union b).holds place = (a.holds place || b.holds place) := by
  cases a <;> cases b <;> simp [union, holds, without] <;>
    (generalize Nat.testBit _ place = x; generalize Nat.testBit _ place = y; cases x <;> cases y <;> rfl)

end Combination

structure FlagSpec where
  name : Text
  code : Number
  deriving DecidableEq, Repr

structure CategorySpec where
  name : Text
  flags : List FlagSpec
  deriving DecidableEq, Repr

structure Flag where
  name : Text
  code : Number
  place : Nat
  deriving DecidableEq, Repr

def Flag.bit (flag : Flag) : Combination := Combination.bit flag.place

structure Category where
  name : Text
  flags : List Flag
  deriving DecidableEq, Repr

structure FlagTable where
  categories : List Category
  deriving DecidableEq, Repr

namespace FlagTable

/-- A flag after those declared so far. A repeated name is reported before a repeated code. -/
def declareFlag (seen : List Flag) (spec : FlagSpec) : Except Error Flag :=
  if seen.any (fun flag => flag.name == spec.name) then .error (.duplicateFlag spec.name)
  else if seen.any (fun flag => flag.code.sameKey spec.code) then
    .error (.duplicateCode spec.code spec.name)
  else .ok ⟨spec.name, spec.code, seen.length⟩

def declareFlags (seen : List Flag) : List FlagSpec → Except Error (List Flag)
  | [] => .ok []
  | spec :: rest => do
    let flag ← declareFlag seen spec
    let flags ← declareFlags (seen ++ [flag]) rest
    .ok (flag :: flags)

def declareCategories (seen : List Flag) : List CategorySpec → Except Error (List Category)
  | [] => .ok []
  | spec :: rest => do
    let flags ← declareFlags seen spec.flags
    let categories ← declareCategories (seen ++ flags) rest
    .ok (⟨spec.name, flags⟩ :: categories)

/-- Bits are handed out in the order of declaration. Names and codes may not repeat. -/
def ofSpecs (specs : List CategorySpec) : Except Error FlagTable := do
  let categories ← declareCategories [] specs
  .ok ⟨categories⟩

def flags (table : FlagTable) : List Flag := table.categories.flatMap Category.flags

def limit (table : FlagTable) : Combination := Combination.bit table.flags.length

def bitOf (table : FlagTable) (name : Text) : Except Error Combination :=
  match table.flags.find? (fun flag => flag.name == name) with
  | some flag => .ok flag.bit
  | none => .error (.unknownFlag name)

def codes (table : FlagTable) (c : Combination) : List Number :=
  (table.flags.filter fun flag => c.holds flag.place).map Flag.code

def codeText (table : FlagTable) (c : Combination) : Text :=
  Text.join ";" ((table.codes c).map Number.toText)

def plus : CodeUnit := 43

def parts (expression : Text) : List Text := (expression.splitOn plus).map Text.trim

def unionOf (table : FlagTable) (names : List Text) : Except Error Combination :=
  names.foldlM (fun c name => (table.bitOf name).map c.union) (0 : Combination)

/-- An empty part is reported before an unknown name. -/
def ofExpression (table : FlagTable) (expression : Text) : Except Error Combination :=
  if (parts expression).any (· == []) then .error (.malformedExpression expression)
  else table.unionOf (parts expression)

def ofInteger (table : FlagTable) (value : Value) : Except Error Combination := do
  let c ← value.toInteger
  if 0 ≤ c ∧ c < table.limit then .ok c else .error (.outOfRange value.toText)

def ofStyle (table : FlagTable) (style : Value) : Except Error Combination :=
  match style with
  | .text expression => table.ofExpression expression
  | other => table.ofInteger other

end FlagTable

end AnsiMarkup
