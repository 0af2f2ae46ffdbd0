import AnsiMarkup.Text

/-! Tables with text keys that remember the order in which their keys first came. In a record, keys
that spell a list index come before the others, in ascending order. -/

namespace AnsiMarkup

abbrev Entries (α : Type) := List (Text × α)

namespace Entries

variable {α : Type}

def get? (key : Text) : Entries α → Option α
  | [] => none
  | (k, v) :: rest => if k = key then some v else get? key rest

def contains (entries : Entries α) (key : Text) : Bool := (entries.get? key).isSome

/-- A new key goes last; a known one keeps its place and takes the new value. -/
def put (key : Text) (value : α) : Entries α → Entries α
  | [] => [(key, value)]
  | (k, v) :: rest => if k = key then (k, value) :: rest else (k, v) :: put key value rest

theorem get?_put (key other : Text) (value : α) (entries : Entries α) :
    (put key value entries).get? other = if key = other then some value else entries.get? other := by
  induction entries with
  | nil => simp [put, get?]
  | cons entry rest ih =>
    obtain ⟨first, old⟩ := entry
    by_cases same : first = key
    · subst same
      by_cases found : first = other <;> simp [put, get?, found]
    · by_cases found : first = other
      · subst found
        simp [put, get?, same, Ne.symm same]
      · simp [put, get?, same, found, ih]

def ofList (pairs : List (Text × α)) : Entries α :=
  pairs.foldl (fun entries pair => put pair.1 pair.2 entries) []

end Entries

abbrev Record (α : Type) := Entries α

namespace Record

variable {α : Type}

/-- The list index a key spells: decimal digits without leading zeros, at most 2^32 - 2. -/
def listIndex? (key : Text) : Option Nat :=
  if key ≠ [] ∧ key.all CodeUnit.isDigit ∧ (key.head? ≠ some 48 ∨ key = [48]) ∧ key.length ≤ 10 ∧
      Text.digitsValue key ≤ 4294967294 then
    some (Text.digitsValue key)
  else none

def precedes (key other : Text) : Bool :=
  match listIndex? key, listIndex? other with
  | some i, some j => i < j
  | some _, none => true
  | none, _ => false

def insertNew (key : Text) (value : α) : Record α → Record α
  | [] => [(key, value)]
  | (k, v) :: rest =>
    if precedes key k then (key, value) :: (k, v) :: rest else (k, v) :: insertNew key value rest

def put (key : Text) (value : α) (record : Record α) : Record α :=
  if record.contains key then Entries.put key value record else insertNew key value record

/-- The key that assignment does not create, because every record inherits it. -/
def inheritedKey : Text := "__proto__"

/-- Assignment stores every key but the inherited one, which it changes only where it is stored. -/
def assign (key : Text) (value : α) (record : Record α) : Record α :=
  if key = inheritedKey ∧ !record.contains key then record else put key value record

end Record

end AnsiMarkup
