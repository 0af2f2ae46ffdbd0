import AnsiMarkup.Palette
import AnsiMarkup.Phrase

namespace AnsiMarkup

structure Supply where
  palette : Palette
  served : Nat
  deriving DecidableEq, Repr

/-- Computations on a supply; what they change stays changed when they fail. -/
abbrev Serving := ExceptT Error (StateM Supply)

namespace Supply

def ofPalette (palette : Palette) : Supply := ⟨palette, 0⟩

def namedStyles (positional : List Combination) (place : Nat) (c : Combination) :
    List Number → Except Error Combination
  | [] => .ok c
  | argument :: rest =>
    match argument.toIndex?.bind (positional[·]?) with
    | none => .error (.slotOutOfRange argument place positional.length)
    | some style => namedStyles positional (place + 1) (c.union style) rest

def namedCombination (palette : Palette) (phrase : Phrase) : Except Error Combination := do
  let c ← namedStyles palette.positional 0 0 phrase.arguments
  match palette.always.get? phrase.text with
  | some style => .ok (if phrase.overrideAlways then c else c.union style)
  | none => .ok c

def serve (phrase : Phrase) : Serving Combination := do
  let supply ← get
  let positional := supply.palette.positional
  match positional[supply.served]? with
  | none => throw (.slotsExhausted (supply.served + 1) phrase.text positional.length)
  | some style =>
    set { supply with served := supply.served + 1 }
    pure style

/-- Arguments come first, then the style of the phrase's text, then the next positional style. -/
def combination (phrase : Phrase) : Serving Combination := do
  let supply ← get
  if phrase.arguments ≠ [] then ExceptT.mk (pure (namedCombination supply.palette phrase))
  else
    match supply.palette.always.get? phrase.text with
    | some style => pure style
    | none => serve phrase

def style (table : FlagTable) (phrase : Phrase) : Serving Phrase := do
  if phrase.styleCode.isSome then throw (.styledTwice phrase.text)
  else
    let c ← combination phrase
    pure { phrase with styleCode := some (table.codeText c) }

end Supply

end AnsiMarkup
