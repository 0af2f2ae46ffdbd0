import AnsiMarkup.Proofs.FlagTable.Combinations
import AnsiMarkup.Proofs.Number.Indices
import AnsiMarkup.Supply
import Mathlib.Data.List.Basic

namespace AnsiMarkup

namespace Palette

def slot? (palette : Palette) (argument : Number) : Option Combination :=
  argument.toIndex?.bind (palette.positional[·]?)

def Supplies (palette : Palette) (argument : Number) : Prop :=
  ∃ i : Nat, argument.toInt? = some (i : Int) ∧ i < palette.positional.length

def isSequential (palette : Palette) (phrase : Phrase) : Bool :=
  phrase.arguments.isEmpty && !palette.always.contains phrase.text

def named (palette : Palette) (phrase : Phrase) : List Combination :=
  phrase.arguments.filterMap palette.slot? ++
    if phrase.overrideAlways then [] else (palette.always.get? phrase.text).toList

/-- The style of a phrase that comes when `served` positional styles have been served in order. -/
def styleAt (palette : Palette) (served : Nat) (phrase : Phrase) : Option Combination :=
  if phrase.arguments = [] then
    (palette.always.get? phrase.text).or palette.positional[served]?
  else if phrase.arguments.all fun argument => (palette.slot? argument).isSome then
    some (Combination.unions (palette.named phrase))
  else none

inductive Refuses (palette : Palette) (served : Nat) (phrase : Phrase) : Error → Prop
  | argument (before : List Number) (argument : Number) (after : List Number)
      (split : phrase.arguments = before ++ argument :: after)
      (earlier : ∀ other ∈ before, palette.Supplies other) (missing : ¬palette.Supplies argument) :
      Refuses palette served phrase
        (.slotOutOfRange argument before.length palette.positional.length)
  | exhausted (sequential : palette.isSequential phrase = true)
      (spent : palette.positional.length ≤ served) :
      Refuses palette served phrase
        (.slotsExhausted (served + 1) phrase.text palette.positional.length)

theorem slot?_isSome_iff (palette : Palette) (argument : Number) :
    (palette.slot? argument).isSome = true ↔ palette.Supplies argument := by
  constructor
  · intro present
    rcases Option.isSome_iff_exists.mp present with ⟨style, found⟩
    rcases Option.bind_eq_some_iff.mp found with ⟨i, index, slot⟩
    have bound := (List.getElem?_eq_some_iff.mp slot).1
    exact ⟨i, (Number.toIndex?_eq_some_iff argument i).mp index, bound⟩
  · rintro ⟨i, value, bound⟩
    rw [slot?, (Number.toIndex?_eq_some_iff argument i).mpr value, Option.bind_some,
      List.getElem?_eq_getElem bound]
    rfl

theorem slot?_eq_none_iff (palette : Palette) (argument : Number) :
    palette.slot? argument = none ↔ ¬palette.Supplies argument := by
  rw [← slot?_isSome_iff, Option.not_isSome_iff_eq_none]

theorem isSequential_iff (palette : Palette) (phrase : Phrase) :
    palette.isSequential phrase = true ↔
      phrase.arguments = [] ∧ palette.always.get? phrase.text = none := by
  simp [isSequential, Entries.contains]

theorem styleAt_of_isSequential (palette : Palette) (served : Nat) (phrase : Phrase)
    (sequential : palette.isSequential phrase = true) :
    palette.styleAt served phrase = palette.positional[served]? := by
  obtain ⟨empty, always⟩ := (palette.isSequential_iff phrase).mp sequential
  rw [styleAt, if_pos empty, always, Option.none_or]

theorem styleAt_isSome_iff (palette : Palette) (served : Nat) (phrase : Phrase) :
    (palette.styleAt served phrase).isSome = true ↔
      (∀ argument ∈ phrase.arguments, palette.Supplies argument) ∧
        (palette.isSequential phrase = true → served < palette.positional.length) := by
  rw [styleAt, isSequential_iff]
  by_cases none : phrase.arguments = []
  · cases always : palette.always.get? phrase.text with
    | some style => simp [none]
    | none => simp [none]
  · simp [none, slot?_isSome_iff]

end Palette

end AnsiMarkup
