import AnsiMarkup.Proofs.Markup.SpecifierLog
import AnsiMarkup.Proofs.Rendering.Serving

namespace AnsiMarkup

def Specifier.integers (text : Text) : List Int := (parts text).map Text.integerValue

namespace Palette

def styleOfInteger? (palette : Palette) (k : Int) : Option Combination :=
  k.toNat?.bind (palette.positional[·]?)

def HasInteger (palette : Palette) (k : Int) : Prop := 0 ≤ k ∧ k < palette.positional.length

instance (palette : Palette) (k : Int) : Decidable (palette.HasInteger k) :=
  inferInstanceAs (Decidable (_ ∧ _))

variable (palette : Palette)

theorem styleOfInteger?_eq_some_iff (k : Int) (style : Combination) :
    palette.styleOfInteger? k = some style ↔
      ∃ i : Nat, k = i ∧ palette.positional[i]? = some style := by
  simp only [styleOfInteger?, Option.bind_eq_some_iff, Int.mem_toNat?]

theorem styleOfInteger?_isSome_iff (k : Int) :
    (palette.styleOfInteger? k).isSome = true ↔ palette.HasInteger k := by
  rw [Option.isSome_iff_exists]
  constructor
  · rintro ⟨style, found⟩
    obtain ⟨i, rfl, slot⟩ := (palette.styleOfInteger?_eq_some_iff k style).mp found
    have bound := (List.getElem?_eq_some_iff.mp slot).1
    exact ⟨Int.natCast_nonneg i, Int.ofNat_lt.mpr bound⟩
  · rintro ⟨natural, bound⟩
    obtain ⟨i, rfl⟩ := Int.eq_ofNat_of_zero_le natural
    have inside : i < palette.positional.length := Int.ofNat_lt.mp bound
    exact ⟨_, (palette.styleOfInteger?_eq_some_iff i _).mpr
      ⟨i, rfl, List.getElem?_eq_getElem inside⟩⟩

/-- The number that an integer is rounded to has the style at the integer itself. -/
theorem slot?_ofIntegerText (small : palette.positional.length ≤ Number.safeLimit) (text : Text) :
    palette.slot? (Number.ofIntegerText text) = palette.styleOfInteger? text.integerValue := by
  refine Option.ext fun style => ?_
  rw [styleOfInteger?_eq_some_iff, slot?, Option.bind_eq_some_iff]
  refine exists_congr fun i => and_congr_left fun slot => ?_
  have bound := (List.getElem?_eq_some_iff.mp slot).1
  exact Number.toIndex?_ofIntegerText text i (lt_of_lt_of_le bound small)

end Palette

/-- How a phrase is resolved whose specifier spells the integers. A style must be at each of them, and
the first without one is refused, by the number that it was read as. -/
structure Phrase.ResolvesBy (phrase : Phrase) (palette : Palette) (served : Nat)
    (integers : List Int) (overridden : Bool) : Prop where
  slots : phrase.arguments.map palette.slot? = integers.map palette.styleOfInteger?
  succeeds : (∃ c, ((Supply.combination phrase).run.run ⟨palette, served⟩).1 = .ok c) ↔
    ∀ k ∈ integers, palette.HasInteger k
  combines : (∀ k ∈ integers, palette.HasInteger k) →
    (Supply.combination phrase).run.run ⟨palette, served⟩ =
      (.ok (Combination.unions (integers.filterMap palette.styleOfInteger? ++
        if overridden then [] else (palette.always.get? phrase.text).toList)), ⟨palette, served⟩)
  refuses : ∀ before k after, integers = before ++ k :: after →
    (∀ other ∈ before, palette.HasInteger other) → ¬palette.HasInteger k →
    ∃ argument, phrase.arguments[before.length]? = some argument ∧
      (Supply.combination phrase).run.run ⟨palette, served⟩ =
        (.error (.slotOutOfRange argument before.length palette.positional.length),
          ⟨palette, served⟩)

section

variable (palette : Palette) (arguments : List Number) (integers : List Int)
  (slots : arguments.map palette.slot? = integers.map palette.styleOfInteger?)

include slots

theorem Palette.filterMap_slot? :
    arguments.filterMap palette.slot? = integers.filterMap palette.styleOfInteger? := by
  calc
    arguments.filterMap palette.slot? = (arguments.map palette.slot?).filterMap id := by
      rw [List.filterMap_map]
      rfl
    _ = (integers.map palette.styleOfInteger?).filterMap id := by rw [slots]
    _ = integers.filterMap palette.styleOfInteger? := by
      rw [List.filterMap_map]
      rfl

theorem Palette.supplied_iff :
    (∀ argument ∈ arguments, (palette.slot? argument).isSome = true) ↔
      ∀ k ∈ integers, palette.HasInteger k := by
  calc
    _ ↔ ∀ slot ∈ arguments.map palette.slot?, slot.isSome = true := List.forall_mem_map.symm
    _ ↔ ∀ slot ∈ integers.map palette.styleOfInteger?, slot.isSome = true := by rw [slots]
    _ ↔ ∀ k ∈ integers, palette.HasInteger k := by
      simp only [List.forall_mem_map, palette.styleOfInteger?_isSome_iff]

end

theorem Phrase.resolvesBy_of_slots (phrase : Phrase) (palette : Palette) (served : Nat)
    (integers : List Int) (specified : phrase.arguments ≠ [])
    (slots : phrase.arguments.map palette.slot? = integers.map palette.styleOfInteger?) :
    phrase.ResolvesBy palette served integers phrase.overrideAlways := by
  have run := Supply.combination_run_of_arguments palette served phrase specified
  have supplied := palette.supplied_iff phrase.arguments integers slots
  refine ⟨slots, ?_, ?_, ?_⟩
  · have other : palette.isSequential phrase = false := by
      simp [Palette.isSequential, specified]
    rw [Supply.combination_succeeds_iff, palette.styleAt_isSome_iff, other, ← supplied]
    simp [palette.slot?_isSome_iff]
  · intro all
    rw [run, Supply.namedCombination_of_supplied palette phrase (supplied.mpr all), Palette.named,
      palette.filterMap_slot? phrase.arguments integers slots]
  · rintro before k after rfl earlier missing
    rw [List.map_append, List.map_cons, List.map_eq_append_iff] at slots
    obtain ⟨front, rest, split, fronts, rests⟩ := slots
    obtain ⟨argument, back, rfl, here, -⟩ := List.map_eq_cons_iff.mp rests
    have length : front.length = before.length := by
      simpa using congrArg List.length fronts
    have absent : palette.slot? argument = none := by
      rw [here, ← Option.not_isSome_iff_eq_none, palette.styleOfInteger?_isSome_iff]
      exact missing
    refine ⟨argument, ?_, ?_⟩
    · rw [split, ← length, List.getElem?_append_right (Nat.le_refl _), Nat.sub_self]
      rfl
    · rw [run, Supply.namedCombination, split,
        Supply.namedStyles_of_missing palette 0 0 front argument back
          ((palette.supplied_iff front before fronts).mpr earlier) absent, length, Nat.zero_add]
      rfl

/-- Only a specifier gives a phrase arguments. A phrase is resolved by the integers that its last
specifier spells, however large they are, and it is overridden if one of its specifiers has the mark. -/
theorem resolvesBy_integers (markup : Text) (document : Document)
    (parsed : (parse markup).result = .ok document) (palette : Palette)
    (small : palette.positional.length ≤ Number.safeLimit) (served : Nat) :
    List.Forall₂
      (fun phrase texts => (phrase.arguments = [] ↔ texts = []) ∧
        ∀ written, texts.getLast? = some written →
          phrase.ResolvesBy palette served (Specifier.integers written)
            (texts.any (·.endsWith Specifier.mark)))
      (Phrase.order document.phrases) (specifierTexts markup) := by
  refine (specified_parse markup document parsed).imp ?_
  intro phrase texts specified
  refine ⟨specified.arguments_eq_nil_iff, ?_⟩
  intro written last
  have arguments := specified.arguments_of_getLast? written last
  have slots : phrase.arguments.map palette.slot? =
      (Specifier.integers written).map palette.styleOfInteger? := by
    rw [arguments, Specifier.integers, List.map_map, List.map_map]
    exact List.map_congr_left fun part _ => palette.slot?_ofIntegerText small part
  have nonempty : phrase.arguments ≠ [] := by
    rw [arguments, ne_eq, List.map_eq_nil_iff]
    exact Specifier.parts_ne_nil written
  rw [← specified.overrideAlways]
  exact phrase.resolvesBy_of_slots palette served _ nonempty slots

/-- The later specifier here spells -0 and 2^64 + 1, and the mark of the earlier one stays. -/
theorem resolvesBy_integers_large :
    let markup : Text := "<1!>-0,18446744073709551617>x>"
    let written : Text := "-0,18446744073709551617"
    let large : Number := .ofIntegerText "18446744073709551617"
    let phrase : Phrase := ⟨"x", 0, some 2, [.ofIntegerText "-0", large], true, none, []⟩
    let palette : Palette := ⟨[1, 2], []⟩
    (parse markup).result = .ok ⟨"<x>", [phrase]⟩ ∧
      palette.positional.length ≤ Number.safeLimit ∧ specifierTexts markup = [[Text.ofString "1!", written]] ∧
      phrase.ResolvesBy palette 0 [0, 18446744073709551617] true ∧
      (Supply.combination phrase).run.run ⟨palette, 0⟩ =
        (.error (.slotOutOfRange large 1 2), ⟨palette, 0⟩) := by
  intro markup written large phrase palette
  have parsed : (parse markup).result = .ok ⟨"<x>", [phrase]⟩ := rfl
  have small : palette.positional.length ≤ Number.safeLimit := by decide
  have texts : specifierTexts markup = [[Text.ofString "1!", written]] := rfl
  have integers : Specifier.integers written = [0, 18446744073709551617] := by decide
  have all := resolvesBy_integers markup _ parsed palette small 0
  have order : Phrase.order [phrase] = [phrase] := rfl
  rw [texts, order] at all
  cases all with
  | cons here _ =>
    have resolves := here.2 written rfl
    rw [integers] at resolves
    refine ⟨parsed, small, texts, resolves, ?_⟩
    obtain ⟨argument, found, run⟩ :=
      resolves.refuses [0] 18446744073709551617 [] rfl (by decide) (by decide)
    cases found
    exact run

end AnsiMarkup
