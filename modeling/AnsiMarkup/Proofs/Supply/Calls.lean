import AnsiMarkup.FlagTable.Standard
import AnsiMarkup.Proofs.Rendering.Turns
import Mathlib.Logic.Function.Basic

namespace AnsiMarkup

namespace Supply

/-- A call about a phrase, told by its place: for its combination, or for its codes, which it keeps. -/
inductive Call
  | combination (place : Nat)
  | style (table : FlagTable) (place : Nat)

structure Desk where
  phrases : Nat → Phrase
  supply : Supply

inductive Answer
  | combination (c : Combination)
  | codes (text : Text)

namespace Call

def place : Call → Nat
  | .combination place => place
  | .style _ place => place

def answer (style : Combination) : Call → Answer
  | .combination _ => .combination style
  | .style table _ => .codes (table.codeText style)

def Reaches (phrase : Phrase) : Call → Prop
  | .combination _ => True
  | .style _ _ => phrase.styleCode = none

theorem not_reaches (table : FlagTable) (place : Nat) (phrase : Phrase)
    (styled : phrase.styleCode.isSome = true) : ¬(Call.style table place).Reaches phrase := by
  intro bare
  rw [show phrase.styleCode = none from bare] at styled
  cases styled

def perform (desk : Desk) : Call → Except Error Answer × Desk
  | .combination place =>
    let (result, supply) := (Supply.combination (desk.phrases place)).run.run desk.supply
    (result.map .combination, ⟨desk.phrases, supply⟩)
  | .style table place =>
    match (Supply.style table (desk.phrases place)).run.run desk.supply with
    | (.ok styled, supply) =>
      (.ok (.codes (styled.styleCode.getD [])), ⟨Function.update desk.phrases place styled, supply⟩)
    | (.error error, supply) => (.error error, ⟨desk.phrases, supply⟩)

end Call

structure Event where
  call : Call
  before : Desk
  outcome : Except Error Answer
  after : Desk

namespace Event

def ofCall (desk : Desk) (call : Call) : Event :=
  ⟨call, desk, (call.perform desk).1, (call.perform desk).2⟩

def phrase (event : Event) : Phrase := event.before.phrases event.call.place

def inTurn (palette : Palette) (event : Event) : Bool :=
  palette.isSequential event.phrase && event.outcome.isOk

end Event

namespace Desk

def events (desk : Desk) : List Call → List Event
  | [] => []
  | call :: later => .ofCall desk call :: events (Event.ofCall desk call).after later

def afterAll (desk : Desk) : List Call → Desk
  | [] => desk
  | call :: later => afterAll (Event.ofCall desk call).after later

end Desk

/-- The ways in which a call can end when `served` styles have been served in order. -/
inductive Event.Ends (palette : Palette) (served : Nat) (event : Event) : Prop
  | styled (table : FlagTable) (place : Nat) (call : event.call = .style table place)
      (styled : event.phrase.styleCode.isSome = true)
      (outcome : event.outcome = .error (.styledTwice event.phrase.text))
      (unchanged : event.after = event.before)
  | refused (error : Error) (reaches : event.call.Reaches event.phrase)
      (refuses : palette.Refuses served event.phrase error)
      (outcome : event.outcome = .error error) (unchanged : event.after = event.before)
  | answered (style : Combination) (reaches : event.call.Reaches event.phrase)
      (due : palette.styleAt served event.phrase = some style)
      (outcome : event.outcome = .ok (event.call.answer style))
      (supply : event.after.supply =
        ⟨palette, served + if palette.isSequential event.phrase then 1 else 0⟩)

section

variable (desk : Desk) (table : FlagTable) (place : Nat) (supply : Supply)

theorem Event.ofCall_combination (result : Except Error Combination)
    (run : (Supply.combination (desk.phrases place)).run.run desk.supply = (result, supply)) :
    ofCall desk (.combination place) =
      ⟨.combination place, desk, result.map .combination, ⟨desk.phrases, supply⟩⟩ := by
  simp only [ofCall, Call.perform, run]

theorem Event.ofCall_style_error (error : Error)
    (run : (Supply.style table (desk.phrases place)).run.run desk.supply = (.error error, supply)) :
    ofCall desk (.style table place) =
      ⟨.style table place, desk, .error error, ⟨desk.phrases, supply⟩⟩ := by
  simp only [ofCall, Call.perform, run]

theorem Event.ofCall_style_ok (styled : Phrase)
    (run : (Supply.style table (desk.phrases place)).run.run desk.supply = (.ok styled, supply)) :
    ofCall desk (.style table place) =
      ⟨.style table place, desk, .ok (.codes (styled.styleCode.getD [])),
        ⟨Function.update desk.phrases place styled, supply⟩⟩ := by
  simp only [ofCall, Call.perform, run]

end

theorem Event.ends_ofCall (palette : Palette) (served : Nat) (phrases : Nat → Phrase) (call : Call) :
    (ofCall ⟨phrases, palette, served⟩ call).Ends palette served := by
  cases call with
  | combination place =>
    cases due : palette.styleAt served (phrases place) with
    | none =>
      obtain ⟨error, refuses, run⟩ := combination_run_of_none palette served (phrases place) due
      rw [ofCall_combination _ _ _ _ run]
      exact .refused error trivial refuses rfl rfl
    | some style =>
      have run := combination_run_of_style palette served (phrases place) style due
      rw [ofCall_combination _ _ _ _ run]
      exact .answered style trivial due rfl rfl
  | style table place =>
    have run := style_run table (phrases place) ⟨palette, served⟩
    cases styled : (phrases place).styleCode with
    | some code =>
      rw [styled, Option.isSome_some, if_pos rfl] at run
      rw [ofCall_style_error _ _ _ _ _ run]
      exact .styled table place rfl (congrArg Option.isSome styled) rfl rfl
    | none =>
      rw [styled, Option.isSome_none, if_neg Bool.false_ne_true] at run
      cases due : palette.styleAt served (phrases place) with
      | none =>
        obtain ⟨error, refuses, refused⟩ := combination_run_of_none palette served (phrases place) due
        rw [refused] at run
        rw [ofCall_style_error _ _ _ _ _ run]
        exact .refused error styled refuses rfl rfl
      | some style =>
        rw [combination_run_of_style palette served (phrases place) style due] at run
        rw [ofCall_style_ok _ _ _ _ _ run]
        exact .answered style styled due rfl rfl

namespace Event

variable {palette : Palette} {served : Nat} {event : Event}

theorem inTurn_of_error (error : Error) (failed : event.outcome = .error error) :
    event.inTurn palette = false := by
  rw [inTurn, failed]
  exact Bool.and_false _

theorem Ends.supply_after (ends : event.Ends palette served)
    (before : event.before.supply = ⟨palette, served⟩) :
    event.after.supply = ⟨palette, served + if event.inTurn palette then 1 else 0⟩ := by
  cases ends with
  | styled table place call styled outcome unchanged =>
    rw [unchanged, before, inTurn_of_error _ outcome]
    rfl
  | refused error reaches refuses outcome unchanged =>
    rw [unchanged, before, inTurn_of_error _ outcome]
    rfl
  | answered style reaches due outcome supply =>
    have same : event.inTurn palette = palette.isSequential event.phrase := by
      rw [inTurn, outcome]
      exact Bool.and_true _
    rw [supply, same]

theorem Ends.answer_of_inTurn (ends : event.Ends palette served)
    (turn : event.inTurn palette = true) :
    ∃ style, palette.positional[served]? = some style ∧
      event.outcome = .ok (event.call.answer style) := by
  cases ends with
  | styled table place call styled outcome unchanged =>
    rw [inTurn_of_error _ outcome] at turn
    cases turn
  | refused error reaches refuses outcome unchanged =>
    rw [inTurn_of_error _ outcome] at turn
    cases turn
  | answered style reaches due outcome supply =>
    rw [inTurn, Bool.and_eq_true] at turn
    rw [palette.styleAt_of_isSequential served event.phrase turn.1] at due
    exact ⟨style, due, outcome⟩

theorem Ends.outcome_of_styled (ends : event.Ends palette served)
    (held : ¬event.call.Reaches event.phrase) :
    event.outcome = .error (.styledTwice event.phrase.text) := by
  cases ends with
  | styled table place call styled outcome unchanged => exact outcome
  | refused error reaches refuses outcome unchanged => exact absurd reaches held
  | answered style reaches due outcome supply => exact absurd reaches held

theorem Ends.outcome_of_reaches (ends : event.Ends palette served)
    (reaches : event.call.Reaches event.phrase) :
    (∃ error, palette.Refuses served event.phrase error ∧ event.outcome = .error error) ∨
      ∃ style, palette.styleAt served event.phrase = some style ∧
        event.outcome = .ok (event.call.answer style) ∧ event.after.supply =
          ⟨palette, served + if palette.isSequential event.phrase then 1 else 0⟩ := by
  cases ends with
  | styled table place call styled outcome unchanged =>
    rw [call] at reaches
    exact absurd reaches (Call.not_reaches table place event.phrase styled)
  | refused error reaches refuses outcome unchanged => exact .inl ⟨error, refuses, outcome⟩
  | answered style reaches due outcome supply => exact .inr ⟨style, due, outcome, supply⟩

theorem Ends.answer_of_possible (ends : event.Ends palette served)
    (reaches : event.call.Reaches event.phrase)
    (possible : (palette.styleAt served event.phrase).isSome = true) :
    ∃ style, palette.styleAt served event.phrase = some style ∧
      event.outcome = .ok (event.call.answer style) ∧ event.after.supply =
        ⟨palette, served + if palette.isSequential event.phrase then 1 else 0⟩ := by
  rcases ends.outcome_of_reaches reaches with ⟨error, refuses, -⟩ | answered
  · rw [refuses.styleAt_eq_none] at possible
    cases possible
  · exact answered

theorem Ends.unchanged (ends : event.Ends palette served) (error : Error)
    (failed : event.outcome = .error error) : event.after = event.before := by
  cases ends with
  | styled table place call styled outcome unchanged => exact unchanged
  | refused error reaches refuses outcome unchanged => exact unchanged
  | answered style reaches due outcome supply =>
    rw [outcome] at failed
    cases failed

end Event

namespace Desk

variable {palette : Palette} {served : Nat}

theorem ends_of_mem_events (desk : Desk) (supply : desk.supply = ⟨palette, served⟩)
    (calls : List Call) (earlier : List Event) (event : Event) (later : List Event)
    (split : desk.events calls = earlier ++ event :: later) :
    event.before.supply = ⟨palette, served + earlier.countP (·.inTurn palette)⟩ ∧
      event.Ends palette (served + earlier.countP (·.inTurn palette)) := by
  -- By the first call: it leaves a supply that counts it if it was answered in turn.
  induction calls generalizing desk served earlier with
  | nil => simp [events] at split
  | cons call calls ih =>
    obtain ⟨phrases, _⟩ := desk
    cases supply
    have ends := Event.ends_ofCall palette served phrases call
    cases earlier with
    | nil =>
      cases split
      exact ⟨rfl, ends⟩
    | cons first earlier =>
      obtain ⟨rfl, rest⟩ := List.cons_eq_cons.mp split
      have later := ih _ (ends.supply_after rfl) earlier rest
      rw [List.countP_cons, Nat.add_comm (List.countP _ _), ← Nat.add_assoc]
      exact later

theorem supply_afterAll (desk : Desk) (supply : desk.supply = ⟨palette, served⟩) (calls : List Call)
    (bound : served ≤ palette.positional.length) :
    (desk.afterAll calls).supply =
        ⟨palette, served + (desk.events calls).countP (·.inTurn palette)⟩ ∧
      served + (desk.events calls).countP (·.inTurn palette) ≤ palette.positional.length := by
  induction calls generalizing desk served with
  | nil => exact ⟨supply, bound⟩
  | cons call calls ih =>
    obtain ⟨phrases, _⟩ := desk
    cases supply
    have ends := Event.ends_ofCall palette served phrases call
    have room : (served + if (Event.ofCall ⟨phrases, palette, served⟩ call).inTurn palette then 1
        else 0) ≤ palette.positional.length := by
      split
      · next turn =>
        obtain ⟨style, slot, -⟩ := ends.answer_of_inTurn turn
        exact (List.getElem?_eq_some_iff.mp slot).1
      · exact bound
    have later := ih _ (ends.supply_after rfl) room
    rw [events, afterAll, List.countP_cons, Nat.add_comm (List.countP _ _), ← Nat.add_assoc]
    exact later

end Desk

end Supply

/-- Whatever calls are made, in whatever order, a supply counts those that were answered in turn, and the
call before which there were `turns` of them gets the positional style `turns` if it is answered in
turn itself, as every call for a next style is while one is left. A call that fails changes nothing,
nor is a phrase given codes twice. Once as many calls were answered in turn as there are positional
styles, all later ones for a next style fail alike, and the others are answered as before. -/
theorem served_in_turn (palette : Palette) (phrases : Nat → Phrase) (calls : List Supply.Call) :
    let start : Supply.Desk := ⟨phrases, .ofPalette palette⟩
    let inTurn := Supply.Event.inTurn palette
    let limit := palette.positional.length
    (start.afterAll calls).supply = ⟨palette, (start.events calls).countP inTurn⟩ ∧
    (start.events calls).countP inTurn ≤ limit ∧
    ∀ (earlier : List Supply.Event) (event : Supply.Event) (later : List Supply.Event),
      start.events calls = earlier ++ event :: later →
      let turns := earlier.countP inTurn
      event.before.supply = ⟨palette, turns⟩ ∧
      (inTurn event = true →
        ∃ style, palette.positional[turns]? = some style ∧
          event.outcome = .ok (event.call.answer style)) ∧
      (∀ error, event.outcome = .error error → event.after = event.before) ∧
      (∀ table place, event.call = .style table place → event.phrase.styleCode.isSome = true →
        event.outcome = .error (.styledTwice event.phrase.text)) ∧
      (event.call.Reaches event.phrase → palette.isSequential event.phrase = true → turns < limit →
        ∃ style, palette.positional[turns]? = some style ∧
          event.outcome = .ok (event.call.answer style) ∧
          event.after.supply = ⟨palette, turns + 1⟩) ∧
      (event.call.Reaches event.phrase → palette.isSequential event.phrase = true →
        ∀ spent, spent <+: earlier → spent.countP inTurn = limit →
          event.outcome = .error (.slotsExhausted (limit + 1) event.phrase.text limit)) ∧
      (event.call.Reaches event.phrase → palette.isSequential event.phrase = false →
        (∀ argument ∈ event.phrase.arguments, palette.Supplies argument) →
          ∃ style, event.outcome = .ok (event.call.answer style) ∧
            event.after.supply = event.before.supply) := by
  intro start inTurn limit
  have whole := start.supply_afterAll rfl calls (Nat.zero_le limit)
  rw [Nat.zero_add] at whole
  refine ⟨whole.1, whole.2, ?_⟩
  intro earlier event later split turns
  have made := start.ends_of_mem_events rfl calls earlier event later split
  rw [Nat.zero_add] at made
  obtain ⟨before, ends⟩ := made
  refine ⟨before, ends.answer_of_inTurn, ends.unchanged, ?_, ?_, ?_, ?_⟩
  · intro table place call styled
    apply ends.outcome_of_styled
    rw [call]
    exact Supply.Call.not_reaches table place event.phrase styled
  · intro reaches sequential left
    have due := palette.styleAt_of_isSequential turns event.phrase sequential
    have possible : (palette.styleAt turns event.phrase).isSome = true := by
      rw [due, List.getElem?_eq_getElem left]
      rfl
    obtain ⟨style, given, outcome, supply⟩ := ends.answer_of_possible reaches possible
    rw [sequential] at supply
    exact ⟨style, due.symm.trans given, outcome, supply⟩
  · intro reaches sequential spent front full
    have enough : limit ≤ turns := by
      rw [← full]
      exact front.sublist.countP_le
    have room : turns ≤ limit := by
      have all := whole.2
      rw [split, List.countP_append] at all
      exact Nat.le_trans (Nat.le_add_right _ _) all
    rcases ends.outcome_of_reaches reaches with ⟨error, refuses, outcome⟩ | ⟨style, due, -, -⟩
    · rw [outcome, refuses.eq_slotsExhausted room sequential]
    · have possible := (palette.styleAt_isSome_iff turns event.phrase).mp (by rw [due]; rfl)
      exact absurd (possible.2 sequential) (Nat.not_lt.mpr enough)
  · intro reaches other supplied
    have possible : (palette.styleAt turns event.phrase).isSome = true :=
      (palette.styleAt_isSome_iff turns event.phrase).mpr ⟨supplied, by simp [other]⟩
    obtain ⟨style, -, outcome, supply⟩ := ends.answer_of_possible reaches possible
    rw [other] at supply
    exact ⟨style, outcome, supply.trans before.symm⟩

/-- A phrase takes both styles, the second one for good, and then finds none. The other phrase names
its style. -/
theorem served_in_turn_twice :
    let palette : Palette := ⟨[1, 2], []⟩
    let next : Phrase := ⟨"a", 0, some 2, [], false, none, []⟩
    let named : Phrase := ⟨"b", 3, some 5, [.finite 0], false, none, []⟩
    let start : Supply.Desk := ⟨fun place => if place = 0 then next else named, .ofPalette palette⟩
    let calls : List Supply.Call := [.combination 0, .style FlagTable.standard 0,
      .style FlagTable.standard 0, .combination 0, .combination 1]
    (start.afterAll calls).supply.served = 2 ∧
    ∃ style, (start.events calls).map Supply.Event.outcome =
      [.ok (.combination 1), .ok (.codes "2"), .error (.styledTwice "a"),
        .error (.slotsExhausted 3 "a" 2), .ok (.combination style)] := by
  intro palette next named start calls
  let first := Supply.Event.ofCall start (.combination 0)
  let second := Supply.Event.ofCall first.after (.style FlagTable.standard 0)
  let third := Supply.Event.ofCall second.after (.style FlagTable.standard 0)
  let fourth := Supply.Event.ofCall third.after (.combination 0)
  let fifth := Supply.Event.ofCall fourth.after (.combination 1)
  have made : start.events calls = [first, second, third, fourth, fifth] := rfl
  obtain ⟨supply, -, each⟩ := served_in_turn palette start.phrases calls
  obtain ⟨-, -, -, -, serves, -⟩ := each [] first [second, third, fourth, fifth] made
  obtain ⟨one, slot, answered, -⟩ := serves trivial rfl (by decide)
  cases slot
  obtain ⟨-, -, -, -, serves, -⟩ := each [first] second [third, fourth, fifth] made
  obtain ⟨two, slot, codes, -⟩ := serves rfl rfl (by decide)
  cases slot
  obtain ⟨-, -, -, styled, -⟩ := each [first, second] third [fourth, fifth] made
  have refused : third.outcome = .error (.styledTwice "a") := styled FlagTable.standard 0 rfl rfl
  obtain ⟨-, -, -, -, -, exhausts, -⟩ := each [first, second, third] fourth [fifth] made
  have exhausted : fourth.outcome = .error (.slotsExhausted 3 "a" 2) :=
    exhausts trivial rfl _ (List.prefix_refl _) rfl
  obtain ⟨-, -, -, -, -, -, others⟩ := each [first, second, third, fourth] fifth [] made
  have supplied : ∀ argument ∈ fifth.phrase.arguments, palette.Supplies argument := by
    simp only [← Palette.slot?_isSome_iff]
    decide
  obtain ⟨style, own, -⟩ := others trivial rfl supplied
  refine ⟨congrArg Supply.served supply, style, ?_⟩
  rw [made, List.map_cons, List.map_cons, List.map_cons, List.map_cons, List.map_cons, List.map_nil,
    answered, codes, refused, exhausted, own]
  rfl

end AnsiMarkup
