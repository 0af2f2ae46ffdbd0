import AnsiMarkup.Proofs.Rendering.Slots

namespace AnsiMarkup

theorem bind_run {σ α β : Type} (first : ExceptT Error (StateM σ) α)
    (next : α → ExceptT Error (StateM σ) β) (state : σ) :
    (first >>= next).run.run state =
      match first.run.run state with
      | (.ok value, after) => (next value).run.run after
      | (.error error, after) => (.error error, after) := by
  rw [ExceptT.run_bind, StateT.run_bind]
  rcases first.run.run state with ⟨result, after⟩
  cases result <;> rfl

theorem get_bind_run {σ α : Type} (next : σ → ExceptT Error (StateM σ) α) (state : σ) :
    (get >>= next).run.run state = (next state).run.run state := rfl

namespace Supply

theorem namedStyles_of_supplied (palette : Palette) (place : Nat) (c : Combination)
    (arguments : List Number)
    (supplied : ∀ argument ∈ arguments, (palette.slot? argument).isSome = true) :
    namedStyles palette.positional place c arguments =
      .ok ((arguments.filterMap palette.slot?).foldl Combination.union c) := by
  induction arguments generalizing place c with
  | nil => rfl
  | cons argument rest ih =>
    rcases List.forall_mem_cons.mp supplied with ⟨here, later⟩
    rcases Option.isSome_iff_exists.mp here with ⟨style, found⟩
    have slot : argument.toIndex?.bind (palette.positional[·]?) = some style := found
    rw [namedStyles, slot, List.filterMap_cons_some found, List.foldl_cons]
    exact ih _ _ later

theorem namedStyles_of_missing (palette : Palette) (place : Nat) (c : Combination)
    (before : List Number) (argument : Number) (after : List Number)
    (supplied : ∀ other ∈ before, (palette.slot? other).isSome = true)
    (missing : palette.slot? argument = none) :
    namedStyles palette.positional place c (before ++ argument :: after) =
      .error (.slotOutOfRange argument (place + before.length) palette.positional.length) := by
  induction before generalizing place c with
  | nil =>
    have slot : argument.toIndex?.bind (palette.positional[·]?) = none := missing
    rw [List.nil_append, namedStyles, slot]
    rfl
  | cons other before ih =>
    rcases List.forall_mem_cons.mp supplied with ⟨here, later⟩
    rcases Option.isSome_iff_exists.mp here with ⟨style, found⟩
    have slot : other.toIndex?.bind (palette.positional[·]?) = some style := found
    rw [List.cons_append, namedStyles, slot]
    refine (ih _ _ later).trans ?_
    rw [List.length_cons, Nat.add_assoc, Nat.add_comm 1]

theorem namedCombination_of_supplied (palette : Palette) (phrase : Phrase)
    (supplied : ∀ argument ∈ phrase.arguments, (palette.slot? argument).isSome = true) :
    namedCombination palette phrase = .ok (Combination.unions (palette.named phrase)) := by
  rw [namedCombination, namedStyles_of_supplied palette 0 0 phrase.arguments supplied,
    Palette.named, Combination.unions_append]
  cases palette.always.get? phrase.text with
  | none => cases phrase.overrideAlways <;> rfl
  | some style => cases phrase.overrideAlways <;> rfl

theorem serve_run (palette : Palette) (served : Nat) (phrase : Phrase) :
    (serve phrase).run.run ⟨palette, served⟩ =
      match palette.positional[served]? with
      | some style => (.ok style, ⟨palette, served + 1⟩)
      | none =>
        (.error (.slotsExhausted (served + 1) phrase.text palette.positional.length),
          ⟨palette, served⟩) := by
  rw [serve, get_bind_run]
  cases slot : palette.positional[served]? with
  | some style => simp only [slot]; rfl
  | none => simp only [slot]; rfl

theorem combination_run_of_arguments (palette : Palette) (served : Nat) (phrase : Phrase)
    (some : phrase.arguments ≠ []) :
    (combination phrase).run.run ⟨palette, served⟩ =
      (namedCombination palette phrase, ⟨palette, served⟩) := by
  rw [combination, get_bind_run, if_pos some]
  rfl

theorem combination_run_of_always (palette : Palette) (served : Nat) (phrase : Phrase)
    (empty : phrase.arguments = []) (style : Combination)
    (always : palette.always.get? phrase.text = some style) :
    (combination phrase).run.run ⟨palette, served⟩ = (.ok style, ⟨palette, served⟩) := by
  rw [combination, get_bind_run, if_neg (by simp [empty])]
  simp only [always]
  rfl

theorem combination_run_of_sequential (palette : Palette) (served : Nat) (phrase : Phrase)
    (sequential : palette.isSequential phrase = true) :
    (combination phrase).run.run ⟨palette, served⟩ = (serve phrase).run.run ⟨palette, served⟩ := by
  rcases (palette.isSequential_iff phrase).mp sequential with ⟨empty, always⟩
  rw [combination, get_bind_run, if_neg (by simp [empty])]
  simp only [always]

theorem combination_run_of_style (palette : Palette) (served : Nat) (phrase : Phrase)
    (style : Combination) (due : palette.styleAt served phrase = some style) :
    (combination phrase).run.run ⟨palette, served⟩ =
      (.ok style, ⟨palette, served + if palette.isSequential phrase then 1 else 0⟩) := by
  by_cases empty : phrase.arguments = []
  · rw [Palette.styleAt, if_pos empty] at due
    cases always : palette.always.get? phrase.text with
    | some own =>
      have other : palette.isSequential phrase = false := by
        simp [Palette.isSequential, Entries.contains, always]
      rw [always, Option.some_or, Option.some_inj] at due
      rw [combination_run_of_always palette served phrase empty own always, other, due]
      rfl
    | none =>
      have sequential : palette.isSequential phrase = true :=
        (palette.isSequential_iff phrase).mpr ⟨empty, always⟩
      rw [always, Option.none_or] at due
      rw [combination_run_of_sequential palette served phrase sequential, serve_run, due, sequential]
      rfl
  · have other : palette.isSequential phrase = false := by
      simp [Palette.isSequential, empty]
    rw [Palette.styleAt, if_neg empty] at due
    split at due
    · next supplied =>
      rw [Option.some_inj] at due
      rw [combination_run_of_arguments palette served phrase empty,
        namedCombination_of_supplied palette phrase (List.all_eq_true.mp supplied), other, due]
      rfl
    · cases due

theorem combination_run_of_none (palette : Palette) (served : Nat) (phrase : Phrase)
    (none : palette.styleAt served phrase = none) :
    ∃ error, palette.Refuses served phrase error ∧
      (combination phrase).run.run ⟨palette, served⟩ = (.error error, ⟨palette, served⟩) := by
  by_cases empty : phrase.arguments = []
  · rw [Palette.styleAt, if_pos empty, Option.or_eq_none_iff] at none
    have sequential : palette.isSequential phrase = true :=
      (palette.isSequential_iff phrase).mpr ⟨empty, none.1⟩
    refine ⟨_, .exhausted sequential (List.getElem?_eq_none_iff.mp none.2), ?_⟩
    rw [combination_run_of_sequential palette served phrase sequential, serve_run, none.2]
  · rw [Palette.styleAt, if_neg empty] at none
    have unsupplied : ∃ argument ∈ phrase.arguments, (palette.slot? argument).isNone = true := by
      simpa using none
    rcases Option.isSome_iff_exists.mp (List.find?_isSome.mpr unsupplied) with ⟨argument, first⟩
    rcases List.find?_eq_some_iff_append.mp first with ⟨missing, before, after, split, earlier⟩
    have supplied : ∀ other ∈ before, (palette.slot? other).isSome = true := by
      intro other member
      simpa using earlier other member
    have none := Option.isNone_iff_eq_none.mp missing
    refine ⟨_, .argument before argument after split ?_ ?_, ?_⟩
    · intro other member
      exact (palette.slot?_isSome_iff other).mp (supplied other member)
    · exact (palette.slot?_eq_none_iff argument).mp none
    · rw [combination_run_of_arguments palette served phrase empty, namedCombination, split,
        namedStyles_of_missing palette 0 0 before argument after supplied none, Nat.zero_add]
      rfl

theorem combination_succeeds_iff (palette : Palette) (served : Nat) (phrase : Phrase) :
    (∃ c, ((combination phrase).run.run ⟨palette, served⟩).1 = .ok c) ↔
      (palette.styleAt served phrase).isSome = true := by
  cases due : palette.styleAt served phrase with
  | none =>
    obtain ⟨error, -, run⟩ := combination_run_of_none palette served phrase due
    simp [run]
  | some style => simp [combination_run_of_style palette served phrase style due]

theorem style_run (table : FlagTable) (phrase : Phrase) (supply : Supply) :
    (style table phrase).run.run supply =
      if phrase.styleCode.isSome then (.error (.styledTwice phrase.text), supply)
      else ((combination phrase).run.run supply).map
        (·.map fun c => { phrase with styleCode := some (table.codeText c) }) id := by
  rw [style]
  cases phrase.styleCode with
  | some code => rfl
  | none =>
    simp only [Option.isSome_none, Bool.false_eq_true, if_false]
    rw [bind_run]
    rcases (combination phrase).run.run supply with ⟨result, left⟩
    cases result <;> rfl

end Supply

end AnsiMarkup
