import AnsiMarkup.Proofs.Rendering.Service

namespace AnsiMarkup

structure Phrase.Fresh (phrase : Phrase) : Prop where
  closed : phrase.closeIndex.isSome = true
  uncoded : phrase.styleCode = none

namespace Palette

/-- The styles of phrases in a row, when `served` positional styles have been served before. -/
inductive Dresses (palette : Palette) : Nat → List Phrase → List Combination → Prop
  | nil (served : Nat) : Dresses palette served [] []
  | cons (served : Nat) (phrase : Phrase) (rest : List Phrase) (style : Combination)
      (styles : List Combination) (due : palette.styleAt served phrase = some style)
      (later : Dresses palette (served + if palette.isSequential phrase then 1 else 0) rest styles) :
      Dresses palette served (phrase :: rest) (style :: styles)

variable {palette : Palette} {served : Nat} {phrases : List Phrase} {styles : List Combination}

theorem countP_turn (palette : Palette) (served : Nat) (phrase : Phrase) (rest : List Phrase) :
    (served + if palette.isSequential phrase then 1 else 0) + rest.countP palette.isSequential =
      served + (phrase :: rest).countP palette.isSequential := by
  rw [List.countP_cons]
  omega

theorem Dresses.length (dressed : palette.Dresses served phrases styles) :
    styles.length = phrases.length := by
  induction dressed with
  | nil served => rfl
  | cons served phrase rest style styles due later ih => rw [List.length_cons, List.length_cons, ih]

theorem Dresses.styleAt (dressed : palette.Dresses served phrases styles) (before : List Phrase)
    (phrase : Phrase) (after : List Phrase) (split : phrases = before ++ phrase :: after) :
    ∃ style, styles[before.length]? = some style ∧
      palette.styleAt (served + before.countP palette.isSequential) phrase = some style := by
  induction dressed generalizing before with
  | nil served => simp at split
  | cons served first rest style styles due later ih =>
    cases before with
    | nil =>
      cases split
      exact ⟨style, rfl, due⟩
    | cons other before =>
      rcases List.cons_eq_cons.mp split with ⟨rfl, tail⟩
      rw [← countP_turn, List.length_cons, List.getElem?_cons_succ]
      exact ih before tail

theorem Dresses.countP_le (dressed : palette.Dresses served phrases styles)
    (bound : served ≤ palette.positional.length) :
    served + phrases.countP palette.isSequential ≤ palette.positional.length := by
  induction dressed with
  | nil served => exact bound
  | cons served phrase rest style styles due later ih =>
    have possible := (palette.styleAt_isSome_iff served phrase).mp (by rw [due]; rfl)
    have next : (served + if palette.isSequential phrase then 1 else 0) ≤
        palette.positional.length := by
      cases sequential : palette.isSequential phrase with
      | false => exact bound
      | true => exact possible.2 sequential
    rw [← countP_turn]
    exact ih next

theorem Dresses.supplies (dressed : palette.Dresses served phrases styles) :
    ∀ phrase ∈ phrases, ∀ argument ∈ phrase.arguments, palette.Supplies argument := by
  induction dressed with
  | nil served => simp
  | cons served phrase rest style styles due later ih =>
    intro other member
    rcases List.mem_cons.mp member with rfl | member
    · exact ((palette.styleAt_isSome_iff served other).mp (by rw [due]; rfl)).1
    · exact ih other member

variable {phrase : Phrase} {error : Error}

theorem Refuses.styleAt_eq_none (refuses : palette.Refuses served phrase error) :
    palette.styleAt served phrase = none := by
  rw [← Option.not_isSome_iff_eq_none, styleAt_isSome_iff]
  rintro ⟨supplied, room⟩
  cases refuses with
  | argument before argument after split earlier missing =>
    exact missing (supplied argument (by rw [split]; simp))
  | exhausted sequential spent => exact absurd (room sequential) (Nat.not_lt.mpr spent)

theorem Refuses.not_enough {before : List Phrase} (after : List Phrase)
    (refuses : palette.Refuses (before.countP palette.isSequential) phrase error)
    (supplied : ∀ other ∈ before ++ phrase :: after, ∀ argument ∈ other.arguments,
      palette.Supplies argument) :
    ¬(before ++ phrase :: after).countP palette.isSequential ≤ palette.positional.length := by
  intro enough
  have member : phrase ∈ before ++ phrase :: after := List.mem_append_right _ List.mem_cons_self
  have possible : (palette.styleAt (before.countP palette.isSequential) phrase).isSome = true := by
    rw [styleAt_isSome_iff]
    refine ⟨supplied phrase member, ?_⟩
    intro sequential
    rw [List.countP_append, List.countP_cons, if_pos sequential] at enough
    omega
  rw [refuses.styleAt_eq_none] at possible
  cases possible

theorem Refuses.kind_eq (refuses : palette.Refuses served phrase error) :
    error.kind = .argument := by
  cases refuses <;> rfl

theorem Refuses.eq_slotsExhausted (refuses : palette.Refuses served phrase error)
    (bound : served ≤ palette.positional.length) (sequential : palette.isSequential phrase = true) :
    error = .slotsExhausted (palette.positional.length + 1) phrase.text
      palette.positional.length := by
  cases refuses with
  | argument before argument after split earlier missing =>
    rw [((palette.isSequential_iff phrase).mp sequential).1] at split
    simp at split
  | exhausted sequential spent => rw [Nat.le_antisymm bound spent]

/-- Why a phrase without codes is not served: it is open, or there is no style for it. -/
inductive Stops (palette : Palette) (served : Nat) (phrase : Phrase) : Error → Prop
  | unclosed (unclosed : phrase.closeIndex = none) :
      Stops palette served phrase (.renderedUnclosed phrase.text)
  | refused (error : Error) (closed : phrase.closeIndex.isSome = true)
      (refuses : palette.Refuses served phrase error) : Stops palette served phrase error

end Palette

namespace Rendering

theorem serve_of_fresh (table : FlagTable) (supply : Supply) (phrase : Phrase)
    (fresh : phrase.Fresh) :
    serve table supply phrase =
      ((Supply.combination phrase).run.run supply).map (·.map table.codeText) id := by
  rcases Option.isSome_iff_exists.mp fresh.closed with ⟨close, closed⟩
  rw [serve, closed, fresh.uncoded]
  rfl

theorem serveAll_of_uncoded (table : FlagTable) (palette : Palette) (served : Nat)
    (phrases : List Phrase) (uncoded : ∀ phrase ∈ phrases, phrase.styleCode = none) :
    (∃ styles, (∀ phrase ∈ phrases, phrase.closeIndex.isSome = true) ∧
      palette.Dresses served phrases styles ∧
      serveAll table ⟨palette, served⟩ phrases =
        ⟨styles.map table.codeText, none,
          ⟨palette, served + phrases.countP palette.isSequential⟩⟩) ∨
      ∃ before phrase after styles error, phrases = before ++ phrase :: after ∧
        (∀ earlier ∈ before, earlier.closeIndex.isSome = true) ∧
        palette.Dresses served before styles ∧
        palette.Stops (served + before.countP palette.isSequential) phrase error ∧
        serveAll table ⟨palette, served⟩ phrases =
          ⟨styles.map table.codeText, some error,
            ⟨palette, served + before.countP palette.isSequential⟩⟩ := by
  induction phrases generalizing served with
  | nil => exact .inl ⟨[], by simp, .nil served, rfl⟩
  | cons phrase rest ih =>
    obtain ⟨here, later⟩ := List.forall_mem_cons.mp uncoded
    cases closed : phrase.closeIndex with
    | none =>
      refine .inr ⟨[], phrase, rest, [], _, rfl, by simp, .nil served, .unclosed closed, ?_⟩
      rw [serveAll, serve, closed]
      rfl
    | some close =>
      have shut : phrase.closeIndex.isSome = true := by rw [closed]; rfl
      have step := serve_of_fresh table ⟨palette, served⟩ phrase ⟨shut, here⟩
      cases due : palette.styleAt served phrase with
      | none =>
        obtain ⟨error, refuses, run⟩ := Supply.combination_run_of_none palette served phrase due
        refine .inr ⟨[], phrase, rest, [], error, rfl, by simp, .nil served,
          .refused error shut refuses, ?_⟩
        rw [run] at step
        rw [serveAll, step]
        rfl
      | some style =>
        rw [Supply.combination_run_of_style palette served phrase style due] at step
        rcases ih (served + if palette.isSequential phrase then 1 else 0) later with
          ⟨styles, others, dressed, all⟩ |
            ⟨before, other, after, styles, error, rfl, others, dressed, stops, all⟩
        · refine .inl ⟨style :: styles, List.forall_mem_cons.mpr ⟨shut, others⟩,
            .cons served phrase rest style styles due dressed, ?_⟩
          rw [Palette.countP_turn] at all
          rw [serveAll, step]
          simp only [Prod.map, Except.map, id, all, List.map_cons]
        · have split : phrase :: (before ++ other :: after) = (phrase :: before) ++ other :: after :=
            rfl
          rw [Palette.countP_turn] at stops all
          refine .inr ⟨phrase :: before, other, after, style :: styles, error, split,
            List.forall_mem_cons.mpr ⟨shut, others⟩,
            .cons served phrase before style styles due dressed, stops, ?_⟩
          rw [serveAll, step]
          simp only [Prod.map, Except.map, id, all, List.map_cons]

theorem serveAll_of_fresh (table : FlagTable) (palette : Palette) (served : Nat)
    (phrases : List Phrase) (fresh : ∀ phrase ∈ phrases, phrase.Fresh) :
    (∃ styles, palette.Dresses served phrases styles ∧
      serveAll table ⟨palette, served⟩ phrases =
        ⟨styles.map table.codeText, none,
          ⟨palette, served + phrases.countP palette.isSequential⟩⟩) ∨
      ∃ before phrase after styles error, phrases = before ++ phrase :: after ∧
        palette.Dresses served before styles ∧
        palette.Refuses (served + before.countP palette.isSequential) phrase error ∧
        serveAll table ⟨palette, served⟩ phrases =
          ⟨styles.map table.codeText, some error,
            ⟨palette, served + before.countP palette.isSequential⟩⟩ := by
  rcases serveAll_of_uncoded table palette served phrases fun phrase member =>
      (fresh phrase member).uncoded with
    ⟨styles, -, dressed, all⟩ |
      ⟨before, phrase, after, styles, error, split, -, dressed, stops, all⟩
  · exact .inl ⟨styles, dressed, all⟩
  · have closed := (fresh phrase (by rw [split]; simp)).closed
    cases stops with
    | unclosed unclosed =>
      rw [unclosed] at closed
      cases closed
    | refused error shut refuses =>
      exact .inr ⟨before, phrase, after, styles, error, split, dressed, refuses, all⟩

end Rendering

end AnsiMarkup
