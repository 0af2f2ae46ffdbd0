import AnsiMarkup.Proofs.Rendering.Recursion
import AnsiMarkup.Proofs.Rendering.Serving
import AnsiMarkup.Rendering

/-! Rendering split in two: phrases are served in document order, and a forest that has its codes is
displayed. -/

namespace AnsiMarkup

/-- How a row of phrases was served: the codes given in order, what stopped it and what is left. -/
structure Service where
  codes : List Text
  refused : Option Error
  supply : Supply

namespace Service

def andThen (service : Service) (next : Supply → Service) : Service :=
  match service.refused with
  | some _ => service
  | none =>
    ⟨service.codes ++ (next service.supply).codes, (next service.supply).refused,
      (next service.supply).supply⟩

def result (service : Service) (output : Text) : Except Error Text :=
  match service.refused with
  | some error => .error error
  | none => .ok output

end Service

namespace Rendering

def serve (table : FlagTable) (supply : Supply) (phrase : Phrase) : Except Error Text × Supply :=
  if phrase.closeIndex.isNone then (.error (.renderedUnclosed phrase.text), supply)
  else if phrase.styleCode.isSome then (.error (.styledTwice phrase.text), supply)
  else ((Supply.combination phrase).run.run supply).map (·.map table.codeText) id

def serveAll (table : FlagTable) (supply : Supply) : List Phrase → Service
  | [] => ⟨[], none, supply⟩
  | phrase :: rest =>
    match serve table supply phrase with
    | (.ok code, supply) =>
      ⟨code :: (serveAll table supply rest).codes, (serveAll table supply rest).refused,
        (serveAll table supply rest).supply⟩
    | (.error error, supply) => ⟨[], some error, supply⟩

theorem serveAll_append (table : FlagTable) (supply : Supply) (front back : List Phrase) :
    serveAll table supply (front ++ back) =
      (serveAll table supply front).andThen fun left => serveAll table left back := by
  induction front generalizing supply with
  | nil => rfl
  | cons phrase front ih =>
    rw [List.cons_append, serveAll, serveAll]
    rcases serve table supply phrase with ⟨result, left⟩
    cases result with
    | error error => rfl
    | ok code =>
      simp only [ih]
      cases stopped : (serveAll table left front).refused with
      | none => simp [Service.andThen, stopped]
      | some error => simp [Service.andThen, stopped]

theorem length_serveAll (table : FlagTable) (supply : Supply) (phrases : List Phrase)
    (served : (serveAll table supply phrases).refused = none) :
    (serveAll table supply phrases).codes.length = phrases.length := by
  induction phrases generalizing supply with
  | nil => rfl
  | cons phrase rest ih =>
    rcases outcome : serve table supply phrase with ⟨result, left⟩
    simp only [serveAll, outcome] at served ⊢
    cases result with
    | error error => cases served
    | ok code => rw [List.length_cons, List.length_cons, ih left served]

theorem enter_run (table : FlagTable) (phrase : Phrase) (close : Int)
    (closed : phrase.closeIndex = some close) (progress : Progress) :
    (enter table phrase).run.run progress =
      match serve table progress.supply phrase with
      | (.ok code, supply) =>
        (.ok { phrase with styleCode := some code }, ⟨supply, code :: progress.codes⟩)
      | (.error error, supply) => (.error error, ⟨supply, progress.codes⟩) := by
  rw [enter, ExceptT.run_mk, StateT.run]
  rw [Supply.style_run, serve, closed]
  cases phrase.styleCode with
  | some code => rfl
  | none =>
    simp only [Option.isSome_none, Option.isNone_some, Bool.false_eq_true, if_false]
    rcases (Supply.combination phrase).run.run progress.supply with ⟨result, left⟩
    cases result <;> rfl

theorem setCodes_cons (phrase : Phrase) (rest : List Phrase) (code : Text) (codes : List Text) :
    setCodes (phrase :: rest) (code :: codes) =
      let (children, left) := setCodes phrase.children codes
      let (others, left) := setCodes rest left
      ({ phrase with styleCode := some code, children := children } :: others, left) := by
  cases phrase
  rfl

theorem exists_codes_split (phrase : Phrase) (rest : List Phrase) (codes : List Text)
    (enough : codes.length = Phrase.counts (phrase :: rest)) :
    ∃ code front back, codes = code :: (front ++ back) ∧
      front.length = Phrase.counts phrase.children ∧ back.length = Phrase.counts rest := by
  rw [Phrase.counts, Phrase.count_eq] at enough
  cases codes with
  | nil =>
    rw [List.length_nil] at enough
    omega
  | cons code codes =>
    rw [List.length_cons] at enough
    refine ⟨code, codes.take (Phrase.counts phrase.children),
      codes.drop (Phrase.counts phrase.children), by rw [List.take_append_drop], ?_, ?_⟩
    · rw [List.length_take]
      omega
    · rw [List.length_drop]
      omega

theorem setCodes_append (phrases : List Phrase) (codes more : List Text)
    (enough : codes.length = Phrase.counts phrases) :
    setCodes phrases (codes ++ more) = ((setCodes phrases codes).1, more) := by
  induction phrases using Phrase.forest_induction generalizing codes more with
  | nil =>
    rw [List.eq_nil_of_length_eq_zero enough]
    rfl
  | cons phrase rest below right =>
    rcases exists_codes_split phrase rest codes enough with
      ⟨code, front, back, rfl, inner, outer⟩
    rw [List.cons_append, List.append_assoc]
    simp only [setCodes_cons, below front _ inner, right back more outer]

theorem setCodes_nil (phrases : List Phrase) : setCodes phrases [] = (phrases, []) := by
  induction phrases with
  | nil => rfl
  | cons phrase rest ih =>
    simp only [setCodes, setCode]
    rw [ih]

theorem setCodes_of_le (phrases : List Phrase) (codes : List Text)
    (enough : codes.length ≤ Phrase.counts phrases) :
    (setCodes phrases codes).2 = [] ∧
      Phrase.codes (setCodes phrases codes).1 =
        codes.map some ++ (Phrase.codes phrases).drop codes.length := by
  induction phrases using Phrase.forest_induction generalizing codes with
  | nil =>
    rw [List.eq_nil_of_length_eq_zero (Nat.le_zero.mp enough)]
    exact ⟨rfl, rfl⟩
  | cons phrase rest below right =>
    cases codes with
    | nil =>
      rw [setCodes_nil]
      exact ⟨rfl, rfl⟩
    | cons code codes =>
      rw [Phrase.counts, Phrase.count_eq, List.length_cons] at enough
      have length := Phrase.length_codes phrase.children
      rw [setCodes_cons, Phrase.codes_cons phrase, List.length_cons, List.drop_succ_cons,
        List.drop_append, length]
      -- The codes may run out below the phrase, or only to its right.
      rcases Nat.le_total codes.length (Phrase.counts phrase.children) with few | many
      · obtain ⟨spent, given⟩ := below codes few
        rw [Nat.sub_eq_zero_of_le few, List.drop_zero]
        simp only [spent, setCodes_nil, Phrase.codes_cons, given]
        simp
      · obtain ⟨front, back, rfl, inner⟩ : ∃ front back, codes = front ++ back ∧
            front.length = Phrase.counts phrase.children :=
          ⟨_, _, (List.take_append_drop _ codes).symm, List.length_take_of_le many⟩
        rw [List.length_append] at enough ⊢
        obtain ⟨-, given⟩ := below front (Nat.le_of_eq inner)
        obtain ⟨spent, others⟩ := right back (by omega)
        rw [List.drop_of_length_le (by omega), List.append_nil] at given
        rw [List.drop_of_length_le (by omega), ← inner, Nat.add_sub_cancel_left]
        simp only [setCodes_append _ front back inner, spent, Phrase.codes_cons, given, others]
        simp

theorem map_styleCode_setCodes (phrases : List Phrase) (codes : List Text)
    (enough : codes.length = Phrase.counts phrases) :
    (Phrase.order (setCodes phrases codes).1).map Phrase.styleCode = codes.map some := by
  obtain ⟨-, given⟩ := setCodes_of_le phrases codes (Nat.le_of_eq enough)
  rw [enough, ← Phrase.length_codes, List.drop_length, List.append_nil] at given
  exact given

theorem uncodedAll_setCodes (phrases : List Phrase) (codes : List Text) :
    Phrase.uncodedAll (setCodes phrases codes).1 = Phrase.uncodedAll phrases := by
  induction phrases using Phrase.forest_induction generalizing codes with
  | nil => rfl
  | cons phrase rest below right =>
    cases codes with
    | nil => rw [setCodes_nil]
    | cons code codes =>
      simp only [setCodes_cons, Phrase.uncodedAll_cons]
      rw [below, right]

theorem setCodes_uncodedAll (phrases : List Phrase) (codes : List Text)
    (given : Phrase.codes phrases = codes.map some) :
    (setCodes (Phrase.uncodedAll phrases) codes).1 = phrases := by
  induction phrases using Phrase.forest_induction generalizing codes with
  | nil =>
    rw [List.map_eq_nil_iff.mp given.symm]
    rfl
  | cons phrase rest below right =>
    rw [Phrase.codes_cons] at given
    obtain ⟨code, others, rfl, own, others_given⟩ := List.map_eq_cons_iff.mp given.symm
    obtain ⟨front, back, rfl, inner, outer⟩ := List.map_eq_append_iff.mp others_given
    have enough : front.length = Phrase.counts (Phrase.uncodedAll phrase.children) := by
      rw [Phrase.counts_uncodedAll, ← Phrase.length_codes, ← inner, List.length_map]
    rw [Phrase.uncodedAll_cons]
    simp only [setCodes_cons, setCodes_append _ front back enough, below front inner.symm,
      right back outer.symm]
    rw [own]
    cases phrase
    rfl

end Rendering

end AnsiMarkup
