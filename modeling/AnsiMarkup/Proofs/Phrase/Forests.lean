import AnsiMarkup.Phrase

namespace AnsiMarkup

namespace Phrase

@[elab_as_elim]
theorem forest_induction {motive : List Phrase → Prop} (nil : motive [])
    (cons : ∀ phrase rest, motive phrase.children → motive rest → motive (phrase :: rest))
    (phrases : List Phrase) : motive phrases := by
  match phrases with
  | [] => exact nil
  | ⟨text, openIndex, closeIndex, arguments, overrideAlways, styleCode, children⟩ :: rest =>
    apply cons
    · exact forest_induction nil cons children
    · exact forest_induction nil cons rest

theorem preorders_cons (depth : Nat) (phrase : Phrase) (rest : List Phrase) :
    preorders depth (phrase :: rest) =
      (depth, phrase) :: (preorders (depth + 1) phrase.children ++ preorders depth rest) := by
  cases phrase
  rfl

theorem map_snd_preorders (depth other : Nat) (phrases : List Phrase) :
    (preorders depth phrases).map Prod.snd = (preorders other phrases).map Prod.snd := by
  induction phrases using forest_induction generalizing depth other with
  | nil => rfl
  | cons phrase rest below right =>
    simp only [preorders_cons, List.map_cons, List.map_append]
    rw [below (depth + 1) (other + 1), right depth other]

/-- All phrases of a forest, each before its children and those before its right siblings. -/
def order (phrases : List Phrase) : List Phrase := (preorders 0 phrases).map Prod.snd

theorem order_cons (phrase : Phrase) (rest : List Phrase) :
    order (phrase :: rest) = phrase :: (order phrase.children ++ order rest) := by
  rw [order, preorders_cons, List.map_cons, List.map_append, map_snd_preorders (0 + 1) 0]
  rfl

theorem order_append (front back : List Phrase) : order (front ++ back) = order front ++ order back := by
  induction front with
  | nil => rfl
  | cons phrase front ih =>
    rw [List.cons_append, order_cons, ih, order_cons, List.cons_append, List.append_assoc]

theorem length_order (phrases : List Phrase) : (order phrases).length = counts phrases := by
  induction phrases using forest_induction with
  | nil => rfl
  | cons phrase rest below right =>
    rw [order_cons, List.length_cons, List.length_append, below, right, counts, count_eq]
    omega

def codes (phrases : List Phrase) : List (Option Text) := (order phrases).map styleCode

theorem codes_cons (phrase : Phrase) (rest : List Phrase) :
    codes (phrase :: rest) = phrase.styleCode :: (codes phrase.children ++ codes rest) := by
  rw [codes, order_cons, List.map_cons, List.map_append]
  rfl

theorem length_codes (phrases : List Phrase) : (codes phrases).length = counts phrases := by
  rw [codes, List.length_map, length_order]

mutual

def uncoded : Phrase → Phrase
  | ⟨text, openIndex, closeIndex, arguments, overrideAlways, _, children⟩ =>
    ⟨text, openIndex, closeIndex, arguments, overrideAlways, none, uncodedAll children⟩

def uncodedAll : List Phrase → List Phrase
  | [] => []
  | phrase :: rest => uncoded phrase :: uncodedAll rest

end

theorem uncodedAll_cons (phrase : Phrase) (rest : List Phrase) :
    uncodedAll (phrase :: rest) =
      { phrase with styleCode := none, children := uncodedAll phrase.children } ::
        uncodedAll rest := by
  cases phrase
  rfl

theorem uncodedAll_eq_self (phrases : List Phrase)
    (bare : ∀ phrase ∈ order phrases, phrase.styleCode = none) : uncodedAll phrases = phrases := by
  induction phrases using forest_induction with
  | nil => rfl
  | cons phrase rest below right =>
    rw [order_cons, List.forall_mem_cons, List.forall_mem_append] at bare
    cases phrase
    rw [uncodedAll_cons, below bare.2.1, right bare.2.2]
    exact congrArg (fun code => Phrase.mk _ _ _ _ _ code _ :: rest) bare.1.symm

theorem counts_uncodedAll (phrases : List Phrase) : counts (uncodedAll phrases) = counts phrases := by
  induction phrases using forest_induction with
  | nil => rfl
  | cons phrase rest below right => rw [uncodedAll_cons, counts, counts, count_eq, count_eq, below, right]

end Phrase

end AnsiMarkup
