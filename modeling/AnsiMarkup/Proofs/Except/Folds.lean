import Mathlib.Data.List.Forall2

/-! Folds over items that are read one by one: they take in all of them, or end at the first that is
refused. -/

namespace AnsiMarkup

theorem exists_of_bind_eq_ok {ε α β : Type} (first : Except ε α) (next : α → Except ε β) (value : β)
    (done : first >>= next = .ok value) : ∃ middle, first = .ok middle ∧ next middle = .ok value := by
  cases first with
  | error error => cases done
  | ok middle => exact ⟨middle, rfl, done⟩

theorem exists_of_map_eq_ok {ε α β : Type} (first : Except ε α) (change : α → β) (value : β)
    (done : first.map change = .ok value) : ∃ middle, first = .ok middle ∧ change middle = value := by
  cases first with
  | error error => cases done
  | ok middle => exact ⟨middle, rfl, Except.ok.inj done⟩

theorem eq_error_of_map_eq_error {ε α β : Type} (first : Except ε α) (change : α → β) (error : ε)
    (failed : first.map change = .error error) : first = .error error := by
  cases first with
  | error cause => exact congrArg Except.error (Except.error.inj failed)
  | ok middle => cases failed

theorem exists_forall₂ {α β : Type} {related : α → β → Prop} (items : List α)
    (all : ∀ item ∈ items, ∃ value, related item value) :
    ∃ values, List.Forall₂ related items values := by
  induction items with
  | nil => exact ⟨[], .nil⟩
  | cons item items ih =>
    obtain ⟨⟨value, here⟩, later⟩ := List.forall_mem_cons.mp all
    obtain ⟨values, others⟩ := ih later
    exact ⟨value :: values, .cons here others⟩

theorem forall_or_exists_first {α : Type} (holds : α → Prop) (items : List α) :
    (∀ item ∈ items, holds item) ∨
      ∃ before item after, items = before ++ item :: after ∧
        (∀ earlier ∈ before, holds earlier) ∧ ¬ holds item := by
  induction items with
  | nil => exact .inl (by simp)
  | cons item items ih =>
    by_cases here : holds item
    · rcases ih with all | ⟨before, first, after, rfl, earlier, fails⟩
      · exact .inl (List.forall_mem_cons.mpr ⟨here, all⟩)
      · exact .inr ⟨item :: before, first, after, rfl, List.forall_mem_cons.mpr ⟨here, earlier⟩, fails⟩
    · exact .inr ⟨[], item, items, rfl, by simp, here⟩

section

variable {ε α β σ : Type} (read : α → Except ε β) (extend : σ → β → σ)

theorem foldlM_of_read (items : List α) (values : List β)
    (all : List.Forall₂ (fun item value => read item = .ok value) items values) (state : σ) :
    items.foldlM (fun state item => (read item).map (extend state)) state =
      .ok (values.foldl extend state) := by
  induction all generalizing state with
  | nil => rfl
  | cons here _ ih =>
    rw [List.foldlM_cons, here]
    exact ih _

theorem foldlM_of_refused (before : List α) (item : α) (after : List α) (error : ε)
    (earlier : ∀ known ∈ before, ∃ value, read known = .ok value) (refused : read item = .error error)
    (state : σ) :
    (before ++ item :: after).foldlM (fun state item => (read item).map (extend state)) state =
      .error error := by
  induction before generalizing state with
  | nil =>
    rw [List.nil_append, List.foldlM_cons, refused]
    rfl
  | cons known before ih =>
    obtain ⟨⟨value, here⟩, others⟩ := List.forall_mem_cons.mp earlier
    rw [List.cons_append, List.foldlM_cons, here]
    exact ih others _

theorem foldlM_eq_ok (items : List α) (state final : σ)
    (done : items.foldlM (fun state item => (read item).map (extend state)) state = .ok final) :
    ∃ values, List.Forall₂ (fun item value => read item = .ok value) items values ∧
      final = values.foldl extend state := by
  rcases forall_or_exists_first (fun item => ∃ value, read item = .ok value) items with
    all | ⟨before, item, after, rfl, earlier, unread⟩
  · obtain ⟨values, read_all⟩ := exists_forall₂ items all
    rw [foldlM_of_read read extend items values read_all] at done
    cases done
    exact ⟨values, read_all, rfl⟩
  · cases refused : read item with
    | ok value => exact absurd ⟨value, refused⟩ unread
    | error error =>
      rw [foldlM_of_refused read extend before item after error earlier refused] at done
      cases done

end

end AnsiMarkup
