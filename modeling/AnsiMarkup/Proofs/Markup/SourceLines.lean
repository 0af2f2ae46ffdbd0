import AnsiMarkup.Proofs.Markup.Conservation
import AnsiMarkup.Proofs.Markup.Prefixes

/-! The lines that reports tell are lines of the markup, though places are found in resolved text. -/

namespace AnsiMarkup

namespace Markup

def depth (markup : Text) (n : Nat) : Nat := (Reader.start.read [] (markup.take n)).opened.length

end Markup

namespace WholeReader

def after (markup : Text) (n : Nat) : WholeReader := start.readFront (markup.drop n) (markup.take n)

theorem after_succ (markup : Text) (n : Nat) (u : CodeUnit) (present : markup[n]? = some u) :
    after markup (n + 1) = (after markup n).step u (markup.drop (n + 1)) := by
  have ahead : [u] ++ markup.drop (n + 1) = markup.drop n := by
    rcases List.getElem?_eq_some_iff.mp present with ⟨inside, rfl⟩
    exact (List.drop_eq_getElem_cons inside).symm
  rw [after, List.take_add_one, present, Option.toList_some, readFront_append, ahead]
  rfl

theorem after_of_length_le (markup : Text) (n : Nat) (all : markup.length ≤ n) :
    after markup n = readWhole markup := by
  rw [after, List.take_of_length_le all, List.drop_of_length_le all, readFront_nil, readWhole]

variable {reader next : WholeReader} {u : CodeUnit} {ahead : Text}

theorem Move.around (move : reader.Move u ahead next) (inner outer : List WholePhrase)
    (opened : reader.opened = inner ++ outer) (inner_ne : inner ≠ [])
    (stays : outer.length < next.opened.length) :
    next.document = reader.document ∧ ∃ deeper, deeper ≠ [] ∧ next.opened = deeper ++ outer := by
  rcases List.exists_cons_of_ne_nil inner_ne with ⟨innermost, others, rfl⟩
  have open_ne : reader.opened ≠ [] := by rw [opened]; exact List.cons_ne_nil _ _
  cases move with
  | outside document outside => exact absurd outside open_ne
  | stray outside marker structural => exact absurd outside open_ne
  | inside phrase changed rest same =>
    rw [opened, List.cons_append, List.cons.injEq] at same
    exact ⟨rfl, changed :: others, List.cons_ne_nil _ _, congrArg (changed :: ·) same.2.symm⟩
  | opening resolved same marker =>
    rw [setScope, opened, List.cons_append] at same
    subst same
    exact ⟨rfl, _ :: _ :: others, List.cons_ne_nil _ _, rfl⟩
  | closing phrase rest scope same =>
    rw [opened, List.cons_append, List.cons.injEq] at same
    rw [length_opened_setScope, ← same.2] at stays
    rw [← same.2]
    cases others with
    | nil => exact absurd stays (Nat.lt_irrefl _)
    | cons second others => exact ⟨rfl, _ :: others, List.cons_ne_nil _ _, rfl⟩

end WholeReader

end AnsiMarkup
