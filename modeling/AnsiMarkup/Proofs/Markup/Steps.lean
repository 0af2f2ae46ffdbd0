import AnsiMarkup.Proofs.Markup.Escapes
import AnsiMarkup.Proofs.Markup.Whole

/-! Whole texts read unit by unit: raw text need not wait for the next marker. -/

namespace AnsiMarkup

namespace WholeReader

theorem scope_setScope (reader : WholeReader) (scope : WholeScope) :
    (reader.setScope scope).scope = scope := by
  unfold setScope WholeReader.scope
  cases reader.opened <;> rfl

theorem setScope_setScope (reader : WholeReader) (first second : WholeScope) :
    (reader.setScope first).setScope second = reader.setScope second := by
  unfold setScope
  cases reader.opened <;> rfl

theorem setScope_scope (reader : WholeReader) : reader.setScope reader.scope = reader := by
  obtain ⟨document, opened, strays⟩ := reader
  cases opened <;> rfl

theorem append_nil (reader : WholeReader) : reader.append [] = reader := by
  have same : reader.scope.append [] = reader.scope := by simp [WholeScope.append]
  rw [append, same, setScope_scope]

theorem append_append (reader : WholeReader) (front back : Text) :
    (reader.append front).append back = reader.append (front ++ back) := by
  simp only [append, scope_setScope, setScope_setScope, WholeScope.append, List.append_assoc]

def step (reader : WholeReader) (u : CodeUnit) (ahead : Text) : WholeReader :=
  match Marker.ofUnit? u with
  | none => reader.append [u]
  | some .opening => reader.meetOpening
  | some .closing => reader.meetClosing ahead

theorem read_raw (reader : WholeReader) (raw ahead : Text) :
    reader.read raw ahead = (reader.append raw.reverse).read [] ahead := by
  induction ahead generalizing reader raw with
  | nil => rw [read, read, List.reverse_nil, append_nil]
  | cons u ahead ih =>
    rw [read, read]
    cases Marker.ofUnit? u with
    | none =>
      simp only
      rw [ih, ih (reader.append raw.reverse), append_append, List.reverse_cons,
        List.reverse_singleton]
    | some marker => simp only [meet, List.reverse_nil, append_nil]

theorem read_cons (reader : WholeReader) (u : CodeUnit) (ahead : Text) :
    reader.read [] (u :: ahead) = (reader.step u ahead).read [] ahead := by
  rw [read, step]
  cases Marker.ofUnit? u with
  | none =>
    simp only
    rw [read_raw, List.reverse_singleton]
  | some marker => cases marker <;> simp only [meet, List.reverse_nil, append_nil]

theorem read_nil (reader : WholeReader) : reader.read [] [] = reader := by
  rw [read, List.reverse_nil, append_nil]

theorem read_plain (reader : WholeReader) (piece ahead : Text) (plain : piece.IsPlain) :
    reader.read [] (piece ++ ahead) = (reader.append piece).read [] ahead := by
  induction piece generalizing reader with
  | nil => rw [List.nil_append, append_nil]
  | cons u piece ih =>
    have unmarked := List.forall_mem_cons.mp plain
    rw [List.cons_append, read_cons, step, unmarked.1]
    simp only
    rw [ih _ unmarked.2, append_append, List.singleton_append]

theorem read_induction (holds : WholeReader → Prop)
    (kept : ∀ reader u ahead, holds reader → holds (reader.step u ahead))
    (reader : WholeReader) (markup : Text) (first : holds reader) :
    holds (reader.read [] markup) := by
  induction markup generalizing reader with
  | nil => rw [read_nil]; exact first
  | cons u markup ih =>
    rw [read_cons]
    exact ih _ (kept reader u markup first)

end WholeReader

end AnsiMarkup
