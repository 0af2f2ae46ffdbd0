import AnsiMarkup.Command.Stream
import AnsiMarkup.Proofs.Text.Utf8

/-! Standard input as the bytes that arrive, however they are cut into chunks. -/

namespace AnsiMarkup

namespace Text

open CodeUnit (newline carriageReturn)

inductive DropsLineEnd : Text → Text → Prop
  | crlf (body : Text) : DropsLineEnd (body ++ [carriageReturn, newline]) body
  | lf (body : Text) (apart : body.getLast? ≠ some carriageReturn) :
    DropsLineEnd (body ++ [newline]) body
  | none (text : Text) (unended : text.getLast? ≠ some newline) : DropsLineEnd text text

end Text

namespace Chunk

open CodeUnit (newline carriageReturn)

theorem dropLineEnd_crlf (body : Text) : dropLineEnd (body ++ [carriageReturn, newline]) = body := by
  have reversed : (body ++ [carriageReturn, newline]).reverse = newline :: carriageReturn :: body.reverse :=
    List.reverse_append
  rw [dropLineEnd, reversed]
  exact List.reverse_reverse body

theorem dropLineEnd_lf (body : Text) (apart : body.getLast? ≠ some carriageReturn) :
    dropLineEnd (body ++ [newline]) = body := by
  rw [← List.head?_reverse] at apart
  rw [dropLineEnd, List.reverse_concat]
  split
  · next rest found =>
    rw [(List.cons.inj found).2] at apart
    exact absurd rfl apart
  · next rest _ found =>
    calc
      rest.reverse = body.reverse.reverse := by rw [(List.cons.inj found).2]
      _ = body := List.reverse_reverse body
  · next other => exact absurd rfl (other body.reverse)

theorem dropLineEnd_none (text : Text) (unended : text.getLast? ≠ some newline) :
    dropLineEnd text = text := by
  rw [← List.head?_reverse] at unended
  rw [dropLineEnd]
  split
  · next rest found =>
    rw [found] at unended
    exact absurd rfl unended
  · next rest _ found =>
    rw [found] at unended
    exact absurd rfl unended
  · rfl

theorem dropsLineEnd_dropLineEnd (text : Text) : text.DropsLineEnd (dropLineEnd text) := by
  by_cases ended : text.getLast? = some newline
  · rcases List.getLast?_eq_some_iff.mp ended with ⟨body, rfl⟩
    by_cases pair : body.getLast? = some carriageReturn
    · rcases List.getLast?_eq_some_iff.mp pair with ⟨front, rfl⟩
      rw [List.append_assoc, List.singleton_append, dropLineEnd_crlf]
      exact .crlf front
    · rw [dropLineEnd_lf body pair]
      exact .lf body pair
  · rw [dropLineEnd_none text ended]
    exact .none text ended

theorem dropsLineEnd_iff (text result : Text) :
    text.DropsLineEnd result ↔ result = dropLineEnd text := by
  constructor
  · intro drops
    cases drops with
    | crlf body => exact (dropLineEnd_crlf _).symm
    | lf body apart => exact (dropLineEnd_lf _ apart).symm
    | none _ unended => exact (dropLineEnd_none _ unended).symm
  · intro same
    rw [same]
    exact dropsLineEnd_dropLineEnd text

theorem read_of_readable (chunks : List Chunk) (readable : ∀ chunk ∈ chunks, chunk.lacksText = false) :
    read chunks = .ok (dropLineEnd (Utf8.decode (chunks.flatMap toBytes))) := by
  have none : chunks.any lacksText = false := by
    rw [List.any_eq_false]
    intro chunk member
    rw [readable chunk member]
    exact Bool.false_ne_true
  rw [read, none]
  rfl

def Yields (chunks : List Chunk) (text : Text) : Prop :=
  ∃ markup, read chunks = .ok markup ∧ ∀ result, text.DropsLineEnd result ↔ result = markup

theorem yields_decode (chunks : List Chunk) (readable : ∀ chunk ∈ chunks, chunk.lacksText = false) :
    Yields chunks (Utf8.decode (chunks.flatMap toBytes)) :=
  ⟨_, read_of_readable chunks readable, dropsLineEnd_iff _⟩

/-- Chunks are read as their bytes together, not one by one. A text whose surrogates come in pairs is
read from its bytes as it was written, and loses the line end that it ends in. -/
theorem read_depends_on_bytes (chunks : List Chunk)
    (readable : ∀ chunk ∈ chunks, chunk.lacksText = false) :
    Yields chunks (Utf8.decode (chunks.flatMap toBytes)) ∧
      (∀ text : Text, text.Paired → chunks.flatMap toBytes = Utf8.encode text → Yields chunks text) ∧
      ∀ others : List Chunk, (∀ chunk ∈ others, chunk.lacksText = false) →
        others.flatMap toBytes = chunks.flatMap toBytes → read others = read chunks := by
  refine ⟨yields_decode chunks readable, ?_, ?_⟩
  · intro text paired written
    have yields := yields_decode chunks readable
    rwa [written, Utf8.decode_encode text paired] at yields
  · intro others readable_too same
    rw [read_of_readable chunks readable, read_of_readable others readable_too, same]

/-- Four bytes of one character in two chunks, and a line end in two others. -/
theorem read_depends_on_bytes_cut :
    let text : Text := [0xD83D, 0xDE00, 13, 13, 10]
    let chunks : List Chunk :=
      [.bytes [0xF0, 0x9F], .bytes [], .bytes [0x98, 0x80, 13, 13], .value (.text "\n")]
    let whole : List Chunk := [.value (.text text)]
    text.Paired ∧ chunks.flatMap toBytes = Utf8.encode text ∧ Yields chunks text ∧
      read chunks = .ok [0xD83D, 0xDE00, 13] ∧ read whole = read chunks := by
  intro text chunks whole
  have unit (u : CodeUnit) (rest : Text) (whole : u.IsWhole) := Text.Paired.unit u rest whole
  have paired : text.Paired := .pair 0xD83D 0xDE00 _ rfl rfl
    (unit 13 _ ⟨rfl, rfl⟩ (unit 13 _ ⟨rfl, rfl⟩ (unit 10 _ ⟨rfl, rfl⟩ .nil)))
  have written : chunks.flatMap toBytes = Utf8.encode text := by decide
  have depends := read_depends_on_bytes chunks (by decide)
  have yields := depends.2.1 text paired written
  have kept : read chunks = .ok [0xD83D, 0xDE00, 13] := by decide
  exact ⟨paired, written, yields, kept, depends.2.2 whole (by decide) (by decide)⟩

end Chunk

end AnsiMarkup
