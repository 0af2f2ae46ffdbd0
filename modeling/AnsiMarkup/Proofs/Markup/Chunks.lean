import AnsiMarkup.Markup.Scope
import AnsiMarkup.Proofs.Markup.Escapes
import AnsiMarkup.Proofs.Position.Lines
import Mathlib.Data.List.Chain

/-! The chunks of a scope, and what looking at the last of them tells about its whole text. -/

namespace AnsiMarkup

namespace Scope

/-- A chunk with a marker ends in one, and of two neighbours one has a marker. -/
structure Sound (scope : Scope) : Prop where
  chunk_ne : ∀ chunk ∈ scope.chunks, chunk ≠ []
  length_eq : scope.length = scope.text.length
  marked : ∀ chunk ∈ scope.chunks,
    chunk.IsPlain ∨ ∃ (body : Text) (marker : Marker), chunk = body ++ marker.toText
  neighbours : scope.chunks.IsChain fun later earlier => ¬ later.IsPlain ∨ ¬ earlier.IsPlain

structure Counted (scope : Scope) : Prop where
  newlines : scope.newlines = scope.text.count CodeUnit.newline
  lineStart : scope.lineStart = scope.text.lineStart

/-- Raw text may follow: the newest chunk, if there is one, has a marker. -/
def Settled (scope : Scope) : Prop := ∀ chunk ∈ scope.chunks.head?, ¬ chunk.IsPlain

variable {scope : Scope}

theorem sound_empty : empty.Sound :=
  ⟨by simp [empty], rfl, by simp [empty], by simp [empty]⟩

theorem counted_empty : empty.Counted := ⟨rfl, rfl⟩

theorem settled_empty : empty.Settled := by simp [Settled, empty]

theorem text_cons (scope : Scope) (last : Text) (earlier : List Text)
    (chunks : scope.chunks = last :: earlier) :
    scope.text = earlier.reverse.flatten ++ last := by
  simp [text, chunks]

theorem endsWith_flatten (last : Text) (earlier : List Text) (last_ne : last ≠ [])
    (u : CodeUnit) :
    Text.endsWith (last :: earlier).reverse.flatten u = last.endsWith u := by
  rcases List.eq_nil_or_concat' last with blank | ⟨body, v, rfl⟩
  · exact absurd blank last_ne
  · simp only [List.reverse_cons, List.flatten_append, List.flatten_singleton,
      ← List.append_assoc, Text.endsWith_concat]

theorem append_of_ne (scope : Scope) (piece : Text) (piece_ne : piece ≠ []) :
    (scope.append piece).chunks = piece :: scope.chunks := by
  rw [append, if_neg piece_ne]

theorem children_append (scope : Scope) (piece : Text) :
    (scope.append piece).children = scope.children := by
  unfold append
  split <;> rfl

theorem Sound.append_chunk (sound : scope.Sound) (piece : Text)
    (marked : piece.IsPlain ∨ ∃ (body : Text) (marker : Marker), piece = body ++ marker.toText)
    (apart : ∀ chunk ∈ scope.chunks.head?, ¬ piece.IsPlain ∨ ¬ chunk.IsPlain) :
    (scope.append piece).Sound := by
  by_cases blank : piece = []
  · rw [append, if_pos blank]
    exact sound
  · have length : (scope.append piece).length = (scope.append piece).text.length := by
      rw [length_append, text_append, List.length_append, sound.length_eq]
    refine ⟨?_, length, ?_, ?_⟩ <;> rw [append_of_ne scope piece blank]
    · exact List.forall_mem_cons.mpr ⟨blank, sound.chunk_ne⟩
    · exact List.forall_mem_cons.mpr ⟨marked, sound.marked⟩
    · exact List.isChain_cons.mpr ⟨apart, sound.neighbours⟩

theorem Sound.append_plain (sound : scope.Sound) (settled : scope.Settled)
    (raw : Text) (plain : raw.IsPlain) : (scope.append raw).Sound := by
  apply sound.append_chunk raw (Or.inl plain)
  intro chunk newest
  exact Or.inr (settled chunk newest)

theorem Sound.append_marker (sound : scope.Sound) (body : Text)
    (marker : Marker) : (scope.append (body ++ marker.toText)).Sound := by
  apply sound.append_chunk _ (Or.inr ⟨body, marker, rfl⟩)
  intro chunk newest
  exact Or.inl (Text.not_isPlain_concat body marker)

theorem settled_append_marker (scope : Scope) (body : Text) (marker : Marker) :
    (scope.append (body ++ marker.toText)).Settled := by
  have piece_ne : body ++ marker.toText ≠ [] := by simp [Marker.toText]
  intro chunk newest
  rw [append_of_ne scope _ piece_ne, List.head?_cons, Option.mem_some_iff] at newest
  subst newest
  exact Text.not_isPlain_concat body marker

theorem Counted.append (sound : scope.Sound) (counted : scope.Counted)
    (piece : Text) : (scope.append piece).Counted := by
  by_cases blank : piece = []
  · rw [Scope.append, if_pos blank]
    exact counted
  · have start := Text.lineStart_append scope.text piece
    rw [← counted.lineStart, ← sound.length_eq] at start
    constructor
    · rw [text_append, Scope.append, if_neg blank, List.count_append, ← counted.newlines]
    · rw [text_append, Scope.append, if_neg blank]
      exact start.symm

theorem takeEscape_cases (scope : Scope) :
    ((∀ last ∈ scope.chunks.head?, last.endsWith CodeUnit.backslash = false) ∧
        scope.takeEscape = (scope, false)) ∨
      (∃ earlier, scope.chunks = [CodeUnit.backslash] :: earlier ∧
        scope.takeEscape = ({ scope with chunks := earlier, length := scope.length - 1 },
          match earlier with
          | [] => true
          | previous :: _ => !(Text.endsWith previous CodeUnit.backslash))) ∨
      ∃ body earlier, body ≠ [] ∧ scope.chunks = (body ++ [CodeUnit.backslash]) :: earlier ∧
        scope.takeEscape = ({ scope with chunks := body :: earlier, length := scope.length - 1 },
          !(Text.endsWith body CodeUnit.backslash)) := by
  unfold takeEscape
  cases chunks : scope.chunks with
  | nil => exact Or.inl ⟨by simp, rfl⟩
  | cons last earlier =>
    cases ends : last.endsWith CodeUnit.backslash with
    | false =>
      refine Or.inl ⟨by simpa using ends, ?_⟩
      simp only [Escaping.ofText_of_not_endsWith last ends, if_true]
    | true =>
      obtain ⟨body, rfl⟩ := (Text.endsWith_iff last _).mp ends
      have shorter : body.length ≠ (body ++ [CodeUnit.backslash]).length := by simp
      simp only [Escaping.ofText_backslash, if_neg shorter]
      by_cases blank : body = []
      · subst blank
        exact Or.inr (Or.inl ⟨earlier, rfl, rfl⟩)
      · exact Or.inr (Or.inr ⟨body, earlier, blank, rfl, by rw [if_neg blank]⟩)

theorem ofText_text (sound : scope.Sound) :
    Escaping.ofText scope.text = ⟨scope.takeEscape.1.text, scope.takeEscape.2⟩ := by
  rcases takeEscape_cases scope with ⟨ends, taken⟩ | ⟨earlier, chunks, taken⟩ |
    ⟨body, earlier, body_ne, chunks, taken⟩ <;> rw [taken]
  · apply Escaping.ofText_of_not_endsWith
    cases chunks : scope.chunks with
    | nil => simp [text, chunks, Text.endsWith]
    | cons last earlier =>
      have last_ne : last ≠ [] := sound.chunk_ne last (by simp [chunks])
      rw [text, chunks, endsWith_flatten last earlier last_ne]
      exact ends last (by simp [chunks])
  · rw [text_cons scope _ _ chunks, Escaping.ofText_backslash]
    cases earlier with
    | nil => rfl
    | cons previous others =>
      have previous_ne : previous ≠ [] := sound.chunk_ne previous (by simp [chunks])
      rw [endsWith_flatten previous others previous_ne]
      rfl
  · have whole := endsWith_flatten body earlier body_ne CodeUnit.backslash
    rw [List.reverse_cons, List.flatten_append, List.flatten_singleton] at whole
    rw [text_cons scope _ _ chunks, ← List.append_assoc, Escaping.ofText_backslash, whole]
    simp [text]

theorem takeEscape_frame (scope : Scope) :
    scope.takeEscape.1.children = scope.children ∧
      scope.takeEscape.1.newlines = scope.newlines ∧
      scope.takeEscape.1.lineStart = scope.lineStart := by
  rcases takeEscape_cases scope with ⟨-, taken⟩ | ⟨_, -, taken⟩ | ⟨_, _, -, -, taken⟩ <;>
    rw [taken] <;> exact ⟨rfl, rfl, rfl⟩

theorem Sound.takeEscape (sound : scope.Sound) : scope.takeEscape.1.Sound := by
  rcases takeEscape_cases scope with ⟨-, taken⟩ | ⟨earlier, chunks, taken⟩ |
    ⟨body, earlier, body_ne, chunks, taken⟩ <;> rw [taken]
  · exact sound
  · have length := sound.length_eq
    rw [text_cons scope _ _ chunks] at length
    obtain ⟨chunk_ne, -, marked, neighbours⟩ := sound
    rw [chunks] at chunk_ne marked neighbours
    refine ⟨(List.forall_mem_cons.mp chunk_ne).2, ?_, (List.forall_mem_cons.mp marked).2,
      (List.isChain_cons.mp neighbours).2⟩
    change scope.length - 1 = earlier.reverse.flatten.length
    rw [length, List.length_append, List.length_singleton, Nat.add_sub_cancel]
  · have length := sound.length_eq
    rw [text_cons scope _ _ chunks] at length
    obtain ⟨chunk_ne, -, marked, neighbours⟩ := sound
    rw [chunks] at chunk_ne marked neighbours
    have plain : Text.IsPlain (body ++ [CodeUnit.backslash]) := by
      rcases (List.forall_mem_cons.mp marked).1 with plain | ⟨front, marker, ends⟩
      · exact plain
      · have unmarked := Text.endsWith_marker front marker
        rw [← ends, Text.endsWith_concat] at unmarked
        cases unmarked
    have body_plain : Text.IsPlain body := ((Text.isPlain_append _ _).mp plain).1
    refine ⟨List.forall_mem_cons.mpr ⟨body_ne, (List.forall_mem_cons.mp chunk_ne).2⟩, ?_,
      List.forall_mem_cons.mpr ⟨Or.inl body_plain, (List.forall_mem_cons.mp marked).2⟩,
      List.isChain_cons.mpr ⟨?_, (List.isChain_cons.mp neighbours).2⟩⟩
    · change scope.length - 1 = (body :: earlier).reverse.flatten.length
      simp only [length, List.length_append, List.length_singleton, List.reverse_cons,
        List.flatten_append, List.flatten_singleton]
      omega
    · intro chunk newest
      rcases (List.isChain_cons.mp neighbours).1 chunk newest with unplain | unplain
      · exact absurd plain unplain
      · exact Or.inr unplain

theorem text_takeEscape (sound : scope.Sound) :
    scope.text = scope.takeEscape.1.text ∨
      scope.text = scope.takeEscape.1.text ++ [CodeUnit.backslash] := by
  have resolved := congrArg Escaping.text (ofText_text sound)
  cases ends : scope.text.endsWith CodeUnit.backslash with
  | false =>
    rw [Escaping.ofText_of_not_endsWith _ ends] at resolved
    exact Or.inl resolved
  | true =>
    obtain ⟨body, whole⟩ := (Text.endsWith_iff _ _).mp ends
    rw [whole, Escaping.ofText_backslash] at resolved
    exact Or.inr (whole.trans (congrArg (· ++ [CodeUnit.backslash]) resolved))

theorem Counted.takeEscape (sound : scope.Sound) (counted : scope.Counted) :
    scope.takeEscape.1.Counted := by
  obtain ⟨-, newlines, lineStart⟩ := takeEscape_frame scope
  have unbroken : CodeUnit.newline ∉ [CodeUnit.backslash] := by decide
  constructor
  · rw [newlines, counted.newlines]
    rcases text_takeEscape sound with same | escaped
    · rw [← same]
    · rw [escaped, List.count_append, List.count_eq_zero.mpr unbroken, Nat.add_zero]
  · rw [lineStart, counted.lineStart]
    rcases text_takeEscape sound with same | escaped
    · rw [← same]
    · rw [escaped, Text.lineStart_append_of_not_mem _ _ unbroken]

theorem Sound.restart (scope : Scope) : scope.restart.Sound :=
  ⟨by simp [Scope.restart], by simp [Scope.restart, text], by simp [Scope.restart],
    by simp [Scope.restart]⟩

theorem Sound.addChild (sound : scope.Sound) (phrase : Phrase) :
    (scope.addChild phrase).Sound :=
  ⟨sound.chunk_ne, sound.length_eq, sound.marked, sound.neighbours⟩

theorem Sound.not_isPlain_text (sound : scope.Sound) (several : 1 < scope.chunks.length) :
    ¬ scope.text.IsPlain := by
  intro plain
  match chunks : scope.chunks with
  | [] => simp [chunks] at several
  | [_] => simp [chunks] at several
  | last :: previous :: earlier =>
    have neighbours := sound.neighbours
    rw [chunks, List.isChain_cons_cons] at neighbours
    rw [text, chunks] at plain
    simp only [List.reverse_cons, List.flatten_append, List.flatten_singleton,
      Text.isPlain_append] at plain
    rcases neighbours.1 with unplain | unplain
    · exact unplain plain.2
    · exact unplain plain.1.2

/-- A text of several chunks holds a marker, so asking the lone chunk is asking the whole text. -/
theorem specifier_loneChunk? (sound : scope.Sound) :
    scope.loneChunk?.bind Specifier.ofText? = Specifier.ofText? scope.text := by
  match chunks : scope.chunks with
  | [] =>
    rw [loneChunk?, text, chunks]
    exact Specifier.ofText?_nil.symm
  | [chunk] => simp [loneChunk?, text, chunks]
  | last :: previous :: earlier =>
    have marked := sound.not_isPlain_text (by simp [chunks])
    rw [Specifier.ofText?_of_not_isPlain _ marked, loneChunk?, chunks]
    rfl

end Scope

end AnsiMarkup
