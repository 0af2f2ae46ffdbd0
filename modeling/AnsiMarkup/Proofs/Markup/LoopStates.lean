import AnsiMarkup.Proofs.Markup.LocalEscapes
import AnsiMarkup.Proofs.Position.Places

namespace AnsiMarkup

/-- Points of a turn: before the raw text up to the next marker is taken up, before that marker is
looked at, and when the escape before it has been resolved. -/
inductive LoopPoint
  | head
  | scanned
  | resolved
  deriving DecidableEq, Repr

/-- The states of the loop, each with the markup that is still ahead. -/
inductive Reached (markup : Text) : LoopPoint → Reader → Text → Prop
  | start : Reached markup .head .start markup
  | scan {reader : Reader} (raw ahead : Text) (head : Reached markup .head reader (raw ++ ahead))
      (plain : raw.IsPlain) (next : ∀ u ∈ ahead.head?, Marker.ofUnit? u ≠ none) :
      Reached markup .scanned (reader.append raw) ahead
  | resolve {reader : Reader} (marker : Marker) (ahead : Text)
      (scanned : Reached markup .scanned reader (marker.toUnit :: ahead))
      (unspecified : marker = .closing → reader.opened ≠ [] →
        reader.scope.loneChunk?.bind Specifier.ofText? = none) :
      Reached markup .resolved (reader.setScope reader.scope.takeEscape.1) (marker.toUnit :: ahead)
  | turn {reader : Reader} (marker : Marker) (ahead : Text)
      (scanned : Reached markup .scanned reader (marker.toUnit :: ahead)) :
      Reached markup .head (reader.meet [] marker ahead) ahead

/-- What the chunks of a scope keep to. A text that a specifier restarts is one chunk, and has no
children; a backslash that is a chunk of its own does not stand behind another one. -/
structure Scope.Regular (scope : Scope) : Prop where
  chunk_ne : ∀ chunk ∈ scope.chunks, chunk ≠ []
  length_eq : scope.length = (scope.chunks.map List.length).sum
  neighbours : scope.chunks.IsChain fun later earlier => ¬ later.IsPlain ∨ ¬ earlier.IsPlain
  marked : 1 < scope.chunks.length → ¬ scope.text.IsPlain
  specifier : ∀ specifier, Specifier.ofText? scope.text = some specifier →
    scope.chunks = [scope.text] ∧ scope.children = []
  previous : ∀ previous earlier, scope.chunks = [CodeUnit.backslash] :: previous :: earlier →
    Text.endsWith previous CodeUnit.backslash = false

/-- What the open scopes keep to. The newlines of the document are counted as they come, and each open
phrase starts at the end of the text around it. -/
structure Reader.Regular (reader : Reader) : Prop where
  document : reader.document.Regular
  opened : ∀ phrase ∈ reader.opened, phrase.scope.Regular
  newlines : reader.document.newlines = reader.document.text.count CodeUnit.newline
  lineStart : ∃ last, reader.document.text.EndsInLine last ∧
    reader.document.lineStart + last.length = reader.document.text.length
  openIndex : ∀ inner phrase outer, reader.opened = inner ++ phrase :: outer →
    phrase.openIndex = ({ reader with opened := outer } : Reader).scope.length

namespace Scope

variable {scope : Scope}

theorem Sound.length_chunks (sound : scope.Sound) :
    scope.length = (scope.chunks.map List.length).sum := by
  rw [sound.length_eq, text, List.length_flatten, List.map_reverse, List.sum_reverse]

theorem Sound.chunks_eq_of_specifier (sound : scope.Sound) (specifier : Specifier)
    (found : Specifier.ofText? scope.text = some specifier) : scope.chunks = [scope.text] := by
  have plain := Specifier.isPlain_of_ofText? _ specifier found
  match chunks : scope.chunks with
  | [] =>
    rw [text, chunks] at found
    cases found
  | [chunk] => simp [text, chunks]
  | last :: previous :: earlier =>
    exact absurd plain (sound.not_isPlain_text (by simp [chunks]))

theorem Sound.endsWith_previous (sound : scope.Sound) (previous : Text) (earlier : List Text)
    (chunks : scope.chunks = [CodeUnit.backslash] :: previous :: earlier) :
    previous.endsWith CodeUnit.backslash = false := by
  have neighbours := sound.neighbours
  rw [chunks, List.isChain_cons_cons] at neighbours
  have unplain : ¬ previous.IsPlain := neighbours.1.resolve_left (not_not.mpr (by decide))
  rcases sound.marked previous (by simp [chunks]) with plain | ⟨body, marker, rfl⟩
  · exact absurd plain unplain
  · exact Text.endsWith_marker body marker

theorem Sound.regular (sound : scope.Sound)
    (childless : ∀ specifier, Specifier.ofText? scope.text = some specifier → scope.children = []) :
    scope.Regular :=
  ⟨sound.chunk_ne, sound.length_chunks, sound.neighbours, sound.not_isPlain_text,
    fun specifier found =>
      ⟨sound.chunks_eq_of_specifier specifier found, childless specifier found⟩,
    sound.endsWith_previous⟩

end Scope

namespace WholeReader

theorem Traced.append_raw {reader : WholeReader} (traced : reader.Traced) (raw : Text)
    (plain : raw.IsPlain) : (reader.append raw).Traced := by
  induction raw generalizing reader with
  | nil => rwa [append_nil]
  | cons u raw ih =>
    obtain ⟨unmarked, plain⟩ := List.forall_mem_cons.mp plain
    have first := traced.append_plain u unmarked
    have rest := ih first plain
    rwa [append_append, List.singleton_append] at rest

theorem Anchored.openIndex_eq {document : WholeScope} {inner outer : List WholePhrase}
    {phrase : WholePhrase} (anchored : Anchored document (inner ++ phrase :: outer)) :
    phrase.openIndex = (document.around outer).text.length := by
  induction inner with
  | nil => exact anchored.1
  | cons first inner ih => exact ih anchored.2

end WholeReader

namespace Reader

variable {reader : Reader}

structure Kept (reader : Reader) : Prop where
  sound : reader.Sound
  traced : reader.whole.Traced

theorem Kept.regular (kept : reader.Kept) : reader.Regular := by
  obtain ⟨sound, traced⟩ := kept
  refine ⟨sound.document.regular traced.document.children_eq_nil, ?_, sound.counted.newlines, ?_, ?_⟩
  · intro phrase member
    have shown := traced.opened phrase.whole (List.mem_map_of_mem member)
    exact (sound.opened phrase member).regular shown.scope.children_eq_nil
  · obtain ⟨last, line⟩ := Text.exists_endsInLine reader.document.text
    refine ⟨last, line, ?_⟩
    rw [sound.counted.lineStart, line.lineStart_add]
  · intro inner phrase outer opened
    have anchored := traced.anchored
    rw [whole, opened, List.map_append, List.map_cons] at anchored
    have around : ({ reader with opened := outer } : Reader).Sound := by
      refine ⟨sound.document, sound.counted, ?_⟩
      intro other member
      apply sound.opened
      rw [opened]
      exact List.mem_append_right inner (List.mem_cons_of_mem phrase member)
    calc
      phrase.openIndex
        = ({ reader with opened := outer } : Reader).whole.scope.text.length := by
          rw [WholeReader.scope_eq_around]
          exact anchored.openIndex_eq
      _ = ({ reader with opened := outer } : Reader).scope.length := by
          rw [whole_scope, around.scope.length_eq]
          rfl

theorem Kept.append_raw (kept : reader.Kept) (settled : reader.scope.Settled) (raw : Text)
    (plain : raw.IsPlain) : (reader.append raw).Kept := by
  refine ⟨Ready.append_plain ⟨kept.sound, settled⟩ raw plain, ?_⟩
  rw [whole_append]
  exact kept.traced.append_raw raw plain

theorem Kept.resolve (kept : reader.Kept) : (reader.setScope reader.scope.takeEscape.1).Kept := by
  refine ⟨kept.sound.resolve, ?_⟩
  have resolved : reader.whole.scope.resolve.1 = reader.scope.takeEscape.1.whole := by
    rw [whole_scope, Scope.resolve_whole kept.sound.scope]
  rw [whole_setScope, ← resolved]
  exact kept.traced.setScope _ fun _ scope => scope.resolve

theorem Kept.meet (kept : reader.Kept) (marker : Marker) (ahead : Text) :
    (reader.meet [] marker ahead).Kept ∧ (reader.meet [] marker ahead).scope.Settled := by
  have traced := WholeReader.traced_step kept.traced marker.toUnit ahead
  rw [WholeReader.step, Marker.ofUnit?_toUnit] at traced
  simp only [Reader.meet, append_nil]
  cases marker with
  | opening =>
    have ready := ready_meetOpening kept.sound
    exact ⟨⟨ready.sound, (whole_meetOpening kept.sound).symm ▸ traced⟩, ready.settled⟩
  | closing =>
    have ready := ready_meetClosing kept.sound ahead
    exact ⟨⟨ready.sound, (whole_meetClosing kept.sound ahead).symm ▸ traced⟩, ready.settled⟩

end Reader

namespace Reached

variable {markup ahead : Text} {point : LoopPoint} {reader : Reader}

theorem kept (reached : Reached markup point reader ahead) :
    reader.Kept ∧ (point = .head → reader.scope.Settled) := by
  -- The invariant needs `Settled` at the head, the only point where raw text is taken up.
  induction reached with
  | start => exact ⟨⟨Reader.ready_start.sound, WholeReader.traced_start⟩, fun _ => Reader.ready_start.settled⟩
  | scan raw ahead head plain next ih => exact ⟨ih.1.append_raw (ih.2 rfl) raw plain, nofun⟩
  | resolve marker ahead scanned unspecified ih => exact ⟨ih.1.resolve, nofun⟩
  | turn marker ahead scanned ih =>
    have met := ih.1.meet marker ahead
    exact ⟨met.1, fun _ => met.2⟩

theorem scanned_readFront (raw front : Text) (plain : raw.IsPlain)
    (next : ∀ u ∈ ahead.head?, Marker.ofUnit? u ≠ none)
    (head : Reached markup .head reader (raw.reverse ++ (front ++ ahead))) :
    Reached markup .scanned (reader.readFront raw ahead front) ahead := by
  induction front generalizing reader raw with
  | nil => exact .scan raw.reverse ahead head plain.reverse next
  | cons u front ih =>
    rw [Reader.readFront]
    cases found : Marker.ofUnit? u with
    | none =>
      apply ih (u :: raw) (List.forall_mem_cons.mpr ⟨found, plain⟩)
      rwa [List.reverse_cons, List.append_assoc]
    | some marker =>
      have unit := Marker.toUnit_of_ofUnit? u marker found
      subst unit
      apply ih [] (by decide)
      have scanned := Reached.scan raw.reverse _ head plain.reverse (by simp [Marker.ofUnit?_toUnit])
      have met := scanned.turn marker (front ++ ahead)
      rwa [Reader.meet_append] at met

theorem scanned_after (markup : Text) (n : Nat) (next : ∀ u ∈ markup[n]?, Marker.ofUnit? u ≠ none) :
    Reached markup .scanned (Reader.after markup n) (markup.drop n) := by
  apply scanned_readFront [] (markup.take n) (by decide)
  · rwa [List.head?_drop]
  · rw [List.reverse_nil, List.nil_append, List.take_append_drop]
    exact .start

end Reached

theorem Reader.after_of_length_le (markup : Text) (n : Nat) (all : markup.length ≤ n) :
    after markup n = start.read [] markup := by
  rw [after, List.take_of_length_le all, List.drop_of_length_le all, readFront_nil]

/-- Whatever state the loop is in, its scopes are regular. Each marker is met, and the markup is read to
its end, in such states. -/
theorem reached_regular (markup : Text) :
    (∀ point reader ahead, Reached markup point reader ahead → reader.Regular) ∧
      (∀ n marker, markup[n]? = some (Marker.toUnit marker) →
        Reached markup .scanned (Reader.after markup n) (markup.drop n)) ∧
      Reached markup .scanned (Reader.start.read [] markup) [] := by
  refine ⟨?_, ?_, ?_⟩
  · intro point reader ahead reached
    exact reached.kept.1.regular
  · intro n marker present
    apply Reached.scanned_after
    intro u member
    rw [present, Option.mem_some_iff] at member
    rw [← member, Marker.ofUnit?_toUnit]
    exact Option.some_ne_none marker
  · have whole := Reached.scanned_after markup markup.length (by simp)
    rwa [List.drop_length, Reader.after_of_length_le markup _ (Nat.le_refl _)] at whole

/-- The backslash before the marker is a chunk of its own, behind the chunk of a phrase. -/
theorem reached_regular_escape :
    let markup : Text := "<1><a>\\>b>"
    let reader := Reader.after markup 7
    Reached markup .scanned reader (markup.drop 7) ∧
      reader.opened.map (·.scope.chunks) = [[("\\" : Text), ("<a>" : Text)]] ∧ reader.Regular := by
  intro markup reader
  have reached : Reached markup .scanned reader (markup.drop 7) :=
    (reached_regular markup).2.1 7 .closing rfl
  exact ⟨reached, by decide, (reached_regular markup).1 .scanned reader _ reached⟩

end AnsiMarkup
