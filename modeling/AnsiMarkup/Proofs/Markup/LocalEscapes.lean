import AnsiMarkup.Proofs.Markup.SourceLines
import AnsiMarkup.Proofs.Markup.Within
import Mathlib.Data.List.DropRight

/-! Whether a marker is literal can be seen in the markup itself: it depends on the backslashes
directly before the marker, and on nothing that was read before them. -/

namespace AnsiMarkup

namespace Text

def isBackslash (u : CodeUnit) : Bool := u == CodeUnit.backslash

def backslashesAtEnd (text : Text) : Nat := (text.rtakeWhile isBackslash).length

theorem backslashesAtEnd_backslash (text : Text) :
    backslashesAtEnd (text ++ [CodeUnit.backslash]) = text.backslashesAtEnd + 1 := by
  rw [backslashesAtEnd, List.rtakeWhile_concat_pos isBackslash text _ rfl, List.length_append]
  rfl

theorem backslashesAtEnd_concat (text : Text) (u : CodeUnit) (other : u ≠ CodeUnit.backslash) :
    backslashesAtEnd (text ++ [u]) = 0 := by
  rw [backslashesAtEnd, List.rtakeWhile_concat_neg isBackslash text u (by simpa [isBackslash])]
  rfl

theorem backslashesAtEnd_eq_zero_iff (text : Text) :
    text.backslashesAtEnd = 0 ↔ text.endsWith CodeUnit.backslash = false := by
  rcases List.eq_nil_or_concat' text with rfl | ⟨body, u, rfl⟩
  · exact iff_of_true rfl rfl
  · rw [endsWith_concat, beq_eq_false_iff_ne]
    by_cases escape : u = CodeUnit.backslash
    · subst escape
      rw [backslashesAtEnd_backslash]
      exact iff_of_false (Nat.succ_ne_zero _) (not_not_intro rfl)
    · exact iff_of_true (backslashesAtEnd_concat body u escape) escape

theorem exists_body (text : Text) :
    ∃ body, text = body ++ List.replicate text.backslashesAtEnd CodeUnit.backslash ∧
      body.endsWith CodeUnit.backslash = false := by
  induction text using List.reverseRecOn with
  | nil => exact ⟨[], rfl, rfl⟩
  | append_singleton front u ih =>
    by_cases escape : u = CodeUnit.backslash
    · subst escape
      obtain ⟨body, whole, unescaped⟩ := ih
      refine ⟨body, ?_, unescaped⟩
      rw [backslashesAtEnd_backslash, List.replicate_succ', ← List.append_assoc, ← whole]
    · have none := backslashesAtEnd_concat front u escape
      refine ⟨front ++ [u], ?_, (backslashesAtEnd_eq_zero_iff _).mp none⟩
      rw [none, List.replicate_zero, List.append_nil]

end Text

theorem Escaping.ofText_replicate (k : Nat) :
    ofText (List.replicate k CodeUnit.backslash) =
      ⟨List.replicate (k - 1) CodeUnit.backslash, decide (k = 1)⟩ := by
  cases k with
  | zero => rfl
  | succ k =>
    rw [List.replicate_succ', ofText_backslash]
    cases k with
    | zero => rfl
    | succ k =>
      rw [List.replicate_succ', Text.endsWith_concat, ← List.replicate_succ']
      simp

theorem WholeScope.resolve_of_backslashes (scope : WholeScope) (body : Text) (k : Nat)
    (whole : scope.text = body ++ List.replicate k CodeUnit.backslash)
    (unescaped : body.endsWith CodeUnit.backslash = false) :
    scope.resolve =
      ({ scope with text := body ++ List.replicate (k - 1) CodeUnit.backslash }, decide (k = 1)) := by
  rw [resolve, whole, Escaping.ofText_append body _ unescaped, Escaping.ofText_replicate]

theorem WholeScope.count_backslash_resolve (scope : WholeScope) :
    scope.resolve.1.text.count CodeUnit.backslash +
        (if scope.text.endsWith CodeUnit.backslash then 1 else 0) =
      scope.text.count CodeUnit.backslash := by
  rcases resolve_cases scope with ⟨ends, resolved⟩ | ⟨body, whole, resolved⟩
  · rw [resolved, ends]
    rfl
  · rw [resolved, whole, Text.endsWith_concat, List.count_append]
    rfl

namespace Markup

def EscapedAt (markup : Text) (i : Nat) : Prop :=
  1 ≤ i ∧ markup[i - 1]? = some CodeUnit.backslash ∧
    (i = 1 ∨ markup[i - 2]? ≠ some CodeUnit.backslash)

def isGuarded (markup : Text) (i : Nat) : Bool :=
  (markup[i]?.bind Marker.ofUnit?).isSome && Text.endsWith (markup.take i) CodeUnit.backslash

/-- How many markers among the first `n` units have a backslash directly before them. -/
def guarded (markup : Text) (n : Nat) : Nat := (List.range n).countP (isGuarded markup)

theorem guarded_succ (markup : Text) (n : Nat) :
    guarded markup (n + 1) = guarded markup n + if isGuarded markup n then 1 else 0 := by
  rw [guarded, List.range_succ, List.countP_append, List.countP_singleton, guarded]

theorem endsWith_take_succ_iff (markup : Text) (i : Nat) (inside : i < markup.length) :
    Text.endsWith (markup.take (i + 1)) CodeUnit.backslash = true ↔
      markup[i]? = some CodeUnit.backslash := by
  rw [List.take_succ_eq_append_getElem inside, Text.endsWith_concat, beq_iff_eq,
    List.getElem?_eq_getElem inside, Option.some_inj]

theorem escapedAt_iff (markup : Text) (i : Nat) (inside : i < markup.length) :
    EscapedAt markup i ↔ Text.backslashesAtEnd (markup.take i) = 1 := by
  cases i with
  | zero =>
    refine iff_of_false (fun escaped => absurd escaped.1 (by decide)) ?_
    rw [List.take_zero]
    decide
  | succ i =>
    have below : i < markup.length := Nat.lt_of_succ_lt inside
    rw [EscapedAt, Nat.add_sub_cancel, List.take_succ_eq_append_getElem below,
      List.getElem?_eq_getElem below, Option.some_inj]
    by_cases escape : markup[i] = CodeUnit.backslash
    · have single : Text.backslashesAtEnd (markup.take i) = 0 ↔
          (i + 1 = 1 ∨ markup[i + 1 - 2]? ≠ some CodeUnit.backslash) := by
        rw [Text.backslashesAtEnd_eq_zero_iff]
        cases i with
        | zero => exact iff_of_true rfl (.inl rfl)
        | succ i =>
          rw [← Bool.not_eq_true, endsWith_take_succ_iff markup i (Nat.lt_of_succ_lt below)]
          simp
      have one (k : Nat) : k + 1 = 1 ↔ k = 0 := Nat.add_eq_right
      rw [escape, Text.backslashesAtEnd_backslash, one (Text.backslashesAtEnd _), single]
      exact ⟨fun escaped => escaped.2.2, fun single => ⟨Nat.succ_pos i, rfl, single⟩⟩
    · rw [Text.backslashesAtEnd_concat _ _ escape]
      exact iff_of_false (fun escaped => escape escaped.2.1) (by decide)

end Markup

namespace Reader

def readFront (reader : Reader) (raw ahead : Text) : Text → Reader
  | [] => reader.append raw.reverse
  | u :: front =>
    match Marker.ofUnit? u with
    | none => reader.readFront (u :: raw) ahead front
    | some marker => (reader.meet raw.reverse marker (front ++ ahead)).readFront [] ahead front

def after (markup : Text) (n : Nat) : Reader := start.readFront [] (markup.drop n) (markup.take n)

theorem append_nil (reader : Reader) : reader.append [] = reader := by
  obtain ⟨document, opened, diagnostics⟩ := reader
  cases opened <;> rfl

theorem meet_append (reader : Reader) (raw : Text) (marker : Marker) (ahead : Text) :
    (reader.append raw).meet [] marker ahead = reader.meet raw marker ahead := by
  simp only [meet, append_nil]

theorem readFront_nil (reader : Reader) (raw markup : Text) :
    reader.readFront raw [] markup = reader.read raw markup := by
  induction markup generalizing reader raw with
  | nil => rfl
  | cons u markup ih =>
    rw [readFront, read, List.append_nil]
    cases Marker.ofUnit? u with
    | none => exact ih reader (u :: raw)
    | some marker => exact ih _ []

theorem read_append_marker (reader : Reader) (raw front : Text) (marker : Marker) (ahead : Text) :
    reader.read raw (front ++ marker.toUnit :: ahead) =
      ((reader.readFront raw (marker.toUnit :: ahead) front).meet [] marker ahead).read [] ahead := by
  induction front generalizing reader raw with
  | nil => rw [List.nil_append, read, Marker.ofUnit?_toUnit, readFront, meet_append]
  | cons u front ih =>
    rw [List.cons_append, read, readFront]
    cases Marker.ofUnit? u with
    | none => exact ih reader (u :: raw)
    | some other => exact ih _ []

variable {reader : Reader}

theorem sound_readFront (ready : reader.Ready) (raw : Text) (plain : raw.IsPlain)
    (ahead front : Text) :
    (reader.readFront raw ahead front).Sound ∧
      (reader.readFront raw ahead front).whole =
        (reader.whole.append raw.reverse).readFront ahead front := by
  induction front generalizing reader raw with
  | nil => exact ⟨ready.append_plain raw.reverse plain.reverse, whole_append reader raw.reverse⟩
  | cons u front ih =>
    rw [readFront, WholeReader.readFront, WholeReader.step]
    cases found : Marker.ofUnit? u with
    | none =>
      have longer : Text.IsPlain (u :: raw) := List.forall_mem_cons.mpr ⟨found, plain⟩
      have next := ih ready (u :: raw) longer
      rwa [List.reverse_cons, ← WholeReader.append_append] at next
    | some marker =>
      have next := ih (ready_meet ready raw.reverse plain.reverse marker (front ++ ahead)) [] (by decide)
      rw [whole_meet ready raw.reverse plain.reverse, List.reverse_nil, WholeReader.append_nil] at next
      cases marker <;> exact next

theorem sound_after (markup : Text) (n : Nat) : (after markup n).Sound :=
  (sound_readFront ready_start [] (by decide) _ _).1

theorem whole_after (markup : Text) (n : Nat) :
    (after markup n).whole = WholeReader.after markup n := by
  have same := (sound_readFront ready_start [] (by decide) (markup.drop n) (markup.take n)).2
  rwa [List.reverse_nil, WholeReader.append_nil] at same

theorem whole_meet_after (markup : Text) (n : Nat) (marker : Marker) (ahead : Text) :
    ((after markup n).meet [] marker ahead).whole =
      (WholeReader.after markup n).step marker.toUnit ahead := by
  have sound := sound_after markup n
  simp only [meet, append_nil, WholeReader.step, Marker.ofUnit?_toUnit, ← whole_after]
  cases marker with
  | opening => exact whole_meetOpening sound
  | closing => exact whole_meetClosing sound ahead

theorem whole_read_plain (markup : Text) (n : Nat) (plain : Text.IsPlain (markup.drop n)) :
    (start.read [] markup).whole = (after markup n).whole.append (markup.drop n) := by
  have both := WholeReader.read_append .start (markup.take n) (markup.drop n)
  have rest := WholeReader.read_plain (WholeReader.after markup n) (markup.drop n) [] plain
  rw [List.append_nil, WholeReader.read_nil] at rest
  rw [List.take_append_drop] at both
  rw [whole_read_start, whole_after, readWhole, both]
  exact rest

end Reader

namespace WholeReader

theorem backslashesAtEnd_after (markup : Text) (n : Nat) (inside : n ≤ markup.length) :
    (after markup n).scope.text.backslashesAtEnd = Text.backslashesAtEnd (markup.take n) := by
  induction n with
  | zero => rfl
  | succ n ih =>
    have below : n < markup.length := inside
    rw [after_succ markup n markup[n] (List.getElem?_eq_getElem below),
      List.take_succ_eq_append_getElem below]
    -- Any other unit leaves no backslash there, whichever scope is the innermost one then.
    by_cases escape : markup[n] = CodeUnit.backslash
    · rw [escape, step, Marker.ofUnit?_backslash]
      simp only [append, scope_setScope, WholeScope.append]
      rw [Text.backslashesAtEnd_backslash, Text.backslashesAtEnd_backslash, ih (Nat.le_of_lt below)]
    · rw [Text.backslashesAtEnd_concat _ _ escape, Text.backslashesAtEnd_eq_zero_iff]
      exact endsWith_step _ _ _ escape

def Literal (reader : WholeReader) (kept : Text) (marker : Marker) (next : WholeReader) : Prop :=
  next = reader.setScope { reader.scope with text := kept ++ marker.toText }

/-- What a marker does that is not literal, where `kept` stays of the text before it: it opens a
phrase, is reported, ends a specifier or closes a phrase. -/
inductive Structural (reader : WholeReader) (kept ahead : Text) : Marker → WholeReader → Prop
  | opens :
      Structural reader kept ahead .opening
        { reader.setScope { reader.scope with text := kept } with
          opened := WholePhrase.start kept.length ::
            (reader.setScope { reader.scope with text := kept }).opened }
  | stray (outside : reader.opened = []) :
      Structural reader kept ahead .closing
        { reader with
          document := { reader.document with text := kept ++ Marker.closing.toText }
          strays := ⟨kept.length, Position.locate (kept ++ Marker.closing.toUnit :: ahead)
            (Number.ofNat kept.length)⟩ :: reader.strays }
  | specifies (phrase : WholePhrase) (outer : List WholePhrase) (specifier : Specifier)
      (opened : reader.opened = phrase :: outer) (whole : phrase.scope.text = kept)
      (found : Specifier.ofText? kept = some specifier) :
      Structural reader kept ahead .closing
        { reader with opened := phrase.specify specifier :: outer }
  | closes (phrase : WholePhrase) (outer : List WholePhrase)
      (opened : reader.opened = phrase :: outer)
      (unspecified : Specifier.ofText? phrase.scope.text = none) :
      Structural reader kept ahead .closing
        (reader.closePhrase { phrase with scope := { phrase.scope with text := kept } } outer)

variable {reader next : WholeReader} {kept ahead : Text} {marker : Marker}

theorem Structural.not_literal (structural : reader.Structural kept ahead marker next)
    (other : Text) : ¬ reader.Literal other marker next := by
  intro literal
  have opened_length := congrArg (fun state => state.opened.length) literal
  have text := congrArg (fun state => state.scope.text) literal
  have strays := congrArg (fun state => state.strays) literal
  simp only [length_opened_setScope, scope_setScope] at opened_length text strays
  cases structural with
  | opens => simp [length_opened_setScope] at opened_length
  | stray outside => simp [setScope, outside] at strays
  | specifies phrase outer specifier opened whole found =>
    simp [scope, WholePhrase.specify, Marker.toText] at text
  | closes phrase outer opened unspecified =>
    rw [opened, closePhrase, length_opened_setScope] at opened_length
    simp at opened_length

theorem step_of_literal (reader : WholeReader) (marker : Marker) (ahead : Text)
    (literal : reader.scope.resolve.2 = true) :
    reader.Literal reader.scope.resolve.1.text marker (reader.step marker.toUnit ahead) := by
  have appended : reader.step marker.toUnit ahead =
      (reader.setScope reader.scope.resolve.1).append marker.toText := by
    rw [step, Marker.ofUnit?_toUnit]
    cases marker with
    | opening => simp only [meetOpening, literal, if_true]
    | closing => exact meetClosing_of_literal reader ahead literal
  rw [Literal, appended, append, scope_setScope, setScope_setScope]
  rfl

theorem step_of_structural (reader : WholeReader) (marker : Marker) (ahead : Text)
    (structural : reader.scope.resolve.2 = false) :
    reader.Structural reader.scope.resolve.1.text ahead marker (reader.step marker.toUnit ahead) := by
  rw [step, Marker.ofUnit?_toUnit]
  rcases reader with ⟨document, opened, strays⟩
  cases marker with
  | opening =>
    simp only [meetOpening, structural, Bool.false_eq_true, if_false]
    exact .opens
  | closing =>
    cases opened with
    | nil =>
      change document.resolve.2 = false at structural
      simp only [meetClosing, meetStray, structural, Bool.false_eq_true, if_false]
      exact .stray rfl
    | cons phrase outer =>
      change phrase.scope.resolve.2 = false at structural
      simp only [meetClosing, structural, Bool.false_eq_true, if_false]
      cases found : Specifier.ofText? phrase.scope.text with
      | some specifier =>
        have untouched := phrase.scope.resolve_of_specifier specifier found
        refine .specifies phrase outer specifier rfl ?_ ?_
        · exact congrArg WholeScope.text untouched.symm
        · exact (congrArg (fun scope => Specifier.ofText? scope.text) untouched).trans found
      | none => exact .closes phrase outer rfl found

theorem endsWith_after (markup : Text) (n : Nat) (inside : n ≤ markup.length) :
    (after markup n).scope.text.endsWith CodeUnit.backslash =
      Text.endsWith (markup.take n) CodeUnit.backslash := by
  have same := backslashesAtEnd_after markup n inside
  rw [Bool.eq_iff_iff, ← Bool.not_eq_false, ← Bool.not_eq_false, ← Text.backslashesAtEnd_eq_zero_iff,
    ← Text.backslashesAtEnd_eq_zero_iff, same]

theorem total_backslash_marker (reader : WholeReader) (marker : Marker) (ahead : Text) :
    (reader.step marker.toUnit ahead).total CodeUnit.backslash +
        (if reader.scope.text.endsWith CodeUnit.backslash then 1 else 0) =
      reader.total CodeUnit.backslash := by
  have changed := total_setScope (u := CodeUnit.backslash) reader reader.scope.resolve.1
  have dropped := reader.scope.count_backslash_resolve
  rw [total_marker CodeUnit.isCarried_backslash]
  omega

theorem total_backslash_after (markup : Text) (n : Nat) (inside : n ≤ markup.length) :
    (after markup n).total CodeUnit.backslash + Markup.guarded markup n =
      (markup.take n).count CodeUnit.backslash := by
  induction n with
  | zero => rfl
  | succ n ih =>
    have below : n < markup.length := inside
    have present := List.getElem?_eq_getElem below
    have earlier := ih (Nat.le_of_lt below)
    have ends := endsWith_after markup n (Nat.le_of_lt below)
    rw [after_succ markup n markup[n] present, List.take_succ_eq_append_getElem below,
      List.count_append, ← earlier, Markup.guarded_succ, Markup.isGuarded, present, Option.bind_some]
    -- Only a marker can take a backslash away: the one directly before it.
    cases found : Marker.ofUnit? markup[n] with
    | none =>
      rw [step, found, total_append, Option.isSome_none, Bool.false_and, if_neg Bool.false_ne_true]
      omega
    | some marker =>
      have unit := Marker.toUnit_of_ofUnit? markup[n] marker found
      have met := total_backslash_marker (after markup n) marker (markup.drop (n + 1))
      have none := CodeUnit.isCarried_backslash.count_marker marker
      rw [ends] at met
      rw [← unit, ← Marker.toText, none, Option.isSome_some, Bool.true_and]
      omega

end WholeReader

namespace Markup

structure ReadAt (markup : Text) (i : Nat) (marker : Marker) (body : Text) (before met : WholeReader) :
    Prop where
  text : before.scope.text =
    body ++ List.replicate (Text.backslashesAtEnd (markup.take i)) CodeUnit.backslash
  unescaped : body.endsWith CodeUnit.backslash = false
  single : EscapedAt markup i ↔ Text.backslashesAtEnd (markup.take i) = 1
  literal_iff : (∃ kept, before.Literal kept marker met) ↔ EscapedAt markup i
  literal : EscapedAt markup i → before.Literal body marker met
  structural : ¬ EscapedAt markup i →
    before.Structural
      (body ++ List.replicate (Text.backslashesAtEnd (markup.take i) - 1) CodeUnit.backslash)
      (markup.drop (i + 1)) marker met

theorem exists_readAt (markup : Text) (i : Nat) (marker : Marker)
    (present : markup[i]? = some marker.toUnit) :
    ∃ body, ReadAt markup i marker body (Reader.after markup i).whole
      ((Reader.after markup i).meet [] marker (markup.drop (i + 1))).whole := by
  obtain ⟨inside, -⟩ := List.getElem?_eq_some_iff.mp present
  rw [Reader.whole_meet_after, Reader.whole_after]
  obtain ⟨body, whole, unescaped⟩ := Text.exists_body (WholeReader.after markup i).scope.text
  rw [WholeReader.backslashesAtEnd_after markup i (Nat.le_of_lt inside)] at whole
  have resolved := WholeScope.resolve_of_backslashes _ body _ whole unescaped
  have single := escapedAt_iff markup i inside
  have literal (escaped : EscapedAt markup i) :
      (WholeReader.after markup i).Literal body marker
        ((WholeReader.after markup i).step marker.toUnit (markup.drop (i + 1))) := by
    have one := single.mp escaped
    have read := WholeReader.step_of_literal (WholeReader.after markup i) marker
      (markup.drop (i + 1)) (by rw [resolved, one]; rfl)
    rw [resolved, one] at read
    simpa using read
  have structural (free : ¬ EscapedAt markup i) :
      (WholeReader.after markup i).Structural
        (body ++ List.replicate (Text.backslashesAtEnd (markup.take i) - 1) CodeUnit.backslash)
        (markup.drop (i + 1)) marker
        ((WholeReader.after markup i).step marker.toUnit (markup.drop (i + 1))) := by
    have read := WholeReader.step_of_structural (WholeReader.after markup i) marker
      (markup.drop (i + 1)) (by rw [resolved]; exact decide_eq_false (free ∘ single.mpr))
    rwa [resolved] at read
  refine ⟨body, whole, unescaped, single, ?_, literal, structural⟩
  constructor
  · rintro ⟨kept, read⟩
    by_contra free
    exact (structural free).not_literal kept read
  · intro escaped
    exact ⟨body, literal escaped⟩

end Markup

/-- A marker is literal if and only if one single backslash stands before it in the markup, in
whatever state it is met. Of several backslashes one is dropped, and behind the last marker none. -/
theorem escapes_are_local (markup : Text) :
    (∀ i marker, markup[i]? = some marker.toUnit →
      let ahead := markup.drop (i + 1)
      let met := (Reader.after markup i).meet [] marker ahead
      Reader.start.read [] markup = met.read [] ahead ∧
        ∃ body, Markup.ReadAt markup i marker body (Reader.after markup i).whole met.whole) ∧
      (∀ n, Text.IsPlain (markup.drop n) →
        (Reader.start.read [] markup).whole =
          (Reader.after markup n).whole.append (markup.drop n)) ∧
      ∀ document, (parse markup).result = .ok document →
        document.text.count CodeUnit.backslash + Markup.guarded markup markup.length =
          markup.count CodeUnit.backslash := by
  refine ⟨?_, Reader.whole_read_plain markup, ?_⟩
  · intro i marker present
    obtain ⟨inside, unit⟩ := List.getElem?_eq_some_iff.mp present
    have split : markup = markup.take i ++ marker.toUnit :: markup.drop (i + 1) := by
      rw [← unit, ← List.drop_eq_getElem_cons inside, List.take_append_drop]
    have run := Reader.read_append_marker .start [] (markup.take i) marker (markup.drop (i + 1))
    rw [← split, ← unit, ← List.drop_eq_getElem_cons inside] at run
    exact ⟨run, Markup.exists_readAt markup i marker present⟩
  · intro document parsed
    obtain ⟨outside, text, -⟩ := (parse_eq_ok_iff markup document).mp parsed
    have all := WholeReader.total_backslash_after markup markup.length (Nat.le_refl _)
    rw [WholeReader.after_of_length_le markup _ (Nat.le_refl _), List.take_length,
      WholeReader.total_of_outside _ outside, ← text] at all
    exact all

/-- Behind a specifier a marker is escaped; two backslashes leave the next one structural. -/
theorem escapes_are_local_specified :
    let markup : Text := "<1>\\<a\\\\>\\"
    let document : Document :=
      ⟨"<<a\\>\\", [⟨"<a\\", 0, some 4, [Number.ofIntegerText "1"], false, none, []⟩]⟩
    Markup.EscapedAt markup 4 ∧ ¬ Markup.EscapedAt markup 8 ∧
      (∃ body, (Reader.after markup 4).whole.Literal body .opening
        ((Reader.after markup 4).meet [] .opening (markup.drop 5)).whole) ∧
      (¬ ∃ kept, (Reader.after markup 8).whole.Literal kept .closing
        ((Reader.after markup 8).meet [] .closing (markup.drop 9)).whole) ∧
      (Reader.start.read [] markup).whole = (Reader.after markup 9).whole.append "\\" ∧
      (parse markup).result = .ok document ∧
      document.text.count CodeUnit.backslash + Markup.guarded markup markup.length =
        markup.count CodeUnit.backslash := by
  intro markup document
  have escaped : Markup.EscapedAt markup 4 := ⟨by decide, rfl, .inr (by decide)⟩
  have free : ¬ Markup.EscapedAt markup 8 := by
    rintro ⟨-, -, first | other⟩
    · cases first
    · exact other rfl
  obtain ⟨-, body, opening⟩ := (escapes_are_local markup).1 4 .opening rfl
  obtain ⟨-, kept, closing⟩ := (escapes_are_local markup).1 8 .closing rfl
  have parsed : (parse markup).result = .ok document := rfl
  exact ⟨escaped, free, opening.literal_iff.mpr escaped, free ∘ closing.literal_iff.mp,
    (escapes_are_local markup).2.1 9 (by decide), parsed,
    (escapes_are_local markup).2.2 document parsed⟩

end AnsiMarkup
