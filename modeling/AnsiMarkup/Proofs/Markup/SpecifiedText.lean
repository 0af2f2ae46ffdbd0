import AnsiMarkup.Proofs.Markup.Refinement
import AnsiMarkup.Proofs.Markup.Writing
import AnsiMarkup.Proofs.Number.Indices

/-! A phrase with a specifier and a text. What stands behind a specifier is its text, unless it could
be a specifier itself: then it is taken for a second one, and the phrase has no end. -/

namespace AnsiMarkup

namespace WholeReader

def specified (specifier : Specifier) : WholeReader :=
  ⟨.empty, [⟨0, specifier.arguments, specifier.overrideAlways, .empty⟩], []⟩

theorem read_specified (text : Text) (specifier : Specifier)
    (found : Specifier.ofText? text = some specifier) (ahead : Text) :
    start.read [] (Marker.opening.toText ++ (text ++ (Marker.closing.toText ++ ahead))) =
      (specified specifier).read [] ahead := by
  rw [read_marker]
  refine (read_specifies .empty (.start 0) [] [] rfl text specifier found ahead).trans ?_
  rw [WholePhrase.specify, WholePhrase.start, Bool.or_false]
  rfl

theorem read_text (specifier : Specifier) (text : Text) (plain : text.IsPlain)
    (unescaped : text.endsWith CodeUnit.backslash = false)
    (unspecified : Specifier.ofText? text = none) :
    (specified specifier).read [] (text ++ Marker.closing.toText) =
      ⟨⟨Marker.opening.toText ++ text ++ Marker.closing.toText,
        [⟨text, 0, some (1 + text.length), specifier.arguments, specifier.overrideAlways, none, []⟩]⟩,
        [], []⟩ := by
  have closing := read_closing .empty
    ⟨0, specifier.arguments, specifier.overrideAlways, ⟨text, []⟩⟩ [] [] unspecified []
  rw [unescaped, read_nil] at closing
  rw [read_plain _ _ _ plain]
  refine closing.trans ?_
  simp [closePhrase, setScope, scope, WholePhrase.close, WholeScope.addChild, WholeScope.append,
    WholeScope.empty]

/-- A text that can be a specifier is read as one, and then the phrase is still open. -/
theorem read_text_specifier (specifier again : Specifier) (text : Text)
    (found : Specifier.ofText? text = some again) :
    (specified specifier).read [] (text ++ Marker.closing.toText) =
      specified ⟨again.arguments, again.overrideAlways || specifier.overrideAlways⟩ := by
  have reread := read_specifies .empty
    ⟨0, specifier.arguments, specifier.overrideAlways, .empty⟩ [] [] rfl text again found []
  rw [read_nil, List.append_nil] at reread
  exact reread

end WholeReader

/-- One specifier and a text behind it make a phrase of that text with the integers and the mark of
the specifier, but for a text that can be a specifier: behind that one the phrase is still open. -/
theorem specified_text (parts : List Text) (marked : Bool) (specifier text : Text)
    (written : Specifier.Written specifier parts marked) (plain : text.IsPlain)
    (unescaped : text.endsWith CodeUnit.backslash = false) :
    let markup : Text := Marker.opening.toText ++
      (specifier ++ (Marker.closing.toText ++ (text ++ Marker.closing.toText)))
    (parse markup).diagnostics = [] ∧
      ((¬ ∃ others again, Specifier.Written text others again) →
        (parse markup).result = .ok ⟨Marker.opening.toText ++ text ++ Marker.closing.toText,
          [⟨text, 0, some (1 + text.length), parts.map Number.ofIntegerText, marked, none, []⟩]⟩) ∧
      (∀ others again, Specifier.Written text others again →
        (parse markup).result = .error (.unclosedPhrase (some (.offset 0)) [])) ∧
      ∀ part ∈ parts, part.integerValue.natAbs < Number.safeLimit →
        (Number.ofIntegerText part).toInt? = some part.integerValue := by
  intro markup
  have opened := WholeReader.read_specified specifier _ written.ofText? (text ++ Marker.closing.toText)
  rw [diagnostics_eq_nil_iff, result_parse, readWhole, opened]
  refine ⟨?_, ?_, ?_, fun part _ small => Number.toInt?_ofIntegerText part small⟩
  · cases found : Specifier.ofText? text with
    | none => rw [WholeReader.read_text _ text plain unescaped found]
    | some again =>
      rw [WholeReader.read_text_specifier _ again text found]
      rfl
  · intro unwritten
    have unread := (Specifier.ofText?_eq_none_iff text).mpr unwritten
    rw [WholeReader.read_text _ text plain unescaped unread]
    rfl
  · intro others again rewritten
    rw [WholeReader.read_text_specifier _ _ text rewritten.ofText?]
    rfl

/-- Behind the specifier `0,-7!` the text `1,` is no specifier, and `1` is one. -/
theorem specified_text_integers :
    Specifier.Written "0,-7!" ["0", "-7"] true ∧
      (¬ ∃ others again, Specifier.Written "1," others again) ∧
      (parse "<0,-7!>1,>").result =
        .ok ⟨"<1,>", [⟨"1,", 0, some 3, ["0", "-7"].map Number.ofIntegerText, true, none, []⟩]⟩ ∧
      (Number.ofIntegerText "-7").toInt? = some (-7) ∧
      Specifier.Written "1" ["1"] false ∧
      (parse "<0,-7!>1>").result = .error (.unclosedPhrase (some (.offset 0)) []) := by
  have written : Specifier.Written "0,-7!" ["0", "-7"] true := ⟨by decide, by decide, by decide⟩
  have again : Specifier.Written "1" ["1"] false := ⟨by decide, by decide, by decide⟩
  have other : ¬ ∃ others again, Specifier.Written "1," others again :=
    (Specifier.ofText?_eq_none_iff _).mp (by decide)
  have phrase := specified_text _ _ _ "1," written (by decide) (by decide)
  have unclosed := specified_text _ _ _ "1" written (by decide) (by decide)
  exact ⟨written, other, phrase.2.1 other, phrase.2.2.2 "-7" (by decide) (by decide), again,
    unclosed.2.2.1 _ _ again⟩

/-- With a text that can be a specifier there is no phrase at all. -/
theorem specifier_for_text :
    Specifier.Written "0" ["0"] false ∧ Text.IsPlain "1" ∧
      CodeUnit.backslash ∉ Text.ofString "1" ∧
      ¬ ∃ document, (parse "<0>1>").result = .ok document := by
  refine ⟨⟨by decide, by decide, by decide⟩, by decide, by decide, ?_⟩
  rintro ⟨document, parsed⟩
  cases parsed

end AnsiMarkup
