import AnsiMarkup.Proofs.Markup.Prefixes
import AnsiMarkup.Proofs.Markup.Traced

/-! Markup read inside a scope that holds text already. It is read as on its own, but for its place, if
the text before it does not end in a backslash. -/

namespace AnsiMarkup

def Phrase.shift (n : Nat) (phrase : Phrase) : Phrase :=
  { phrase with openIndex := phrase.openIndex + n, closeIndex := phrase.closeIndex.map (· + (n : Int)) }

theorem Phrase.shift_zero (phrase : Phrase) : phrase.shift 0 = phrase := by
  cases phrase
  simp [shift]

def Stray.shift (n : Nat) (stray : Stray) : Stray := { stray with index := stray.index + n }

theorem Escaping.ofText_append (front back : Text)
    (unescaped : front.endsWith CodeUnit.backslash = false) :
    ofText (front ++ back) = ⟨front ++ (ofText back).text, (ofText back).literal⟩ := by
  rcases List.eq_nil_or_concat' back with rfl | ⟨body, u, rfl⟩
  · rw [List.append_nil, ofText_of_not_endsWith front unescaped]
    exact (congrArg (Escaping.mk · false) (List.append_nil front)).symm
  · by_cases escape : u = CodeUnit.backslash
    · subst escape
      rw [← List.append_assoc, ofText_backslash, ofText_backslash]
      rcases List.eq_nil_or_concat' body with rfl | ⟨start, last, rfl⟩
      · rw [List.append_nil, unescaped]
        rfl
      · rw [← List.append_assoc, Text.endsWith_concat, Text.endsWith_concat]
    · have plain (text : Text) : Text.endsWith (text ++ [u]) CodeUnit.backslash = false := by
        rw [Text.endsWith_concat]
        exact beq_eq_false_iff_ne.mpr escape
      rw [ofText_of_not_endsWith _ (plain body), ← List.append_assoc,
        ofText_of_not_endsWith _ (plain (front ++ body))]

namespace WholeScope

def join (scope inner : WholeScope) : WholeScope :=
  ⟨scope.text ++ inner.text, inner.children.map (Phrase.shift scope.text.length) ++ scope.children⟩

theorem join_empty (scope : WholeScope) : scope.join empty = scope := by
  simp [join, empty]

theorem join_append (scope inner : WholeScope) (piece : Text) :
    scope.join (inner.append piece) = (scope.join inner).append piece := by
  simp [join, append]

theorem join_resolve (scope inner : WholeScope)
    (unescaped : scope.text.endsWith CodeUnit.backslash = false) :
    (scope.join inner).resolve = (scope.join inner.resolve.1, inner.resolve.2) := by
  simp only [resolve, join, Escaping.ofText_append _ _ unescaped]

theorem specifier_of_literal (scope : WholeScope) (literal : scope.resolve.2 = true) :
    Specifier.ofText? scope.text = none := by
  rcases resolve_cases scope with ⟨-, resolved⟩ | ⟨body, whole, -⟩
  · rw [resolved] at literal
    cases literal
  · rw [whole]
    exact Specifier.ofText?_backslash body

end WholeScope

namespace WholePhrase

def shift (n : Nat) (phrase : WholePhrase) : WholePhrase :=
  { phrase with openIndex := phrase.openIndex + n }

theorem close_shift (n : Nat) (phrase : WholePhrase) : (phrase.shift n).close = phrase.close.shift n := by
  simp only [close, shift, Phrase.shift, Option.map_some]
  congr 2
  push_cast
  omega

def shiftOutermost (n : Nat) : List WholePhrase → List WholePhrase
  | [] => []
  | phrase :: outer => phrase.shift (if outer.isEmpty then n else 0) :: shiftOutermost n outer

theorem shiftOutermost_eq_nil_iff (n : Nat) (phrases : List WholePhrase) :
    shiftOutermost n phrases = [] ↔ phrases = [] := by
  cases phrases <;> simp [shiftOutermost]

end WholePhrase

namespace WholeReader

/-- What was read on its own, put behind the text of the innermost scope of `base`. -/
def within (base inner : WholeReader) : WholeReader where
  document := (base.setScope (base.scope.join inner.document)).document
  opened := WholePhrase.shiftOutermost base.scope.text.length inner.opened ++
    (base.setScope (base.scope.join inner.document)).opened
  strays := inner.strays.map (Stray.shift base.scope.text.length) ++ base.strays

variable {base inner : WholeReader}

theorem within_start (base : WholeReader) : base.within start = base := by
  rw [within, start]
  simp only [WholeScope.join_empty, setScope_scope]
  rfl

theorem within_of_outside (base inner : WholeReader) (outside : inner.opened = []) :
    base.within inner =
      { base.setScope (base.scope.join inner.document) with
        strays := inner.strays.map (Stray.shift base.scope.text.length) ++ base.strays } := by
  rw [within, outside]
  rfl

theorem scope_within_of_outside (base inner : WholeReader) (outside : inner.opened = []) :
    (base.within inner).scope = base.scope.join inner.document := by
  rw [within_of_outside base inner outside]
  exact scope_setScope base _

theorem scope_within_of_inside (base inner : WholeReader) (inside : inner.opened ≠ []) :
    (base.within inner).scope = inner.scope := by
  rcases inner with ⟨document, opened, strays⟩
  cases opened with
  | nil => exact absurd rfl inside
  | cons phrase outer => rfl

theorem within_setScope_of_inside (base inner : WholeReader) (inside : inner.opened ≠ [])
    (scope : WholeScope) :
    (base.within inner).setScope scope = base.within (inner.setScope scope) := by
  rcases inner with ⟨document, opened, strays⟩
  cases opened with
  | nil => exact absurd rfl inside
  | cons phrase outer => rfl

theorem within_setScope_of_outside (base inner : WholeReader) (outside : inner.opened = [])
    (scope : WholeScope) :
    (base.within inner).setScope (base.scope.join scope) = base.within (inner.setScope scope) := by
  rcases base with ⟨document, opened, strays⟩
  rcases inner with ⟨_, _, _⟩
  subst outside
  cases opened <;> rfl

theorem within_append (base inner : WholeReader) (piece : Text) :
    (base.within inner).append piece = base.within (inner.append piece) := by
  by_cases outside : inner.opened = []
  · rw [append, scope_within_of_outside base inner outside, ← WholeScope.join_append,
      within_setScope_of_outside base inner outside, append, scope_of_outside inner outside]
  · rw [append, scope_within_of_inside base inner outside,
      within_setScope_of_inside base inner outside, append]

theorem within_resolve (base inner : WholeReader)
    (unescaped : base.scope.text.endsWith CodeUnit.backslash = false) :
    (base.within inner).scope.resolve.2 = inner.scope.resolve.2 ∧
      (base.within inner).setScope (base.within inner).scope.resolve.1 =
        base.within (inner.setScope inner.scope.resolve.1) := by
  by_cases outside : inner.opened = []
  · rw [scope_within_of_outside base inner outside, WholeScope.join_resolve _ _ unescaped,
      scope_of_outside inner outside]
    exact ⟨rfl, within_setScope_of_outside base inner outside _⟩
  · rw [scope_within_of_inside base inner outside]
    exact ⟨rfl, within_setScope_of_inside base inner outside _⟩

theorem within_meetOpening (base inner : WholeReader)
    (unescaped : base.scope.text.endsWith CodeUnit.backslash = false) :
    (base.within inner).meetOpening = base.within inner.meetOpening := by
  have resolved := within_resolve base inner unescaped
  simp only [meetOpening, resolved.1, resolved.2]
  split
  · exact within_append base _ _
  · have opens : WholePhrase.start (base.within inner).scope.resolve.1.text.length =
        (WholePhrase.start inner.scope.resolve.1.text.length).shift
          (if (inner.setScope inner.scope.resolve.1).opened.isEmpty then base.scope.text.length
            else 0) := by
      by_cases outside : inner.opened = []
      · rw [scope_within_of_outside base inner outside, WholeScope.join_resolve _ _ unescaped,
          scope_of_outside inner outside, setScope, outside, WholeScope.join, List.length_append, Nat.add_comm]
        rfl
      · have stays : (inner.setScope inner.scope.resolve.1).opened.isEmpty = false := by
          rw [List.isEmpty_eq_false_iff, ← List.length_pos_iff, length_opened_setScope,
            List.length_pos_iff]
          exact outside
        rw [scope_within_of_inside base inner outside, stays]
        rfl
    rw [opens]
    rfl

/-- An escaped closing marker is text in every scope: what stands before it is no specifier. -/
theorem meetClosing_of_literal (reader : WholeReader) (ahead : Text)
    (literal : reader.scope.resolve.2 = true) :
    reader.meetClosing ahead =
      (reader.setScope reader.scope.resolve.1).append Marker.closing.toText := by
  rcases reader with ⟨document, opened, strays⟩
  cases opened with
  | nil =>
    change document.resolve.2 = true at literal
    simp only [meetClosing, meetStray, literal, if_true]
    rfl
  | cons phrase outer =>
    change phrase.scope.resolve.2 = true at literal
    have unspecified := WholeScope.specifier_of_literal phrase.scope literal
    simp only [meetClosing, unspecified, literal, if_true]
    rfl

theorem alike_within_meetStray (base inner : WholeReader) (ahead other : Text)
    (unescaped : base.scope.text.endsWith CodeUnit.backslash = false)
    (base_outside : base.opened = []) (outside : inner.opened = [])
    (structural : inner.document.resolve.2 = false) :
    Alike ((base.within inner).meetStray ahead) (base.within (inner.meetStray other)) := by
  rcases base with ⟨document, _, strays⟩
  rcases inner with ⟨inner_document, _, inner_strays⟩
  subst base_outside outside
  change Text.endsWith document.text CodeUnit.backslash = false at unescaped
  have resolved := WholeScope.join_resolve document inner_document unescaped
  change inner_document.resolve.2 = false at structural
  simp only [within, meetStray, setScope, scope, resolved, structural]
  refine ⟨?_, rfl, ?_⟩
  · exact (WholeScope.join_append document _ _).symm
  · simp [WholeScope.join, Stray.shift, Nat.add_comm]

theorem within_closePhrase (base : WholeReader) (document : WholeScope) (phrase : WholePhrase)
    (outer : List WholePhrase) (strays : List Stray) :
    (base.within ⟨document, phrase :: outer, strays⟩).closePhrase
        (phrase.shift (if outer.isEmpty then base.scope.text.length else 0))
        (base.within ⟨document, outer, strays⟩).opened =
      base.within (closePhrase ⟨document, phrase :: outer, strays⟩ phrase outer) := by
  have around : ({ base.within ⟨document, phrase :: outer, strays⟩ with
      opened := (base.within ⟨document, outer, strays⟩).opened } : WholeReader) =
        base.within ⟨document, outer, strays⟩ := rfl
  simp only [closePhrase, around, WholePhrase.close_shift]
  cases outer with
  | nil =>
    have outside : (⟨document, [], strays⟩ : WholeReader).opened = [] := rfl
    rw [scope_within_of_outside base _ outside]
    refine Eq.trans ?_ (within_setScope_of_outside base _ outside _)
    simp [WholeScope.join, WholeScope.addChild, WholeScope.append, scope, Phrase.shift]
  | cons second outer =>
    have inside : (⟨document, second :: outer, strays⟩ : WholeReader).opened ≠ [] :=
      List.cons_ne_nil _ _
    rw [scope_within_of_inside base _ inside]
    refine Eq.trans ?_ (within_setScope_of_inside base _ inside _)
    rw [List.isEmpty_cons, if_neg Bool.false_ne_true, Phrase.shift_zero]

theorem alike_within_meetClosing (base inner : WholeReader) (ahead other : Text)
    (unescaped : base.scope.text.endsWith CodeUnit.backslash = false)
    (silent : base.opened = [] ∨ (inner.meetClosing other).strays = []) :
    Alike ((base.within inner).meetClosing ahead) (base.within (inner.meetClosing other)) := by
  have resolved := within_resolve base inner unescaped
  cases literal : inner.scope.resolve.2 with
  | true =>
    rw [meetClosing_of_literal inner other literal, ← within_append, ← resolved.2]
    rw [meetClosing_of_literal _ ahead (resolved.1.trans literal)]
    exact .refl _
  | false =>
    rcases inner with ⟨document, opened, strays⟩
    cases opened with
    | nil =>
      -- A stray marker of the inner markup would close a phrase of `base`.
      have base_outside : base.opened = [] := by
        rcases silent with base_outside | silent
        · exact base_outside
        · have structural : (WholeReader.mk document [] strays).document.resolve.2 = false := literal
          obtain ⟨stray, more⟩ := strays_meetStray structural other
          rw [meetClosing, more] at silent
          cases silent
      have around : (base.within ⟨document, [], strays⟩).opened = [] := by
        rw [within_of_outside base _ rfl, setScope, base_outside]
      have stray := alike_within_meetStray base ⟨document, [], strays⟩ ahead other unescaped
        base_outside rfl literal
      rw [meetClosing, around]
      exact stray
    | cons phrase outer =>
      change phrase.scope.resolve.2 = false at literal
      have opened : (base.within ⟨document, phrase :: outer, strays⟩).opened =
          phrase.shift (if outer.isEmpty then base.scope.text.length else 0) ::
            (base.within ⟨document, outer, strays⟩).opened := rfl
      have text (n : Nat) : (phrase.shift n).scope = phrase.scope := rfl
      simp only [meetClosing, opened, text]
      cases Specifier.ofText? phrase.scope.text with
      | some specifier => exact .refl _
      | none =>
        have closed := within_closePhrase base document
          { phrase with scope := phrase.scope.resolve.1 } outer strays
        simp only [literal, Bool.false_eq_true, if_false]
        exact .of_eq closed

theorem alike_within_step (base inner : WholeReader) (u : CodeUnit) (ahead other : Text)
    (unescaped : base.scope.text.endsWith CodeUnit.backslash = false)
    (silent : base.opened = [] ∨ (inner.step u other).strays = []) :
    Alike ((base.within inner).step u ahead) (base.within (inner.step u other)) := by
  unfold step at silent ⊢
  split
  · exact .of_eq (within_append base inner [u])
  · exact .of_eq (within_meetOpening base inner unescaped)
  · next closing =>
    rw [closing] at silent
    exact alike_within_meetClosing base inner ahead other unescaped silent

theorem alike_within_readFront (base inner reader : WholeReader) (markup ahead other : Text)
    (alike : Alike reader (base.within inner))
    (unescaped : base.scope.text.endsWith CodeUnit.backslash = false)
    (silent : base.opened = [] ∨ (inner.readFront other markup).strays = []) :
    Alike (reader.readFront ahead markup) (base.within (inner.readFront other markup)) := by
  induction markup generalizing inner reader with
  | nil => exact alike
  | cons u markup ih =>
    -- What is reported stays reported: if nothing is in the end, nothing is on the way.
    have now : base.opened = [] ∨ (inner.step u (markup ++ other)).strays = [] := by
      refine silent.imp id fun none => ?_
      have kept := strays_suffix_readFront (inner.step u (markup ++ other)) other markup
      rw [readFront] at none
      rw [none] at kept
      exact List.suffix_nil.mp kept
    have step := alike_within_step base inner u (markup ++ ahead) (markup ++ other) unescaped now
    exact ih _ _ ((alike.step u _ _).trans step) silent

theorem endsWith_step (reader : WholeReader) (u : CodeUnit) (ahead : Text)
    (other : u ≠ CodeUnit.backslash) :
    (reader.step u ahead).scope.text.endsWith CodeUnit.backslash = false := by
  unfold step
  split
  · rw [append, scope_setScope, WholeScope.append, Text.endsWith_concat]
    exact beq_eq_false_iff_ne.mpr other
  · simp only [meetOpening]
    split
    · rw [append, scope_setScope]
      exact Text.endsWith_marker _ .opening
    · rfl
  · unfold meetClosing
    split
    · next outside =>
      rw [scope, meetStray, outside]
      exact Text.endsWith_marker _ .closing
    · split
      · rfl
      · simp only
        split
        · rw [append, scope_setScope]
          exact Text.endsWith_marker _ .closing
        · rw [closePhrase, scope_setScope, WholeScope.append, ← List.append_assoc]
          exact Text.endsWith_marker _ .closing

theorem endsWith_readWhole (markup : Text)
    (unescaped : markup.endsWith CodeUnit.backslash = false) :
    (readWhole markup).scope.text.endsWith CodeUnit.backslash = false := by
  rcases List.eq_nil_or_concat' markup with rfl | ⟨front, u, rfl⟩
  · rfl
  · rw [Text.endsWith_concat] at unescaped
    rw [readWhole, read_append, read_cons, read_nil]
    exact endsWith_step _ u [] (beq_eq_false_iff_ne.mp unescaped)

end WholeReader

end AnsiMarkup
