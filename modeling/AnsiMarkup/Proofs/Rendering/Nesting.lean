import AnsiMarkup.Proofs.Rendering.ActiveCodes

namespace AnsiMarkup

namespace Painter.Paints

variable {painter : Painter} {markup : Text} {painting : Painting} {document : Document}
  {styles : List Combination}

theorem active_output (paints : painter.Paints markup painting document styles)
    (coded : painter.table.Coded) :
    Terminal.active (Terminal.tokens painting.output) =
      Part.active (fun phrase => painter.table.codeSet (styleOf styles phrase)) document.parts := by
  rw [paints.tokens, Part.active_tokens coded]

theorem activeAfter_output (paints : painter.Paints markup painting document styles)
    (coded : painter.table.Coded) (n : Nat) :
    Terminal.activeAfter n painting.output =
      Part.active (fun phrase => painter.table.codeSet (styleOf styles phrase))
        (document.parts.take n) := by
  rw [Terminal.activeAfter, paints.tokens, ← List.map_take, Part.active_tokens coded]

theorem document_eq (paints : painter.Paints markup painting document styles) {other : Document}
    (parsed : (parse markup).result = .ok other) : document = other :=
  Except.ok.inj (paints.parsed.symm.trans parsed)

theorem styleOf_eq (paints : painter.Paints markup painting document styles) (before : List Phrase)
    (phrase : Phrase) (after : List Phrase)
    (split : Phrase.order document.phrases = before ++ phrase :: after) {due : Combination}
    (served : painter.palette.styleAt (before.countP painter.palette.isSequential) phrase = some due) :
    styleOf styles (some before.length) = due := by
  obtain ⟨style, place, same⟩ := paints.dressed.styleAt before phrase after split
  rw [Nat.zero_add, served] at same
  rw [styleOf_some place, Option.some.inj same]

theorem exists_style (paints : painter.Paints markup painting document styles) (phrase : Nat)
    (around : Option Nat) (opens : .opening phrase around ∈ document.parts) :
    ∃ style, styles[phrase]? = some style := by
  have bound := document.leavesOpen_parts.2 phrase around opens
  rw [← paints.length] at bound
  exact ⟨_, List.getElem?_eq_getElem bound⟩

theorem activeAfter_outside (paints : painter.Paints markup painting document styles)
    (coded : painter.table.Coded) (n : Nat) (part : Part) (found : document.parts[n]? = some part)
    (outside : part.inside = none) : Terminal.activeAfter n painting.output = ∅ := by
  obtain ⟨outer, before, innermost⟩ := document.leavesOpen_parts.1.before n part found
  rw [outside] at innermost
  rw [paints.activeAfter_output coded]
  exact before.active_outside _ (codeSet_styleOf_none _ _) (List.head?_eq_none_iff.mp innermost)

theorem activeAfter_closing (paints : painter.Paints markup painting document styles)
    (coded : painter.table.Coded) (n phrase : Nat) (around : Option Nat)
    (found : document.parts[n]? = some (.closing phrase around)) :
    Terminal.activeAfter (n + 1) painting.output =
      painter.table.codeSet (styleOf styles around) := by
  rw [paints.activeAfter_output coded, List.take_add_one, found, Option.toList_some,
    Part.active_concat]
  rfl

end Painter.Paints

/-- On a table with positive codes styles stay inside their phrases: no code is active at a unit that
lies in no phrase, nor at the end, and behind a phrase in another one exactly the codes of the other
one's own style are. -/
theorem styles_stay_inside (specs : List CategorySpec) (painter : Painter)
    (declared : FlagTable.ofSpecs specs = .ok painter.table)
    (codes : ∀ category ∈ specs, ∀ flag ∈ category.flags, flag.code.IsCode) (markup : Text)
    (clean : Terminal.escape ∉ markup) (painting : Painting)
    (painted : (painter.paint markup).result = .ok painting) :
    ∃ document styles, painter.Paints markup painting document styles ∧
      (∀ n u, document.parts[n]? = some (.literal u none) →
        Terminal.activeAfter n painting.output = ∅) ∧
      Terminal.active (Terminal.tokens painting.output) = ∅ ∧
      ∀ n phrase around, document.parts[n]? = some (.closing phrase (some around)) →
        ∃ style, styles[around]? = some style ∧
          Terminal.activeAfter (n + 1) painting.output = painter.table.codeSet style := by
  have coded := FlagTable.coded_of_ofSpecs specs painter.table declared codes
  obtain ⟨document, styles, paints⟩ := painter.exists_paints coded markup clean painting painted
  refine ⟨document, styles, paints, ?_, ?_, ?_⟩
  · intro n u found
    exact paints.activeAfter_outside coded n _ found rfl
  · rw [paints.active_output coded]
    exact document.leavesOpen_parts.1.active_outside _ (codeSet_styleOf_none _ _) rfl
  · intro n phrase around found
    have ends := List.mem_of_getElem? found
    obtain ⟨outer, opens⟩ :=
      document.leavesOpen_parts.1.exists_opening_of_closing phrase around ends
    obtain ⟨style, styled⟩ := paints.exists_style around outer opens
    refine ⟨style, styled, ?_⟩
    rw [paints.activeAfter_closing coded n phrase _ found, styleOf_some styled]

/-- Behind `b` only bold is active again, and nothing is behind `c`. -/
theorem styles_stay_inside_nested :
    ∃ painting,
      (Painter.paint ⟨FlagTable.standard, ⟨[1, 1024], []⟩⟩ "<a<b>c>d").result = .ok painting ∧
      Terminal.activeAfter 5 painting.output = {1} ∧
      Terminal.activeAfter 7 painting.output = ∅ ∧
      Terminal.active (Terminal.tokens painting.output) = ∅ := by
  have declared := FlagTable.ofSpecs_standardSpecs
  have code : FlagTable.standard.codeSet 1 = {1} := by decide +kernel
  -- No more is to be known of the table, and it is costly to unfold.
  generalize FlagTable.standard = table at declared code ⊢
  let inner : Phrase := ⟨"b", 1, some 3, [], false, none, []⟩
  let outer : Phrase := ⟨"a<b>c", 0, some 6, [], false, none, [inner]⟩
  have parsed : (parse "<a<b>c>d").result = .ok ⟨"<a<b>c>d", [outer]⟩ := rfl
  have painted : ∃ painting,
      (Painter.paint ⟨table, ⟨[1, 1024], []⟩⟩ "<a<b>c>d").result = .ok painting := by
    rw [Painter.result_paint_of_parse _ _ _ parsed, Painter.paintDocument_eq]
    exact ⟨_, rfl⟩
  obtain ⟨painting, painted⟩ := painted
  obtain ⟨document, styles, paints, outside, final, behind⟩ :=
    styles_stay_inside FlagTable.standardSpecs ⟨table, ⟨[1, 1024], []⟩⟩ declared
      FlagTable.isCode_standardSpecs "<a<b>c>d" (by decide) painting painted
  cases paints.document_eq parsed
  obtain ⟨style, styled, codes⟩ := behind 4 1 0 rfl
  have bold : style = 1 :=
    (styleOf_some styled).symm.trans (paints.styleOf_eq [] outer [inner] rfl rfl)
  subst bold
  exact ⟨painting, painted, codes.trans code, outside 7 100 rfl, final⟩

/-- At a unit directly in a phrase the codes are those of the phrase's own style if another phrase
ended directly in it before. Otherwise they are joined to those that were active around the phrase,
unless it has none of its own. So two such units are displayed alike if a phrase ended directly in
theirs before both or before neither, or if the own codes of theirs are none or hold all that were
active around it, as they do where no phrase is around it; and in no other case. -/
theorem displayed_alike_iff (painter : Painter) (coded : painter.table.Coded) (markup : Text)
    (clean : Terminal.escape ∉ markup) (painting : Painting)
    (painted : (painter.paint markup).result = .ok painting) :
    ∃ document styles, painter.Paints markup painting document styles ∧
      ∀ phrase start around, document.parts[start]? = some (.opening phrase around) →
        ∃ style, styles[phrase]? = some style ∧
          let own := painter.table.codeSet style
          let outer := Terminal.activeAfter start painting.output
          (around = none → outer = ∅) ∧
          (∀ n u, document.parts[n]? = some (.literal u (some phrase)) →
            (Part.Interrupted phrase (document.parts.take n) →
              Terminal.activeAfter n painting.output = own) ∧
            (¬Part.Interrupted phrase (document.parts.take n) →
              Terminal.activeAfter n painting.output = if own = ∅ then ∅ else own ∪ outer)) ∧
          ∀ first second u v, first ≤ second →
            document.parts[first]? = some (.literal u (some phrase)) →
            document.parts[second]? = some (.literal v (some phrase)) →
            (Terminal.activeAfter first painting.output =
                Terminal.activeAfter second painting.output ↔
              Part.Interrupted phrase (document.parts.take first) ∨
                ¬Part.Interrupted phrase (document.parts.take second) ∨ own = ∅ ∨ outer ⊆ own) := by
  obtain ⟨document, styles, paints⟩ := painter.exists_paints coded markup clean painting painted
  refine ⟨document, styles, paints, ?_⟩
  intro phrase start around opens
  obtain ⟨style, styled⟩ := paints.exists_style phrase around (List.mem_of_getElem? opens)
  have nested := document.leavesOpen_parts.1
  refine ⟨style, styled, ?_, ?_, ?_⟩
  · intro outside
    exact paints.activeAfter_outside coded start _ opens outside
  · intro n u found
    rw [paints.activeAfter_output coded n, paints.activeAfter_output coded start,
      ← styleOf_some styled]
    exact nested.active_literal _ opens n u found
  · intro first second u v order here there
    rw [paints.activeAfter_output coded first, paints.activeAfter_output coded second,
      paints.activeAfter_output coded start, ← styleOf_some styled]
    exact nested.active_literals_eq_iff _ opens first second order u v here there

/-- A phrase outside all others looks the same before and after the first phrase in it. -/
theorem displayed_alike_iff_nested :
    ∃ painting,
      (Painter.paint ⟨FlagTable.standard, ⟨[1, 1024], []⟩⟩ "<a<b>c>").result = .ok painting ∧
      Terminal.activeAfter 1 painting.output = Terminal.activeAfter 5 painting.output := by
  have coded := FlagTable.coded_standard
  generalize FlagTable.standard = table at coded ⊢
  let inner : Phrase := ⟨"b", 1, some 3, [], false, none, []⟩
  let outer : Phrase := ⟨"a<b>c", 0, some 6, [], false, none, [inner]⟩
  have parsed : (parse "<a<b>c>").result = .ok ⟨"<a<b>c>", [outer]⟩ := rfl
  have painted : ∃ painting,
      (Painter.paint ⟨table, ⟨[1, 1024], []⟩⟩ "<a<b>c>").result = .ok painting := by
    rw [Painter.result_paint_of_parse _ _ _ parsed, Painter.paintDocument_eq]
    exact ⟨_, rfl⟩
  obtain ⟨painting, painted⟩ := painted
  obtain ⟨document, styles, paints, phrases⟩ :=
    displayed_alike_iff ⟨table, ⟨[1, 1024], []⟩⟩ coded "<a<b>c>" (by decide) painting painted
  cases paints.document_eq parsed
  obtain ⟨style, -, outside, -, alike⟩ := phrases 0 0 none rfl
  refine ⟨painting, painted, (alike 1 5 97 99 (by decide) rfl rfl).mpr (.inr (.inr (.inr ?_)))⟩
  rw [outside rfl]
  exact Finset.empty_subset _

/-- Three phrases in one another, bold, red and underlined: `b` and `d` lie directly in the same one,
but only `b` is bold as well as red. -/
theorem not_displayed_alike :
    Palette.ofInputs FlagTable.standard [.text "bold", .text "red", .text "underline"] =
      .ok ⟨[1, 1024, 8], []⟩ ∧
    Terminal.escape ∉ ("<a<b<c>d>>" : Text) ∧
    ∃ document painting, (parse "<a<b<c>d>>").result = .ok document ∧
      (Painter.paint ⟨FlagTable.standard, ⟨[1, 1024, 8], []⟩⟩ "<a<b<c>d>>").result =
        .ok painting ∧
      document.parts[3]? = some (.literal 98 (some 1)) ∧
      document.parts[7]? = some (.literal 100 (some 1)) ∧
      Terminal.activeAfter 3 painting.output = {1, 31} ∧
      Terminal.activeAfter 7 painting.output = {31} ∧
      Terminal.activeAfter 3 painting.output ≠ Terminal.activeAfter 7 painting.output := by
  have declared : Palette.ofInputs FlagTable.standard
      [.text "bold", .text "red", .text "underline"] = .ok ⟨[1, 1024, 8], []⟩ := by decide +kernel
  have codes : FlagTable.standard.codeSet 1 = {1} ∧ FlagTable.standard.codeSet 1024 = {31} := by
    decide +kernel
  have coded := FlagTable.coded_standard
  generalize FlagTable.standard = table at declared codes coded ⊢
  let inner : Phrase := ⟨"c", 1, some 3, [], false, none, []⟩
  let middle : Phrase := ⟨"b<c>d", 1, some 7, [], false, none, [inner]⟩
  let outer : Phrase := ⟨"a<b<c>d>", 0, some 9, [], false, none, [middle]⟩
  have parsed : (parse "<a<b<c>d>>").result = .ok ⟨"<a<b<c>d>>", [outer]⟩ := rfl
  have clean : Terminal.escape ∉ ("<a<b<c>d>>" : Text) := by decide
  have painted : ∃ painting,
      (Painter.paint ⟨table, ⟨[1, 1024, 8], []⟩⟩ "<a<b<c>d>>").result = .ok painting := by
    rw [Painter.result_paint_of_parse _ _ _ parsed, Painter.paintDocument_eq]
    exact ⟨_, rfl⟩
  obtain ⟨painting, painted⟩ := painted
  obtain ⟨document, styles, paints⟩ := Painter.exists_paints _ coded _ clean painting painted
  cases paints.document_eq parsed
  have bold : styleOf styles (some 0) = 1 := paints.styleOf_eq [] outer [middle, inner] rfl rfl
  have red : styleOf styles (some 1) = 1024 := paints.styleOf_eq [outer] middle [inner] rfl rfl
  have before : Terminal.activeAfter 3 painting.output = {1, 31} := by
    rw [paints.activeAfter_output coded]
    change Part.active _ [.opening 0 none, .literal 97 (some 0), .opening 1 (some 0)] = _
    simp only [Part.active, List.foldl_cons, List.foldl_nil, Part.apply, bold, red, codes]
    decide
  have behind : Terminal.activeAfter 7 painting.output = {31} := by
    rw [paints.activeAfter_closing coded 6 2 (some 1) rfl, red]
    exact codes.2
  refine ⟨declared, clean, _, painting, parsed, painted, rfl, rfl, before, behind, ?_⟩
  rw [before, behind]
  decide

end AnsiMarkup
