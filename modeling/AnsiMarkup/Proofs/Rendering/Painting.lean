import AnsiMarkup.Painter
import AnsiMarkup.Proofs.Markup.Levels
import AnsiMarkup.Proofs.Rendering.Display
import AnsiMarkup.Proofs.Rendering.Turns

namespace AnsiMarkup

theorem Node.fresh_scopePhrases (nodes : List Node) (start : Nat) :
    ∀ phrase ∈ Phrase.order (scopePhrases start nodes), phrase.Fresh := by
  induction nodes using scope_induction generalizing start with
  | nil => simp [scopePhrases, Phrase.order, Phrase.preorders]
  | unit u rest ih => exact ih _
  | phrase specifier content rest inner outer =>
    rw [scopePhrases, phrases, List.singleton_append, Phrase.order_cons]
    intro phrase member
    rcases List.mem_cons.mp member with rfl | member
    · exact ⟨rfl, rfl⟩
    · rcases List.mem_append.mp member with below | right
      · exact inner 0 phrase below
      · exact outer _ phrase right

theorem fresh_of_parse (markup : Text) (document : Document)
    (parsed : (parse markup).result = .ok document) :
    ∀ phrase ∈ Phrase.order document.phrases, phrase.Fresh := by
  rcases parse_tree markup document parsed with ⟨nodes, rfl, -, -⟩
  exact Node.fresh_scopePhrases nodes 0

theorem result_plain_of_parse (markup : Text) (document : Document)
    (parsed : (parse markup).result = .ok document) :
    (plain markup).result = strip document.text document.phrases := by
  rw [plain, Reported.andThen, parsed]
  rfl

theorem Text.sliceFrom_zero (text : Text) : text.sliceFrom 0 = text := by
  have start : clampIndex text.length 0 = 0 := by simp [clampIndex]
  rw [sliceFrom, start, List.drop_zero]

namespace Painter

theorem result_paint_of_parse (painter : Painter) (markup : Text) (document : Document)
    (parsed : (parse markup).result = .ok document) :
    (painter.paint markup).result = painter.paintDocument document := by
  rw [paint, Reported.andThen, parsed]
  rfl

theorem paintDocument_eq (painter : Painter) (document : Document) :
    painter.paintDocument document =
      let service := Rendering.serveAll painter.table ⟨painter.palette, 0⟩
        (Phrase.order document.phrases)
      let coded := (Rendering.setCodes document.phrases service.codes).1
      (service.result (Rendering.shownAll [] document.text 0 coded)).map
        (⟨·, service.supply.served⟩) := by
  rw [paintDocument]
  split
  · next empty =>
    rw [List.isEmpty_iff.mp empty]
    change Except.ok (⟨document.text, 0⟩ : Painting) = .ok ⟨document.text.sliceFrom 0, 0⟩
    rw [Text.sliceFrom_zero]
  · rw [render_eq]
    rfl

theorem paintDocument_cases (painter : Painter) (document : Document)
    (fresh : ∀ phrase ∈ Phrase.order document.phrases, phrase.Fresh) :
    (∃ styles, painter.palette.Dresses 0 (Phrase.order document.phrases) styles ∧
      painter.paintDocument document =
        .ok ⟨Rendering.shownAll [] document.text 0
            (Rendering.setCodes document.phrases (styles.map painter.table.codeText)).1,
          (Phrase.order document.phrases).countP painter.palette.isSequential⟩) ∨
      ∃ before phrase after styles error,
        Phrase.order document.phrases = before ++ phrase :: after ∧
        painter.palette.Dresses 0 before styles ∧
        painter.palette.Refuses (before.countP painter.palette.isSequential) phrase error ∧
        painter.paintDocument document = .error error := by
  rcases Rendering.serveAll_of_fresh painter.table painter.palette 0 _ fresh with
    ⟨styles, dressed, all⟩ | ⟨before, phrase, after, styles, error, split, dressed, refuses, all⟩
  · refine .inl ⟨styles, dressed, ?_⟩
    rw [paintDocument_eq, all, Nat.zero_add]
    rfl
  · rw [Nat.zero_add] at refuses
    refine .inr ⟨before, phrase, after, styles, error, split, dressed, refuses, ?_⟩
    rw [paintDocument_eq, all]
    rfl

end Painter

/-- A text is painted if all arguments of its phrases name positional styles and no more phrases are
sequential than there are such styles. Then each phrase in document order is displayed in its style,
the one after `n` sequential phrases having the positional style `n` if it is sequential itself.
Otherwise the error is that of the first phrase in this order without a style. -/
theorem paint_in_order (painter : Painter) (markup : Text) (document : Document)
    (parsed : (parse markup).result = .ok document) :
    let palette := painter.palette
    let order := Phrase.order document.phrases
    ((∃ painting, (painter.paint markup).result = .ok painting) ↔
      (∀ phrase ∈ order, ∀ argument ∈ phrase.arguments, palette.Supplies argument) ∧
        order.countP palette.isSequential ≤ palette.positional.length) ∧
    (∀ painting, (painter.paint markup).result = .ok painting →
      painting.served = order.countP palette.isSequential ∧
      ∃ (styles : List Combination) (coded : List Phrase), styles.length = order.length ∧
        (∀ before phrase after, order = before ++ phrase :: after →
          ∃ style, styles[before.length]? = some style ∧
            palette.styleAt (before.countP palette.isSequential) phrase = some style) ∧
        Phrase.uncodedAll coded = document.phrases ∧
        (Phrase.order coded).map Phrase.styleCode =
          styles.map (fun style => some (painter.table.codeText style)) ∧
        painting.output = Rendering.shownAll [] document.text 0 coded) ∧
    ∀ error, (painter.paint markup).result = .error error →
      ∃ before phrase after, order = before ++ phrase :: after ∧
        (∀ front earlier back, before = front ++ earlier :: back →
          (palette.styleAt (front.countP palette.isSequential) earlier).isSome = true) ∧
        palette.styleAt (before.countP palette.isSequential) phrase = none ∧
        palette.Refuses (before.countP palette.isSequential) phrase error ∧
        error.kind = .argument ∧
        (palette.isSequential phrase = true → error.message =
          "Requested " ++ ordinal (Number.ofNat (palette.positional.length + 1)) ++
            " formatting argument for '" ++ phrase.text ++ "' but only " ++
            Text.ofNat palette.positional.length ++ " were supplied!") := by
  intro palette order
  have painted : (painter.paint markup).result = painter.paintDocument document := by
    rw [Painter.paint, Reported.andThen, parsed]
    rfl
  rw [painted]
  have fresh := fresh_of_parse markup document parsed
  -- Either all phrases are dressed, or those before the first that is refused.
  rcases painter.paintDocument_cases document fresh with
    ⟨styles, dressed, done⟩ | ⟨before, phrase, after, styles, error, split, dressed, refuses, failed⟩
  · have room := dressed.countP_le (Nat.zero_le _)
    rw [Nat.zero_add] at room
    rw [done]
    refine ⟨⟨?_, ?_⟩, ?_, ?_⟩
    · intro _
      exact ⟨dressed.supplies, room⟩
    · intro _
      exact ⟨_, rfl⟩
    · intro painting same
      cases same
      refine ⟨rfl, styles, _, dressed.length, ?_, ?_, ?_, rfl⟩
      · intro before phrase after split
        have due := dressed.styleAt before phrase after split
        rwa [Nat.zero_add] at due
      · rw [Rendering.uncodedAll_setCodes]
        exact Phrase.uncodedAll_eq_self _ fun phrase member => (fresh phrase member).uncoded
      · have enough : (styles.map painter.table.codeText).length = Phrase.counts document.phrases := by
          rw [List.length_map, dressed.length, Phrase.length_order]
        rw [Rendering.map_styleCode_setCodes document.phrases _ enough, List.map_map]
        rfl
    · intro error same
      cases same
  · have room := dressed.countP_le (Nat.zero_le _)
    rw [Nat.zero_add] at room
    rw [failed]
    refine ⟨⟨?_, ?_⟩, ?_, ?_⟩
    · rintro ⟨painting, same⟩
      cases same
    · rintro ⟨supplied, enough⟩
      have whole : order = before ++ phrase :: after := split
      rw [whole] at supplied enough
      exact absurd enough (refuses.not_enough after supplied)
    · intro painting same
      cases same
    · intro found same
      cases same
      refine ⟨before, phrase, after, split, ?_, refuses.styleAt_eq_none, refuses, refuses.kind_eq,
        ?_⟩
      · intro front earlier back inner
        rcases dressed.styleAt front earlier back inner with ⟨style, -, due⟩
        rw [Nat.zero_add] at due
        rw [due]
        rfl
      · intro sequential
        rw [refuses.eq_slotsExhausted room sequential]
        rfl

/-- Two sequential phrases, one in the other, take two positional styles. The first `c` has a style of
its own, and the second one that and both positional styles. -/
theorem paint_in_order_nested :
    let painter : Painter := ⟨FlagTable.standard, ⟨[1, 2], [("c", 4)]⟩⟩
    let inner : Phrase := ⟨"b", 1, some 3, [], false, none, []⟩
    let outer : Phrase := ⟨"a<b>", 0, some 5, [], false, none, [inner]⟩
    let always : Phrase := ⟨"c", 6, some 8, [], false, none, []⟩
    let both : Phrase := ⟨"c", 9, some 11, [.finite 0, .finite 1], false, none, []⟩
    (parse "<a<b>><c><0,1>c>").result = .ok ⟨"<a<b>><c><c>", [outer, always, both]⟩ ∧
      ∃ painting, (painter.paint "<a<b>><c><0,1>c>").result = .ok painting ∧ painting.served = 2 ∧
        painting.output =
          "\x1b[1ma\x1b[2mb\x1b[0;1m\x1b[0;m\x1b[3mc\x1b[0;m\x1b[1;2;3mc\x1b[0;m" := by
  intro painter inner outer always both
  have zero : Number.ofIntegerText [48] = .finite 0 := rfl
  have one : Number.ofIntegerText [49] = .finite 1 := by decide +kernel
  have read : (parse "<a<b>><c><0,1>c>").result = .ok ⟨"<a<b>><c><c>", [outer, always,
      { both with arguments := [Number.ofIntegerText [48], Number.ofIntegerText [49]] }]⟩ := rfl
  rw [zero, one] at read
  have parsed : (parse "<a<b>><c><0,1>c>").result =
      .ok ⟨"<a<b>><c><c>", [outer, always, both]⟩ := read
  obtain ⟨succeeds, succeeded, -⟩ := paint_in_order painter _ _ parsed
  have order : Phrase.order [outer, always, both] = [outer, inner, always, both] := rfl
  have sequential : [outer, inner, always, both].countP painter.palette.isSequential = 2 := by decide
  simp only [order, sequential] at succeeds succeeded
  have supplied : ∀ phrase ∈ [outer, inner, always, both], ∀ argument ∈ phrase.arguments,
      painter.palette.Supplies argument := by
    simp only [← Palette.slot?_isSome_iff]
    decide
  obtain ⟨painting, done⟩ := succeeds.mpr ⟨supplied, Nat.le_refl 2⟩
  obtain ⟨served, styles, coded, length, due, bare, codes, output⟩ := succeeded painting done
  refine ⟨parsed, painting, done, served, ?_⟩
  have slot (before : List Phrase) (phrase : Phrase) (after : List Phrase)
      (split : [outer, inner, always, both] = before ++ phrase :: after) :
      styles[before.length]? =
        painter.palette.styleAt (before.countP painter.palette.isSequential) phrase := by
    obtain ⟨style, here, same⟩ := due before phrase after split
    rw [here, same]
  have given : styles = [1, 2, 4, 7] := by
    obtain ⟨a, b, c, d, rfl⟩ := List.length_eq_four.mp length
    have first : a = 1 := Option.some.inj ((slot [] outer [inner, always, both] rfl).trans (by decide))
    have second : b = 2 := Option.some.inj ((slot [outer] inner [always, both] rfl).trans (by decide))
    have third : c = 4 := Option.some.inj ((slot [outer, inner] always [both] rfl).trans (by decide))
    have fourth : d = 7 := Option.some.inj ((slot [outer, inner, always] both [] rfl).trans (by decide))
    rw [first, second, third, fourth]
  have restored := Rendering.setCodes_uncodedAll coded (styles.map painter.table.codeText)
    (by rw [Phrase.codes, codes, List.map_map]; rfl)
  rw [bare, given] at restored
  rw [output, ← restored]
  decide +kernel

end AnsiMarkup
