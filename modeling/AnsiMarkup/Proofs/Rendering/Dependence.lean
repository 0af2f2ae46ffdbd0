import AnsiMarkup.Proofs.Rendering.Painting

/-! What a painted text depends on: the palettes of two runs may differ where no phrase looks, and the
arguments of a phrase count as a set. -/

namespace AnsiMarkup

namespace Number

def SameValues (first second : List Number) : Prop :=
  (∀ a ∈ first, ∃ b ∈ second, a.sameKey b = true) ∧ ∀ b ∈ second, ∃ a ∈ first, a.sameKey b = true

theorem SameValues.refl (numbers : List Number) : SameValues numbers numbers :=
  ⟨fun a member => ⟨a, member, by simp [sameKey]⟩, fun a member => ⟨a, member, by simp [sameKey]⟩⟩

theorem toIndex?_of_sameKey (a b : Number) (same : a.sameKey b = true) : a.toIndex? = b.toIndex? := by
  rw [sameKey, Bool.or_eq_true, Bool.and_eq_true] at same
  rcases same with equal | ⟨left, right⟩
  · rw [eq_of_beq equal]
  · rw [toIndex?, toIndex?, toInt?, toInt?, eq_of_beq left, eq_of_beq right]

theorem SameValues.eq_nil_iff {first second : List Number} (same : SameValues first second) :
    first = [] ↔ second = [] := by
  constructor
  · rintro rfl
    refine List.eq_nil_iff_forall_not_mem.mpr fun b member => ?_
    obtain ⟨a, absurd, -⟩ := same.2 b member
    cases absurd
  · rintro rfl
    refine List.eq_nil_iff_forall_not_mem.mpr fun a member => ?_
    obtain ⟨b, absurd, -⟩ := same.1 a member
    cases absurd

end Number

namespace FlagTable

theorem codeText_congr (table : FlagTable) (a b : Combination)
    (same : ∀ place, a.holds place = b.holds place) : table.codeText a = table.codeText b := by
  rw [codeText, codeText, codes, codes]
  simp only [same]

end FlagTable

namespace Combination

theorem holds_unions_congr (first second : List Combination) (same : ∀ c, c ∈ first ↔ c ∈ second)
    (place : Nat) : (unions first).holds place = (unions second).holds place := by
  rw [holds_unions, holds_unions, Bool.eq_iff_iff, List.any_eq_true, List.any_eq_true]
  simp only [same]

end Combination

namespace Phrase

/-- The same phrase, perhaps with other arguments that are the same numbers, and with other children. -/
structure Readdresses (phrase other : Phrase) : Prop where
  arguments : Number.SameValues phrase.arguments other.arguments
  same : other = { phrase with arguments := other.arguments, children := other.children }

inductive ReaddressesAll : List Phrase → List Phrase → Prop
  | nil : ReaddressesAll [] []
  | cons (phrase other : Phrase) (rest others : List Phrase) (here : phrase.Readdresses other)
      (below : ReaddressesAll phrase.children other.children) (right : ReaddressesAll rest others) :
      ReaddressesAll (phrase :: rest) (other :: others)

variable {phrases others : List Phrase}

theorem ReaddressesAll.order (readdressed : ReaddressesAll phrases others) :
    List.Forall₂ Readdresses (order phrases) (order others) := by
  induction readdressed with
  | nil => exact .nil
  | cons phrase other rest others here below right inner outer =>
    rw [order_cons, order_cons]
    exact .cons here (List.rel_append inner outer)

theorem Readdresses.refl (phrase : Phrase) : phrase.Readdresses phrase := by
  refine ⟨.refl phrase.arguments, ?_⟩
  cases phrase
  rfl

theorem Readdresses.fresh {phrase other : Phrase} (readdressed : phrase.Readdresses other)
    (fresh : phrase.Fresh) : other.Fresh := by
  rw [readdressed.same]
  exact ⟨fresh.closed, fresh.uncoded⟩

theorem ReaddressesAll.fresh (readdressed : ReaddressesAll phrases others)
    (all : ∀ phrase ∈ Phrase.order phrases, phrase.Fresh) :
    ∀ phrase ∈ Phrase.order others, phrase.Fresh := by
  induction readdressed with
  | nil => exact all
  | cons phrase other rest others here below right inner outer =>
    rw [order_cons, List.forall_mem_cons, List.forall_mem_append] at all ⊢
    exact ⟨here.fresh all.1, inner all.2.1, outer all.2.2⟩

theorem ReaddressesAll.refl (phrases : List Phrase) : ReaddressesAll phrases phrases := by
  induction phrases using forest_induction with
  | nil => exact .nil
  | cons phrase rest below right =>
    exact .cons phrase phrase rest rest (.refl phrase) below right

theorem ReaddressesAll.counts_eq (readdressed : ReaddressesAll phrases others) :
    counts phrases = counts others := by
  rw [← length_order, ← length_order]
  exact readdressed.order.length_eq

end Phrase

theorem Rendering.shownAll_of_readdressesAll {phrases others : List Phrase}
    (readdressed : Phrase.ReaddressesAll phrases others) (around text : Text) (last : Int)
    (codes : List Text) (enough : codes.length = Phrase.counts phrases)
    (closed : ∀ phrase ∈ Phrase.order phrases, phrase.closeIndex.isSome = true) :
    shownAll around text last (setCodes others codes).1 =
      shownAll around text last (setCodes phrases codes).1 := by
  induction readdressed generalizing around text last codes with
  | nil => rfl
  | cons phrase other rest others here below right inner outer =>
    -- Both forests have as many phrases, so the codes are split at the same places.
    obtain ⟨code, front, back, rfl, front_length, back_length⟩ :=
      exists_codes_split phrase rest codes enough
    rw [Phrase.order_cons, List.forall_mem_cons, List.forall_mem_append] at closed
    obtain ⟨close, shut⟩ := Option.isSome_iff_exists.mp closed.1
    have other_shut : other.closeIndex = some close := by rw [here.same]; exact shut
    have other_text : other.text = phrase.text := by rw [here.same]
    have other_open : other.openIndex = phrase.openIndex := by rw [here.same]
    rw [shownAll_setCodes_cons _ _ _ _ _ close other_shut _ _ _ (by rw [← below.counts_eq, front_length]),
      shownAll_setCodes_cons _ _ _ _ _ close shut _ _ _ front_length, other_text, other_open,
      inner _ _ _ front front_length closed.2.1, outer _ _ _ back back_length closed.2.2]

namespace Palette

/-- What a phrase can look up in a palette is there in the other one as well. -/
structure Serves (palette other : Palette) (phrase : Phrase) : Prop where
  positional : palette.positional <+: other.positional
  always : ¬(phrase.arguments ≠ [] ∧ phrase.overrideAlways = true) →
    other.always.get? phrase.text = palette.always.get? phrase.text

theorem slot?_of_further {palette other : Palette} (further : palette.positional <+: other.positional)
    (a b : Number) (same : a.sameKey b = true) (style : Combination)
    (found : palette.slot? a = some style) : other.slot? b = some style := by
  rw [slot?, Option.bind_eq_some_iff] at found ⊢
  obtain ⟨i, index, slot⟩ := found
  obtain ⟨bound, -⟩ := List.getElem?_eq_some_iff.mp slot
  obtain ⟨more, whole⟩ := further
  refine ⟨i, (Number.toIndex?_of_sameKey a b same).symm.trans index, ?_⟩
  rw [← whole, List.getElem?_append_left bound, slot]

theorem mem_slots_iff {palette other : Palette} (further : palette.positional <+: other.positional)
    {first second : List Number} (same : Number.SameValues first second)
    (supplied : ∀ a ∈ first, (palette.slot? a).isSome = true) (style : Combination) :
    style ∈ second.filterMap other.slot? ↔ style ∈ first.filterMap palette.slot? := by
  rw [List.mem_filterMap, List.mem_filterMap]
  constructor
  · rintro ⟨b, member, found⟩
    obtain ⟨a, inside, key⟩ := same.2 b member
    obtain ⟨own, slot⟩ := Option.isSome_iff_exists.mp (supplied a inside)
    rw [slot?_of_further further a b key own slot] at found
    exact ⟨a, inside, slot.trans found⟩
  · rintro ⟨a, member, found⟩
    obtain ⟨b, inside, key⟩ := same.1 a member
    exact ⟨b, inside, slot?_of_further further a b key style found⟩

theorem isSome_slot?_of_sameValues {palette other : Palette}
    (further : palette.positional <+: other.positional) {first second : List Number}
    (same : Number.SameValues first second)
    (supplied : ∀ a ∈ first, (palette.slot? a).isSome = true) :
    ∀ b ∈ second, (other.slot? b).isSome = true := by
  intro b member
  obtain ⟨a, inside, key⟩ := same.2 b member
  obtain ⟨style, slot⟩ := Option.isSome_iff_exists.mp (supplied a inside)
  rw [slot?_of_further further a b key style slot]
  rfl

variable {palette other : Palette} {phrase changed : Phrase}

theorem Serves.isSequential_eq (serves : palette.Serves other phrase)
    (readdressed : phrase.Readdresses changed) :
    other.isSequential changed = palette.isSequential phrase := by
  have text : changed.text = phrase.text := by rw [readdressed.same]
  rw [Bool.eq_iff_iff, isSequential_iff, isSequential_iff, text, ← readdressed.arguments.eq_nil_iff]
  refine and_congr_right fun empty => ?_
  rw [serves.always fun combined => combined.1 empty]

theorem Serves.styleAt (serves : palette.Serves other phrase)
    (readdressed : phrase.Readdresses changed) (served : Nat) (style : Combination)
    (due : palette.styleAt served phrase = some style) :
    ∃ same, other.styleAt served changed = some same ∧
      ∀ place, same.holds place = style.holds place := by
  have text : changed.text = phrase.text := by rw [readdressed.same]
  have overrides : changed.overrideAlways = phrase.overrideAlways := by rw [readdressed.same]
  have empty_iff := readdressed.arguments.eq_nil_iff
  by_cases empty : phrase.arguments = []
  · rw [Palette.styleAt, if_pos empty] at due
    rw [Palette.styleAt, if_pos (empty_iff.mp empty), text,
      serves.always fun combined => combined.1 empty]
    refine ⟨style, ?_, fun _ => rfl⟩
    cases always : palette.always.get? phrase.text with
    | some own => rwa [always] at due
    | none =>
      rw [always, Option.none_or] at due
      rw [Option.none_or]
      obtain ⟨bound, -⟩ := List.getElem?_eq_some_iff.mp due
      obtain ⟨more, whole⟩ := serves.positional
      rw [← whole, List.getElem?_append_left bound, due]
  · rw [Palette.styleAt, if_neg empty] at due
    split at due
    · next all =>
      rw [Option.some_inj] at due
      have supplied := List.all_eq_true.mp all
      have also := isSome_slot?_of_sameValues serves.positional readdressed.arguments supplied
      rw [Palette.styleAt, if_neg (mt empty_iff.mpr empty), if_pos (List.all_eq_true.mpr also)]
      refine ⟨_, rfl, ?_⟩
      rw [← due]
      apply Combination.holds_unions_congr
      intro c
      have slots := mem_slots_iff serves.positional readdressed.arguments supplied c
      rw [named, named, List.mem_append, List.mem_append, slots, overrides, text]
      cases overridden : phrase.overrideAlways with
      | true => rfl
      | false => rw [serves.always fun combined => by simp [overridden] at combined]
    · cases due

/-- Two runs over phrases that differ in their arguments only keep step: what the first one serves, the
second one serves in the same codes. -/
theorem Dresses.readdress {served : Nat} {phrases others : List Phrase} {styles : List Combination}
    (table : FlagTable) (dressed : palette.Dresses served phrases styles)
    (readdressed : List.Forall₂ Phrase.Readdresses phrases others)
    (serves : ∀ phrase ∈ phrases, palette.Serves other phrase) :
    (∃ same, other.Dresses served others same ∧
      same.map table.codeText = styles.map table.codeText) ∧
      others.countP other.isSequential = phrases.countP palette.isSequential := by
  induction dressed generalizing others with
  | nil served =>
    cases readdressed
    exact ⟨⟨[], .nil served, rfl⟩, rfl⟩
  | cons served phrase rest style styles due later ih =>
    cases readdressed with
    | cons here right =>
      next changed others =>
      obtain ⟨serves_here, serves_later⟩ := List.forall_mem_cons.mp serves
      have turn := serves_here.isSequential_eq here
      obtain ⟨own, due_own, flags⟩ := serves_here.styleAt here served style due
      obtain ⟨⟨same, dressed, codes⟩, count⟩ := ih right serves_later
      constructor
      · refine ⟨own :: same, .cons served changed others own same due_own ?_, ?_⟩
        · rw [turn]
          exact dressed
        · rw [List.map_cons, List.map_cons, codes, table.codeText_congr own style flags]
      · rw [List.countP_cons, List.countP_cons, count, turn]

end Palette

theorem Rendering.serveAll_of_dresses (table : FlagTable) {palette : Palette} {served : Nat}
    {phrases : List Phrase} {styles : List Combination}
    (dressed : palette.Dresses served phrases styles)
    (fresh : ∀ phrase ∈ phrases, phrase.Fresh) :
    serveAll table ⟨palette, served⟩ phrases =
      ⟨styles.map table.codeText, none,
        ⟨palette, served + phrases.countP palette.isSequential⟩⟩ := by
  induction dressed with
  | nil served => rfl
  | cons served phrase rest style styles due later ih =>
    obtain ⟨here, right⟩ := List.forall_mem_cons.mp fresh
    have step := serve_of_fresh table ⟨palette, served⟩ phrase here
    rw [Supply.combination_run_of_style palette served phrase style due] at step
    have all := ih right
    rw [Palette.countP_turn] at all
    rw [serveAll, step]
    simp only [Prod.map, Except.map, id, all, List.map_cons]

/-- A painted text is painted the same with further positional styles, and with any other styles for
texts that no phrase looks up: those of phrases with arguments that override them. Nor does it matter
in which order and how often a phrase has its arguments. -/
theorem paint_eq_of_agree (painter : Painter) (markup : Text) (document : Document)
    (parsed : (parse markup).result = .ok document) (painting : Painting)
    (painted : (painter.paint markup).result = .ok painting) (more : List Combination)
    (always : Entries Combination)
    (agree : ∀ phrase ∈ Phrase.order document.phrases,
      ¬(phrase.arguments ≠ [] ∧ phrase.overrideAlways = true) →
        always.get? phrase.text = painter.palette.always.get? phrase.text) :
    let other : Painter := ⟨painter.table, ⟨painter.palette.positional ++ more, always⟩⟩
    (other.paint markup).result = .ok painting ∧
    ∀ phrases, Phrase.ReaddressesAll document.phrases phrases →
      other.paintDocument ⟨document.text, phrases⟩ = .ok painting ∧
      ∀ again : Text, (parse again).result = .ok ⟨document.text, phrases⟩ →
        (other.paint again).result = .ok painting := by
  intro other
  rw [painter.result_paint_of_parse markup document parsed] at painted
  have fresh := fresh_of_parse markup document parsed
  have serves : ∀ phrase ∈ Phrase.order document.phrases,
      painter.palette.Serves other.palette phrase := by
    intro phrase member
    exact ⟨List.prefix_append _ _, agree phrase member⟩
  have alike (phrases : List Phrase) (changed : Phrase.ReaddressesAll document.phrases phrases) :
      other.paintDocument ⟨document.text, phrases⟩ = .ok painting := by
    rcases painter.paintDocument_cases document fresh with
      ⟨styles, dressed, done⟩ | ⟨before, phrase, after, styles, error, -, -, -, failed⟩
    · rw [done, Except.ok.injEq] at painted
      obtain ⟨⟨same, dressed_same, codes⟩, count⟩ :=
        dressed.readdress painter.table changed.order serves
      have enough : (styles.map painter.table.codeText).length = Phrase.counts document.phrases := by
        rw [List.length_map, dressed.length, Phrase.length_order]
      have closed := fun phrase member => (fresh phrase member).closed
      rw [Painter.paintDocument_eq,
        Rendering.serveAll_of_dresses _ dressed_same (changed.fresh fresh)]
      simp only [Service.result, Except.map]
      rw [codes, count, Nat.zero_add,
        Rendering.shownAll_of_readdressesAll changed _ _ _ _ enough closed, painted]
    · rw [failed] at painted
      cases painted
  constructor
  · rw [other.result_paint_of_parse markup document parsed]
    exact alike document.phrases (.refl document.phrases)
  · intro phrases changed
    refine ⟨alike phrases changed, ?_⟩
    intro again parsed_again
    rw [other.result_paint_of_parse again _ parsed_again]
    exact alike phrases changed

/-- With one more positional style, another style for a text whose phrase overrides it, and the arguments
of that phrase in another order, the same is painted. -/
theorem paint_eq_of_agree_reordered :
    let table : FlagTable := ⟨[⟨"format", [⟨"bold", .finite 1, 0⟩, ⟨"dim", .finite 2, 1⟩]⟩]⟩
    let a : Phrase := ⟨"a", 0, some 2, [.finite 0, .finite 1], true, none, []⟩
    let b : Phrase := ⟨"b", 3, some 5, [], false, none, []⟩
    let again : Phrase := { a with arguments := [.finite 1, .finite 0, .finite 1] }
    let painter : Painter := ⟨table, ⟨[1, 2], [("a", 2)]⟩⟩
    (parse "<0,1!>a><b>").result = .ok ⟨"<a><b>", [a, b]⟩ ∧
      (parse "<1,0,1!>a><b>").result = .ok ⟨"<a><b>", [again, b]⟩ ∧
      ∃ painting, (painter.paint "<0,1!>a><b>").result = .ok painting ∧
        (Painter.paint ⟨table, ⟨[1, 2, 3], [("a", 1)]⟩⟩ "<1,0,1!>a><b>").result = .ok painting := by
  intro table a b again painter
  have zero : Number.ofIntegerText [48] = .finite 0 := rfl
  have one : Number.ofIntegerText [49] = .finite 1 := by decide +kernel
  have parsed : (parse "<0,1!>a><b>").result = .ok ⟨"<a><b>", [{ a with
      arguments := [Number.ofIntegerText [48], Number.ofIntegerText [49]] }, b]⟩ := rfl
  have parsed_again : (parse "<1,0,1!>a><b>").result = .ok ⟨"<a><b>", [{ a with
      arguments := [Number.ofIntegerText [49], Number.ofIntegerText [48], Number.ofIntegerText [49]] },
      b]⟩ := rfl
  rw [zero, one] at parsed parsed_again
  have painted : ∃ painting, (painter.paint "<0,1!>a><b>").result = .ok painting := by
    rw [painter.result_paint_of_parse _ _ parsed, Painter.paintDocument_eq]
    exact ⟨_, rfl⟩
  obtain ⟨painting, painted⟩ := painted
  have agree : ∀ phrase ∈ Phrase.order [a, b],
      ¬(phrase.arguments ≠ [] ∧ phrase.overrideAlways = true) →
        Entries.get? phrase.text [(("a" : Text), (1 : Combination))] =
          painter.palette.always.get? phrase.text := by
    have order : Phrase.order [a, b] = [a, b] := rfl
    rw [order, List.forall_mem_cons, List.forall_mem_singleton]
    refine ⟨?_, fun _ => rfl⟩
    intro free
    exact absurd ⟨by simp [a], rfl⟩ free
  have depends := paint_eq_of_agree painter _ _ parsed painting painted [3] [("a", 1)] agree
  have reordered : Phrase.ReaddressesAll [a, b] [again, b] := by
    refine .cons a again [b] [b] ⟨?_, rfl⟩ .nil (.refl [b])
    constructor <;> simp [a, again, Number.sameKey]
  exact ⟨parsed, parsed_again, painting, painted,
    (depends.2 [again, b] reordered).2 _ parsed_again⟩

end AnsiMarkup
