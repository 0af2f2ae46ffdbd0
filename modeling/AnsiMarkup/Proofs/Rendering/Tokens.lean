import AnsiMarkup.Proofs.FlagTable.Codes
import AnsiMarkup.Proofs.Markup.Conservation
import AnsiMarkup.Proofs.Rendering.Painting
import AnsiMarkup.Proofs.Rendering.Parts

namespace AnsiMarkup

theorem Node.text_subset_of_mem_order (nodes : List Node) (start : Nat) :
    ∀ phrase ∈ Phrase.order (scopePhrases start nodes), phrase.text ⊆ scopeText nodes := by
  induction nodes using scope_induction generalizing start with
  | nil => simp [scopePhrases, Phrase.order, Phrase.preorders]
  | unit u rest ih =>
    intro phrase member
    exact List.subset_append_of_subset_right [u] (ih _ phrase member)
  | phrase specifier content rest inner outer =>
    have held : scopeText content ⊆ scopeText (.phrase specifier content :: rest) := by
      rw [scopeText, text]
      exact List.subset_append_of_subset_left _ (List.subset_append_of_subset_left _
        (List.subset_append_right _ _))
    rw [scopePhrases, phrases, List.singleton_append, Phrase.order_cons]
    intro phrase member
    rcases List.mem_cons.mp member with rfl | member
    · exact held
    · rcases List.mem_append.mp member with below | right
      · exact List.Subset.trans (inner 0 phrase below) held
      · exact List.subset_append_of_subset_right _ (outer _ phrase right)

theorem text_subset_of_parse (markup : Text) (document : Document)
    (parsed : (parse markup).result = .ok document) :
    ∀ phrase ∈ Phrase.order document.phrases, phrase.text ⊆ document.text := by
  rcases parse_tree markup document parsed with ⟨nodes, rfl, -, -⟩
  exact Node.text_subset_of_mem_order nodes 0

theorem escape_not_mem_of_parse (markup : Text) (clean : Terminal.escape ∉ markup)
    (document : Document) (parsed : (parse markup).result = .ok document) :
    Terminal.escape ∉ document.text := by
  rw [← List.count_eq_zero] at clean ⊢
  rw [count_text_of_parse CodeUnit.isInert_escape markup document parsed, clean]

def styleOf (styles : List Combination) (phrase : Option Nat) : Combination :=
  (phrase.bind (styles[·]?)).getD 0

theorem styleOf_none (styles : List Combination) : styleOf styles none = 0 := rfl

theorem codeSet_styleOf_none (table : FlagTable) (styles : List Combination) :
    table.codeSet (styleOf styles none) = ∅ := by
  rw [styleOf_none, FlagTable.codeSet_zero]

theorem styleOf_some {styles : List Combination} {number : Nat} {style : Combination}
    (found : styles[number]? = some style) : styleOf styles (some number) = style := by
  rw [styleOf, Option.bind_some, found, Option.getD_some]

theorem map_styleOf_range' (styles : List Combination) :
    (List.range' 0 styles.length).map (fun number => styleOf styles (some number)) = styles := by
  refine List.ext_getElem (by simp) ?_
  intro i _ bound
  rw [List.getElem_map, List.getElem_range', Nat.zero_add, Nat.one_mul]
  exact styleOf_some (List.getElem?_eq_getElem bound)

namespace Painter

/-- The painting shows the parts of the document that the markup stands for, the phrases of which
have these styles in document order. -/
structure Paints (painter : Painter) (markup : Text) (painting : Painting) (document : Document)
    (styles : List Combination) : Prop where
  parsed : (parse markup).result = .ok document
  dressed : painter.palette.Dresses 0 (Phrase.order document.phrases) styles
  tokens : Terminal.tokens painting.output =
    document.parts.map (Part.token fun phrase => painter.table.codeText (styleOf styles phrase))

theorem Paints.length {painter : Painter} {markup : Text} {painting : Painting}
    {document : Document} {styles : List Combination}
    (paints : painter.Paints markup painting document styles) :
    styles.length = Phrase.counts document.phrases := by
  rw [paints.dressed.length, Phrase.length_order]

theorem exists_paints (painter : Painter) (coded : painter.table.Coded) (markup : Text)
    (clean : Terminal.escape ∉ markup) (painting : Painting)
    (painted : (painter.paint markup).result = .ok painting) :
    ∃ document styles, painter.Paints markup painting document styles := by
  obtain ⟨document, parsed, painted⟩ := exists_of_bind_eq_ok _ _ _ painted
  have fresh := fresh_of_parse markup document parsed
  have text_clean := escape_not_mem_of_parse markup clean document parsed
  rcases painter.paintDocument_cases document fresh with
    ⟨styles, dressed, done⟩ | ⟨before, phrase, after, styles, error, -, -, -, failed⟩
  · rw [done] at painted
    cases painted
    refine ⟨document, styles, parsed, dressed, ?_⟩
    have length : styles.length = Phrase.counts document.phrases := by
      rw [dressed.length, Phrase.length_order]
    have codes : styles.map painter.table.codeText =
        (List.range' 0 (Phrase.counts document.phrases)).map fun number =>
          painter.table.codeText (styleOf styles (some number)) := by
      conv => lhs; rw [← map_styleOf_range' styles, List.map_map, length]
      rfl
    have read := Part.tokens_shownAll (fun phrase => painter.table.codeText (styleOf styles phrase))
      (fun phrase => coded.codeText_allowed _) none 0 document.text 0 document.phrases text_clean
      (fun phrase member => ⟨(fresh phrase member).closed,
        fun present => text_clean (text_subset_of_parse markup document parsed phrase member present)⟩)
      []
    simp only [styleOf_none, FlagTable.codeText_zero, ← codes, List.append_nil] at read
    exact read.trans (List.append_nil _)
  · rw [failed] at painted
    cases painted

end Painter

end AnsiMarkup
