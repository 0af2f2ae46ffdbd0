import AnsiMarkup.Json.Reading
import AnsiMarkup.Proofs.Json.Lexing

namespace AnsiMarkup

namespace Json

/-- What the text of a number is read as: a number, or null if the text is no numeral. -/
def numeral (word : Text) : Value :=
  match number? word with
  | some n => .number n
  | none => .null

theorem wordToken?_of_isNumeral (word : Text) (legal : IsNumeral word) :
    wordToken? word = some (.scalar (numeral word)) := by
  obtain ⟨n, read⟩ := legal.exists_number?
  have other (name : Text) (no : number? name = none) : word ≠ name := by
    rintro rfl
    rw [no] at read
    cases read
  rw [wordToken?, if_neg (other "null" rfl), if_neg (other "true" rfl), if_neg (other "false" rfl),
    numeral, read]
  rfl

theorem spells_numeral (word : Text) (legal : IsNumeral word) :
    Spells word [.scalar (numeral word)] :=
  spells_word word _ (wordToken?_of_isNumeral word legal) legal.not_endsWord.1 legal.not_endsWord.2

theorem spells_numberText (n : Number) :
    Spells (numberText n) [.scalar (numeral (numberText n))] := by
  rcases numberText_cases n with none | legal
  · rw [none]
    exact spells_name "null" _ rfl rfl
  · exact spells_numeral _ legal

mutual

def tokens : Value → List Token
  | .absent | .null => [.scalar .null]
  | .bool b => [.scalar (.bool b)]
  | .number n => [.scalar (numeral (numberText n))]
  | .integer i => [.scalar (numeral (Text.ofInt i))]
  | .text t => [.text t]
  | .list items => .openList :: ([Token.comma].intercalate (itemTokens items) ++ [.closeList])
  | .record entries =>
    .openRecord :: ([Token.comma].intercalate (memberTokens entries) ++ [.closeRecord])
  | .mapping _ => [.openRecord, .closeRecord]

def itemTokens : List Value → List (List Token)
  | [] => []
  | item :: rest => tokens item :: itemTokens rest

def memberTokens : List (Text × Value) → List (List Token)
  | [] => []
  | (_, .absent) :: rest => memberTokens rest
  | (key, value) :: rest => (.text key :: .colon :: tokens value) :: memberTokens rest

end

structure Layout.Spaced (layout : Layout) : Prop where
  gap : ∀ depth, ∀ u ∈ layout.gap depth, isSpace u = true
  colon : ∃ spaces : Text, layout.colon = 58 :: spaces ∧ ∀ u ∈ spaces, isSpace u = true

theorem Layout.spaced_indented : Layout.indented.Spaced where
  gap depth u member := by
    rcases List.mem_cons.mp member with rfl | member
    · rfl
    · rw [(List.mem_replicate.mp member).2]
      rfl
  colon := ⟨[32], rfl, List.all_eq_true.mp rfl⟩

theorem apart_of_spaces (spaces : Text) (all : ∀ u ∈ spaces, isSpace u = true) : Apart spaces := by
  intro u first
  rw [Lexer.endsWord, all u (List.mem_of_head? first)]
  rfl

theorem spells_join (gap closing : Text) (spaces : ∀ u ∈ gap, isSpace u = true) (closed : List Token)
    (closes : Spells closing closed) (apart : Apart closing) (part : Text) (token : List Token)
    (first : Spells part token) (parts : List Text) (tokens : List (List Token))
    (each : List.Forall₂ Spells parts tokens) :
    Spells (Text.join ("," ++ gap) (part :: parts) ++ closing)
      ([Token.comma].intercalate (token :: tokens) ++ closed) := by
  induction each generalizing part token with
  | nil =>
    rw [Text.join, List.intercalate_singleton, List.intercalate_singleton]
    exact first.append closes apart
  | @cons next token' parts tokens spelled _ ih =>
    have others : Spells (44 :: (gap ++ (Text.join ("," ++ gap) (next :: parts) ++ closing)))
        (.comma :: ([Token.comma].intercalate (token' :: tokens) ++ closed)) :=
      .mark (fun _ => rfl) ((ih next token' spelled).spaces spaces)
    have behind : Apart (44 :: (gap ++ (Text.join ("," ++ gap) (next :: parts) ++ closing))) := by
      rintro _ ⟨⟩
      rfl
    rw [Text.join, List.intercalate_cons_cons, List.intercalate_cons_cons, List.append_assoc,
      List.append_assoc, List.append_assoc, List.append_assoc, List.append_assoc]
    exact first.append others behind

theorem spells_enclosed (layout : Layout) (spaced : layout.Spaced) (depth : Nat)
    (left right : CodeUnit) (opened closed : Token)
    (opens : ∀ before, Lexer.start before left = ⟨opened :: before, .between⟩)
    (closes : ∀ before, Lexer.start before right = ⟨closed :: before, .between⟩)
    (ends : Lexer.endsWord right = true) (parts : List Text) (tokens : List (List Token))
    (each : List.Forall₂ Spells parts tokens) :
    Spells (enclosed layout depth [left] [right] parts)
      (opened :: ([Token.comma].intercalate tokens ++ [closed])) := by
  have closing : Spells [right] [closed] := .mark closes .nil
  cases each with
  | nil => exact .mark opens closing
  | cons first each =>
    have apart : Apart (layout.gap depth ++ [right]) := by
      intro u first
      cases gap : layout.gap depth with
      | nil =>
        rw [gap] at first
        cases first
        exact ends
      | cons v rest =>
        refine apart_of_spaces _ (spaced.gap depth) u ?_
        rw [gap] at first ⊢
        exact first
    have inner := spells_join (layout.gap (depth + 1)) (layout.gap depth ++ [right])
      (spaced.gap _) [closed] (closing.spaces (spaced.gap depth)) apart _ _ first _ _ each
    have whole := (inner.spaces (spaced.gap (depth + 1))).mark opens
    rw [enclosed, if_neg (List.cons_ne_nil _ _), List.append_assoc, List.append_assoc,
      List.append_assoc]
    exact whole

mutual

theorem spells_write (layout : Layout) (spaced : layout.Spaced) (depth : Nat) :
    ∀ value : Value, Spells (write layout depth value) (tokens value)
  | .absent | .null => spells_name "null" _ rfl rfl
  | .bool true => spells_name "true" _ rfl rfl
  | .bool false => spells_name "false" _ rfl rfl
  | .number n => spells_numberText n
  | .integer i => spells_numeral _ (isNumeral_ofInt i)
  | .text t => spells_quoted t
  | .list items =>
    spells_enclosed layout spaced depth 91 93 _ _ (fun _ => rfl) (fun _ => rfl) rfl _ _
      (spells_items layout spaced (depth + 1) items)
  | .record entries =>
    spells_enclosed layout spaced depth 123 125 _ _ (fun _ => rfl) (fun _ => rfl) rfl _ _
      (spells_members layout spaced (depth + 1) entries)
  | .mapping _ => (Spells.mark (fun _ => rfl) (.mark (fun _ => rfl) .nil) : Spells [123, 125] _)

theorem spells_items (layout : Layout) (spaced : layout.Spaced) (depth : Nat) :
    ∀ items : List Value, List.Forall₂ Spells (writeItems layout depth items) (itemTokens items)
  | [] => .nil
  | item :: rest =>
    .cons (spells_write layout spaced depth item) (spells_items layout spaced depth rest)

theorem spells_members (layout : Layout) (spaced : layout.Spaced) (depth : Nat) :
    ∀ entries : List (Text × Value),
      List.Forall₂ Spells (writeMembers layout depth entries) (memberTokens entries)
  | [] => .nil
  | (key, value) :: rest => by
    have here := spells_write layout spaced depth value
    have later := spells_members layout spaced depth rest
    by_cases none : value = .absent
    · subst none
      exact later
    · obtain ⟨spaces, colon, all⟩ := spaced.colon
      have member : Spells (quoted key ++ layout.colon ++ write layout depth value)
          (.text key :: .colon :: tokens value) := by
        rw [List.append_assoc, colon]
        refine (spells_quoted key).append (.mark (u := 58) (fun _ => rfl) (here.spaces all)) ?_
        rintro _ ⟨⟩
        rfl
      rw [writeMembers.eq_3 _ _ _ _ _ none, memberTokens.eq_3 _ _ _ none]
      exact .cons member later

end

mutual

/-- What the text of a value is read as. What is absent becomes null in a list and is missing in a
record, a mapping becomes an empty record, and numbers are read from their digits. -/
def reread : Value → Value
  | .absent | .null => .null
  | .bool b => .bool b
  | .number n => numeral (numberText n)
  | .integer i => numeral (Text.ofInt i)
  | .text t => .text t
  | .list items => .list (rereadItems items)
  | .record entries => .record (rereadMembers [] entries)
  | .mapping _ => .record []

def rereadItems : List Value → List Value
  | [] => []
  | item :: rest => reread item :: rereadItems rest

def rereadMembers (before : Record Value) : List (Text × Value) → Record Value
  | [] => before
  | (_, .absent) :: rest => rereadMembers before rest
  | (key, value) :: rest => rereadMembers (Record.put key (reread value) before) rest

end

theorem intercalate_comma (part : List Token) (parts : List (List Token)) :
    [Token.comma].intercalate (part :: parts) = part ++ parts.flatMap (Token.comma :: ·) := by
  induction parts generalizing part with
  | nil => simp
  | cons next parts ih =>
    rw [List.intercalate_cons_cons, ih, List.append_assoc]
    rfl

namespace Expectation

theorem foldlM_firstItem (value : Value) (more : List Token) (outer : List Container) :
    (tokens value ++ more).foldlM step (.firstItem outer) =
      (tokens value ++ more).foldlM step (.value (.list [] :: outer)) := by
  cases value <;> rfl

theorem foldlM_append {start middle last : Expectation} {tokens more : List Token}
    (first : tokens.foldlM step start = some middle) (second : more.foldlM step middle = some last) :
    (tokens ++ more).foldlM step start = some last := by
  rw [List.foldlM_append, first]
  exact second

theorem foldlM_cons {start middle last : Expectation} {token : Token} {more : List Token}
    (first : step start token = some middle) (second : more.foldlM step middle = some last) :
    (token :: more).foldlM step start = some last := by
  rw [List.foldlM_cons, first]
  exact second

mutual

theorem foldlM_tokens : ∀ (value : Value) (outer : List Container),
    (tokens value).foldlM step (.value outer) = some (complete (reread value) outer)
  | .absent, _ | .null, _ | .bool _, _ | .number _, _ | .integer _, _ | .text _, _ | .mapping _, _
  | .list [], _ => rfl
  | .list (item :: rest), outer => by
    -- The first item is read where a value may come, each later one behind its comma.
    have first := foldlM_tokens item (.list [] :: outer)
    have others := foldlM_items rest [reread item] outer
    have closed : [Token.closeList].foldlM step
        (.afterItem ((rereadItems rest).reverse ++ [reread item]) outer) =
          some (complete (reread (.list (item :: rest))) outer) := by
      rw [List.foldlM_cons, step, List.reverse_append, List.reverse_reverse]
      rfl
    rw [tokens, itemTokens, intercalate_comma, List.append_assoc]
    refine foldlM_cons rfl ?_
    rw [foldlM_firstItem]
    exact foldlM_append first (foldlM_append others closed)
  | .record entries, outer => foldlM_cons rfl (foldlM_members entries outer)

theorem foldlM_items : ∀ (items before : List Value) (outer : List Container),
    ((itemTokens items).flatMap (Token.comma :: ·)).foldlM step (.afterItem before outer) =
      some (.afterItem ((rereadItems items).reverse ++ before) outer)
  | [], _, _ => rfl
  | item :: rest, before, outer => by
    have first := foldlM_tokens item (.list before :: outer)
    have others := foldlM_items rest (reread item :: before) outer
    rw [itemTokens, List.flatMap_cons, rereadItems, List.reverse_cons, List.append_assoc]
    exact foldlM_append (foldlM_cons rfl first) others

theorem foldlM_members : ∀ (entries : List (Text × Value)) (outer : List Container),
    ([Token.comma].intercalate (memberTokens entries) ++ [Token.closeRecord]).foldlM step
        (.firstKey outer) =
      some (complete (.record (rereadMembers [] entries)) outer)
  | [], _ => rfl
  | (key, given) :: rest, outer => by
    have first := foldlM_tokens given (.record [] key :: outer)
    have others := foldlM_moreMembers rest (Record.put key (reread given) []) outer
    have skipped := foldlM_members rest outer
    -- Absent members have no tokens, so that the first ones may be absent.
    by_cases none : given = .absent
    · subst none
      exact skipped
    · rw [memberTokens.eq_3 _ _ _ none, rereadMembers.eq_3 _ _ _ _ none, intercalate_comma,
        List.append_assoc]
      exact foldlM_cons rfl (foldlM_cons rfl (foldlM_append first (foldlM_append others rfl)))

theorem foldlM_moreMembers : ∀ (entries : List (Text × Value)) (before : Record Value)
    (outer : List Container),
    ((memberTokens entries).flatMap (Token.comma :: ·)).foldlM step (.afterMember before outer) =
      some (.afterMember (rereadMembers before entries) outer)
  | [], _, _ => rfl
  | (key, given) :: rest, before, outer => by
    have first := foldlM_tokens given (.record before key :: outer)
    have others := foldlM_moreMembers rest (Record.put key (reread given) before) outer
    have skipped := foldlM_moreMembers rest before outer
    by_cases none : given = .absent
    · subst none
      exact skipped
    · rw [memberTokens.eq_3 _ _ _ none, rereadMembers.eq_3 _ _ _ _ none, List.flatMap_cons]
      exact foldlM_append (foldlM_cons rfl (foldlM_cons rfl (foldlM_cons rfl first))) others

end

end Expectation

theorem read?_write (layout : Layout) (spaced : layout.Spaced) (depth : Nat) (value : Value)
    (after : Text) (spaces : ∀ u ∈ after, isSpace u = true) :
    read? (write layout depth value ++ after) = some (reread value) := by
  have spelled : tokens? (write layout depth value ++ after) = some (tokens value) := by
    have whole := (spells_write layout spaced depth value).append (Spells.nil.spaces spaces)
      (apart_of_spaces _ (by simpa using spaces))
    have read := whole [] [] (by rintro _ ⟨⟩)
    rw [List.append_nil, List.append_nil, List.append_nil, List.append_nil] at read
    exact read.trans (congrArg some (List.reverse_reverse _))
  rw [read?, spelled, Option.bind_eq_bind, Option.bind_some, Expectation.foldlM_tokens]
  rfl

example :
    read? (indented (.list [.absent, .record [("b", .absent), ("a", .text "\n")], .mapping []])) =
      some (.list [.null, .record [("a", .text "\n")], .record []]) := rfl

end Json

end AnsiMarkup
