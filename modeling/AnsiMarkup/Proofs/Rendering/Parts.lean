import AnsiMarkup.Proofs.Rendering.Display
import AnsiMarkup.Proofs.Terminal.Reading

/-! A document as a row of parts, and what a terminal reads of its rendering: one token for each. -/

namespace AnsiMarkup

/-- A unit with the phrase it lies directly in, or one of the two ends of a phrase with the phrase
around it. Phrases are told by their numbers in document order. -/
inductive Part
  | literal (u : CodeUnit) (inside : Option Nat)
  | opening (phrase : Nat) (around : Option Nat)
  | closing (phrase : Nat) (around : Option Nat)
  deriving DecidableEq, Repr

namespace Part

def unit? : Part → Option CodeUnit
  | .literal u _ => some u
  | .opening _ _ => none
  | .closing _ _ => none

/-- What is displayed for a part, if phrases have these codes and the document has those of none. -/
def token (code : Option Nat → Text) : Part → Terminal.Token
  | .literal u _ => .unit u
  | .opening phrase _ => .select (code (some phrase))
  | .closing _ around => .select ("0;" ++ code around)

def literals (inside : Option Nat) (piece : Text) : List Part := piece.map fun u => .literal u inside

mutual

def ofPhrase (around : Option Nat) (number : Nat) : Phrase → List Part
  | ⟨text, _, _, _, _, _, children⟩ =>
    .opening number around ::
      (ofForest (some number) (number + 1) text 0 children ++ [.closing number around])

def ofForest (inside : Option Nat) (number : Nat) (text : Text) (last : Int) : List Phrase → List Part
  | [] => literals inside (text.sliceFrom last)
  | phrase :: rest =>
    literals inside (text.slice last phrase.openIndex) ++
      (ofPhrase inside number phrase ++
        ofForest inside (number + phrase.count) text (phrase.closeIndex.getD 0 + 1) rest)

end

theorem ofForest_cons (inside : Option Nat) (number : Nat) (text : Text) (last : Int)
    (phrase : Phrase) (rest : List Phrase) :
    ofForest inside number text last (phrase :: rest) =
      literals inside (text.slice last phrase.openIndex) ++
        (.opening number inside ::
          (ofForest (some number) (number + 1) phrase.text 0 phrase.children ++
            .closing number inside ::
              ofForest inside (number + 1 + Phrase.counts phrase.children) text
                (phrase.closeIndex.getD 0 + 1) rest)) := by
  rw [ofForest, Phrase.count_eq, Nat.add_comm (Phrase.counts _) 1, ← Nat.add_assoc]
  cases phrase
  simp [ofPhrase]

theorem map_token_literals (code : Option Nat → Text) (inside : Option Nat) (piece : Text) :
    (literals inside piece).map (token code) = piece.map .unit := by
  rw [literals, List.map_map]
  rfl

theorem filterMap_unit?_literals (inside : Option Nat) (piece : Text) :
    (literals inside piece).filterMap unit? = piece := by
  rw [literals, List.filterMap_map]
  exact List.filterMap_some

theorem unit?_token (code : Option Nat → Text) (part : Part) :
    (token code part).unit? = part.unit? := by
  cases part <;> rfl

theorem countP_isSelect_ofForest (code : Option Nat → Text) (inside : Option Nat) (number : Nat)
    (text : Text) (last : Int) (phrases : List Phrase) :
    ((ofForest inside number text last phrases).map (token code)).countP Terminal.Token.isSelect =
      2 * Phrase.counts phrases := by
  have plain (piece : Text) :
      (piece.map Terminal.Token.unit).countP Terminal.Token.isSelect = 0 := by
    rw [List.countP_eq_zero]
    intro read member
    rcases List.mem_map.mp member with ⟨u, -, rfl⟩
    exact Bool.false_ne_true
  induction phrases using Phrase.forest_induction generalizing inside number text last with
  | nil => rw [ofForest, map_token_literals, plain, Phrase.counts]
  | cons phrase rest below right =>
    rw [ofForest_cons, List.map_append, List.map_cons, List.map_append, List.map_cons,
      map_token_literals, List.countP_append, List.countP_cons, List.countP_append,
      List.countP_cons, plain, below, right, Phrase.counts, Phrase.count_eq]
    simp only [token, Terminal.Token.isSelect, if_true]
    omega

/-- A terminal reads a forest that is displayed by allowed codes as its parts, whatever follows. -/
theorem tokens_shownAll (code : Option Nat → Text)
    (allowed : ∀ phrase, ∀ u ∈ code phrase, Terminal.isParameter u = true) (inside : Option Nat)
    (number : Nat) (text : Text) (last : Int) (phrases : List Phrase)
    (clean : Terminal.escape ∉ text)
    (below : ∀ phrase ∈ Phrase.order phrases,
      phrase.closeIndex.isSome = true ∧ Terminal.escape ∉ phrase.text) (rest : Text) :
    let codes := (List.range' number (Phrase.counts phrases)).map fun n => code (some n)
    Terminal.tokens
        (Rendering.shownAll (code inside) text last (Rendering.setCodes phrases codes).1 ++ rest) =
      (ofForest inside number text last phrases).map (token code) ++ Terminal.tokens rest := by
  induction phrases using Phrase.forest_induction
    generalizing inside number text last rest with
  | nil =>
    have piece_clean : Terminal.escape ∉ text.sliceFrom last := clean ∘ List.mem_of_mem_drop
    simp only [Rendering.setCodes, Rendering.shownAll, ofForest, map_token_literals]
    exact Terminal.tokens_append _ rest piece_clean
  | cons phrase others inner right =>
    rw [Phrase.order_cons] at below
    obtain ⟨⟨closed, phrase_clean⟩, later⟩ := List.forall_mem_cons.mp below
    obtain ⟨close, closed⟩ := Option.isSome_iff_exists.mp closed
    have piece_clean : Terminal.escape ∉ text.slice last phrase.openIndex :=
      clean ∘ List.mem_of_mem_take ∘ List.mem_of_mem_drop
    have reset : ("0;" : Text).all Terminal.isParameter = true := rfl
    have zero : ∀ u ∈ ("0;" ++ code inside : Text), Terminal.isParameter u = true := by
      intro u member
      rcases List.mem_append.mp member with first | codes
      · exact List.all_eq_true.mp reset u first
      · exact allowed inside u codes
    -- The numbers go to the phrase, then to those below it, then to those on its right.
    have split : List.range' number (Phrase.counts (phrase :: others)) =
        number :: (List.range' (number + 1) (Phrase.counts phrase.children) ++
          List.range' (number + 1 + Phrase.counts phrase.children) (Phrase.counts others)) := by
      rw [List.range'_append_1, Phrase.counts, Phrase.count_eq, Nat.add_right_comm,
        List.range'_succ]
    have shown := Rendering.shownAll_setCodes_cons (code inside) text last phrase others close closed
      (code (some number))
      ((List.range' (number + 1) (Phrase.counts phrase.children)).map fun n => code (some n))
      ((List.range' (number + 1 + Phrase.counts phrase.children) (Phrase.counts others)).map
        fun n => code (some n)) (by rw [List.length_map, List.length_range'])
    have body := inner (some number) (number + 1) phrase.text 0 phrase_clean
      fun child member => later child (List.mem_append_left _ member)
    have after := right inside (number + 1 + Phrase.counts phrase.children) text (close + 1) clean
      fun other member => later other (List.mem_append_right _ member)
    simp only at body after ⊢
    rw [split, List.map_cons, List.map_append, shown, ofForest_cons, closed, Terminal.enclose]
    simp only [List.append_assoc]
    rw [Terminal.tokens_append _ _ piece_clean, Terminal.tokens_select _ _ (allowed (some number)),
      body, Terminal.tokens_select _ _ zero, after, List.map_append, List.map_cons, List.map_append,
      List.map_cons, map_token_literals]
    simp only [List.append_assoc, List.cons_append]
    rfl

theorem writtenAll_plain (around : Option Phrase) (inside : Option Nat) (number : Nat) (text : Text)
    (last : Int) (phrases : List Phrase)
    (closed : ∀ phrase ∈ Phrase.order phrases, phrase.closeIndex.isSome = true) :
    Walk.writtenAll (⟨fun phrase _ => pure phrase, fun _ body _ => pure body⟩ : Visitor Id) around
      text last phrases = pure ((ofForest inside number text last phrases).filterMap unit?) := by
  induction phrases using Phrase.forest_induction
    generalizing around inside number text last with
  | nil => rw [Walk.writtenAll, ofForest, filterMap_unit?_literals]
  | cons phrase others inner right =>
    rw [Phrase.order_cons] at closed
    obtain ⟨here, later⟩ := List.forall_mem_cons.mp closed
    obtain ⟨close, closed⟩ := Option.isSome_iff_exists.mp here
    have body := inner (some phrase) (some number) (number + 1) phrase.text 0
      fun child member => later child (List.mem_append_left _ member)
    have after := right around inside (number + 1 + Phrase.counts phrase.children) text (close + 1)
      fun other member => later other (List.mem_append_right _ member)
    rw [Walk.writtenAll, ofForest_cons, closed]
    simp only [Walk.written_eq, pure_bind, body, after, Option.getD_some]
    rw [List.filterMap_append, List.filterMap_cons, List.filterMap_append, List.filterMap_cons,
      filterMap_unit?_literals]
    simp only [unit?, List.append_assoc]

end Part

def Document.parts (document : Document) : List Part :=
  Part.ofForest none 0 document.text 0 document.phrases

theorem strip_eq (document : Document)
    (closed : ∀ phrase ∈ Phrase.order document.phrases, phrase.closeIndex.isSome = true) :
    strip document.text document.phrases = .ok (document.parts.filterMap Part.unit?) := by
  rw [strip, walk_eq, Part.writtenAll_plain none none 0 _ _ _ closed]
  rfl

end AnsiMarkup
