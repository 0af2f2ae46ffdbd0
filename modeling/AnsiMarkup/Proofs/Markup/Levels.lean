import AnsiMarkup.Proofs.Markup.Refinement
import AnsiMarkup.Proofs.Markup.Traced

namespace AnsiMarkup

/-- A text of the document with the phrases in it: its own, or those of a phrase at any depth. -/
inductive Document.Level (document : Document) : Text → List Phrase → Prop
  | top : Level document document.text document.phrases
  | within {text : Text} {phrases : List Phrase} {phrase : Phrase}
      (level : Level document text phrases) (member : phrase ∈ phrases) :
      Level document phrase.text phrase.children

/-- The phrase stands between two markers of the text around it. -/
structure Phrase.StandsIn (phrase : Phrase) (text : Text) (first last : Nat) : Prop where
  openIndex : phrase.openIndex = first
  closeIndex : phrase.closeIndex = some (last : Int)
  span : last = first + 1 + phrase.text.length
  inside : last < text.length
  opening : text[first]? = some Marker.opening.toUnit
  closing : text[last]? = some Marker.closing.toUnit
  between : text.slice (first + 1) last = phrase.text

theorem Text.slice_of_le (text : Text) (first last : Nat) (bound : last ≤ text.length)
    (order : first ≤ last) : text.slice first last = (text.drop first).take (last - first) := by
  have clamped (n : Nat) (small : n ≤ text.length) : clampIndex text.length (n : Int) = n := by
    rw [clampIndex, if_neg (by omega)]
    exact Nat.min_eq_left small
  rw [slice, clamped first (by omega), clamped last bound, List.drop_take]

namespace Node

theorem mem_scopePhrases (nodes : List Node) (start : Nat) (phrase : Phrase)
    (member : phrase ∈ scopePhrases start nodes) :
    ∃ before specifier content after, nodes = before ++ .phrase specifier content :: after ∧
      phrases (start + (scopeText before).length) (.phrase specifier content) = [phrase] := by
  induction nodes generalizing start with
  | nil => simp [scopePhrases] at member
  | cons node rest ih =>
    rw [scopePhrases, List.mem_append] at member
    rcases member with here | later
    · cases node with
      | unit u => simp [phrases] at here
      | phrase specifier content =>
        refine ⟨[], specifier, content, rest, rfl, ?_⟩
        simp only [phrases, List.mem_singleton] at here
        simp [phrases, scopeText, here]
    · obtain ⟨before, specifier, content, after, rfl, found⟩ := ih _ later
      refine ⟨node :: before, specifier, content, after, rfl, ?_⟩
      rw [scopeText, List.length_append, ← Nat.add_assoc]
      exact found

theorem standsIn (before after content : List Node) (specifier : Option Specifier)
    (phrase : Phrase)
    (found : phrases (scopeText before).length (.phrase specifier content) = [phrase]) :
    phrase.StandsIn (scopeText (before ++ .phrase specifier content :: after))
      (scopeText before).length ((scopeText before).length + 1 + (scopeText content).length) := by
  rw [phrases, List.singleton_inj] at found
  subst found
  have whole : scopeText (before ++ .phrase specifier content :: after) =
      scopeText before ++ (Marker.opening.toUnit ::
        (scopeText content ++ Marker.closing.toUnit :: scopeText after)) := by
    simp [scopeText_append, scopeText, text, Marker.toText]
  have length := congrArg List.length whole
  simp only [List.length_append, List.length_cons] at length
  refine ⟨rfl, rfl, rfl, by omega, ?_, ?_, ?_⟩
  · rw [whole, List.getElem?_append_right (Nat.le_refl _), Nat.sub_self]
    rfl
  · rw [whole, List.getElem?_append_right (by omega), Nat.add_assoc, Nat.add_sub_cancel_left,
      Nat.add_comm 1, List.getElem?_cons_succ, List.getElem?_append_right (Nat.le_refl _),
      Nat.sub_self]
    rfl
  · have sliced := Text.slice_of_le (scopeText (before ++ .phrase specifier content :: after))
      ((scopeText before).length + 1) ((scopeText before).length + 1 + (scopeText content).length)
      (by omega) (by omega)
    push_cast at sliced ⊢
    rw [sliced, whole, Nat.add_sub_cancel_left, ← List.drop_drop, List.drop_left]
    simp

theorem proper_phrase (before after content : List Node) (specifier : Option Specifier)
    {allowed : Number → Prop}
    (proper : ScopeProper allowed (before ++ .phrase specifier content :: after)) :
    Proper allowed (.phrase specifier content) :=
  (scopeProper_iff _ _).mp proper _ (by simp)

theorem le_openIndex (nodes : List Node) (start : Nat) :
    ∀ phrase ∈ scopePhrases start nodes, (start : Int) ≤ phrase.openIndex := by
  intro phrase member
  obtain ⟨before, specifier, content, after, -, found⟩ := mem_scopePhrases nodes start phrase member
  rw [phrases, List.singleton_inj] at found
  subst found
  push_cast
  omega

theorem scopePhrases_isChain (nodes : List Node) (start : Nat) :
    (scopePhrases start nodes).IsChain fun earlier later =>
      ∃ last, earlier.closeIndex = some last ∧ last < later.openIndex := by
  induction nodes generalizing start with
  | nil => exact .nil
  | cons node rest ih =>
    cases node with
    | unit u => exact ih _
    | phrase specifier content =>
      rw [scopePhrases, phrases, List.singleton_append, List.isChain_cons]
      refine ⟨?_, ih _⟩
      intro later first
      have after := le_openIndex rest _ later (List.mem_of_mem_head? first)
      refine ⟨_, rfl, ?_⟩
      simp only [text, Marker.toText, List.length_append, List.length_singleton] at after
      push_cast at after
      omega

end Node

theorem parse_tree (markup : Text) (document : Document)
    (parsed : (parse markup).result = .ok document) :
    ∃ nodes, document = Node.document nodes ∧ Node.ScopeProper (fun _ => True) nodes ∧
      ((parse markup).diagnostics = [] → Node.Escaped nodes) := by
  obtain ⟨nodes, shows, escaped⟩ := (traced_readWhole markup).document
  obtain ⟨-, text, phrases⟩ := (parse_eq_ok_iff markup document).mp parsed
  have same : document = ⟨document.text, document.phrases⟩ := rfl
  refine ⟨nodes, ?_, shows.proper, ?_⟩
  · rw [same, text, phrases, Node.document, shows.text, shows.children]
  · intro silent
    exact escaped ((diagnostics_eq_nil_iff markup).mp silent)

/-- At every level of a parsed document, each phrase stands between the two markers of the text
around it that its indices name, after the phrases before it. No text of a phrase is a specifier,
none has its codes yet, and an override comes with arguments. -/
theorem parse_level (markup : Text) (document : Document)
    (parsed : (parse markup).result = .ok document) (text : Text) (phrases : List Phrase)
    (level : document.Level text phrases) :
    (∀ phrase ∈ phrases,
      (∃ first last, phrase.StandsIn text first last) ∧
        Specifier.ofText? phrase.text = none ∧ phrase.styleCode = none ∧
        (phrase.overrideAlways = true → phrase.arguments ≠ [])) ∧
      phrases.IsChain fun earlier later =>
        ∃ last, earlier.closeIndex = some last ∧ last < later.openIndex := by
  have shown : ∃ nodes, text = Node.scopeText nodes ∧ phrases = Node.scopePhrases 0 nodes ∧
      Node.ScopeProper (fun _ => True) nodes := by
    obtain ⟨nodes, rfl, proper, -⟩ := parse_tree markup document parsed
    induction level with
    | top => exact ⟨nodes, rfl, rfl, proper⟩
    | within level member ih =>
      obtain ⟨nodes, rfl, rfl, proper⟩ := ih
      obtain ⟨before, specifier, content, after, rfl, found⟩ := Node.mem_scopePhrases nodes 0 _ member
      rw [Node.phrases, List.singleton_inj] at found
      subst found
      exact ⟨content, rfl, rfl, (Node.proper_phrase before after content specifier proper).2.2.2⟩
  obtain ⟨nodes, rfl, rfl, proper⟩ := shown
  refine ⟨?_, Node.scopePhrases_isChain nodes 0⟩
  intro phrase member
  obtain ⟨before, specifier, content, after, rfl, found⟩ := Node.mem_scopePhrases nodes 0 phrase member
  rw [Nat.zero_add] at found
  refine ⟨⟨_, _, Node.standsIn before after content specifier phrase found⟩, ?_⟩
  obtain ⟨specified, unspecified, -, -⟩ := Node.proper_phrase before after content specifier proper
  rw [Node.phrases, List.singleton_inj] at found
  subst found
  refine ⟨(Node.specifier_scopeText_iff content).mp unspecified, rfl, ?_⟩
  intro overridden
  cases specifier with
  | none => cases overridden
  | some s => exact (specified s rfl).1

/-- The level of the inner phrase here, whose parent's text was read with an escaped backslash. -/
theorem parse_level_inner :
    let inner : Phrase := ⟨"c", 2, some 4, [], false, none, []⟩
    let outer : Phrase := ⟨"b\\<c>", 2, some 8, [], false, none, [inner]⟩
    (parse "x <b\\\\<c>>").result = .ok ⟨"x <b\\<c>>", [outer]⟩ ∧
      Document.Level ⟨"x <b\\<c>>", [outer]⟩ outer.text [inner] ∧
      (∀ phrase ∈ [inner],
        (∃ first last, phrase.StandsIn outer.text first last) ∧
          Specifier.ofText? phrase.text = none ∧ phrase.styleCode = none ∧
          (phrase.overrideAlways = true → phrase.arguments ≠ [])) ∧
      [inner].IsChain fun earlier later =>
        ∃ last, earlier.closeIndex = some last ∧ last < later.openIndex := by
  intro inner outer
  have parsed : (parse "x <b\\\\<c>>").result = .ok ⟨"x <b\\<c>>", [outer]⟩ := rfl
  have level : Document.Level ⟨"x <b\\<c>>", [outer]⟩ outer.text outer.children :=
    .within .top List.mem_cons_self
  exact ⟨parsed, level, parse_level _ _ parsed _ _ level⟩

end AnsiMarkup
