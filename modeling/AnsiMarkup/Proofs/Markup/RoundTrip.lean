import AnsiMarkup.Proofs.Markup.Levels
import AnsiMarkup.Proofs.Markup.Writing
import AnsiMarkup.Proofs.Phrase.Forests

namespace AnsiMarkup

namespace Node

/-- A document that can be written: proper, escaped, and with integers that numbers hold exactly. -/
structure Writable (nodes : List Node) : Prop where
  proper : ScopeProper Number.IsSafe nodes
  escaped : Escaped nodes

theorem readWhole_scopeMarkup (nodes : List Node) (writable : Writable nodes) :
    readWhole (scopeMarkup false nodes) = ⟨WholeScope.empty.add nodes, [], []⟩ := by
  have read := WholeReader.read_scopeMarkup nodes writable.proper writable.escaped WholeReader.start
    (fun ends => by cases ends) []
  rw [List.append_nil] at read
  exact read.trans (WholeReader.read_nil _)

theorem safe_of_scopePhrases (nodes : List Node) (depth start : Nat)
    (proper : ScopeProper (fun _ => True) nodes)
    (safe : ∀ entry ∈ Phrase.preorders depth (scopePhrases start nodes),
      ∀ argument ∈ entry.2.arguments, argument.IsSafe) :
    ScopeProper Number.IsSafe nodes := by
  induction nodes using scope_induction generalizing depth start with
  | nil => trivial
  | unit u rest ih => exact ⟨trivial, ih depth _ proper.2 safe⟩
  | phrase specifier content rest inner outer =>
    rcases proper with ⟨⟨specified, unspecified, escaped, below⟩, right⟩
    rw [scopePhrases, phrases, List.singleton_append, Phrase.preorders_cons] at safe
    rcases List.forall_mem_cons.mp safe with ⟨here, others⟩
    have deeper := inner (depth + 1) 0 below fun entry member =>
      others entry (List.mem_append_left _ member)
    have later := outer depth _ right fun entry member =>
      others entry (List.mem_append_right _ member)
    refine ⟨⟨?_, unspecified, escaped, deeper⟩, later⟩
    intro s member
    cases member
    exact ⟨(specified s rfl).1, here⟩

end Node

/-- Parsing undoes writing: markup written for a tree is parsed in silence to the document of that
tree, and whatever is parsed in silence, its arguments being exact, is the document of such a tree. -/
theorem parse_scopeMarkup :
    (∀ nodes, Node.Writable nodes →
      (parse (Node.scopeMarkup false nodes)).diagnostics = [] ∧
        (parse (Node.scopeMarkup false nodes)).result = .ok (Node.document nodes)) ∧
      ∀ markup document, (parse markup).result = .ok document → (parse markup).diagnostics = [] →
        (∀ entry ∈ Phrase.preorders 0 document.phrases,
          ∀ argument ∈ entry.2.arguments, argument.IsSafe) →
        ∃ nodes, Node.Writable nodes ∧ document = Node.document nodes := by
  constructor
  · intro nodes writable
    have read := Node.readWhole_scopeMarkup nodes writable
    constructor
    · rw [diagnostics_eq_nil_iff, read]
    · rw [result_parse, read]
      simp [WholeReader.result, WholeScope.add, WholeScope.empty, Node.document]
  · intro markup document parsed silent safe
    rcases parse_tree markup document parsed with ⟨nodes, rfl, proper, escaped⟩
    exact ⟨nodes, ⟨Node.safe_of_scopePhrases nodes 0 0 proper safe, escaped silent⟩, rfl⟩

/-- A literal marker, then a phrase with a specifier whose content ends in a backslash. -/
theorem parse_scopeMarkup_escaped :
    let nodes : List Node :=
      [.unit 60, .phrase (some ⟨[.finite (0 : Int), .finite (-7 : Int)], true⟩) [.unit 62, .unit 92]]
    Node.Writable nodes ∧
      ((parse (Node.scopeMarkup false nodes)).diagnostics = [] ∧
        (parse (Node.scopeMarkup false nodes)).result = .ok (Node.document nodes)) ∧
      (parse "<\\>>").result = .ok ⟨"<>>", [⟨">", 0, some 2, [], false, none, []⟩]⟩ ∧
      ∃ read, Node.Writable read ∧
        ⟨"<>>", [⟨">", 0, some 2, [], false, none, []⟩]⟩ = Node.document read := by
  intro nodes
  have safe (i : Int) (small : i.natAbs < Number.safeLimit) :
      Number.IsSafe (.finite i) := ⟨i, rfl, small⟩
  have specified : ∀ argument ∈ [Number.finite (0 : Int), .finite (-7 : Int)], argument.IsSafe := by
    intro argument member
    rcases List.mem_cons.mp member with rfl | member
    · exact safe 0 (by decide)
    · rw [List.mem_singleton.mp member]
      exact safe (-7) (by decide)
  have content : Node.Escaped [.unit 62, .unit 92] := by
    simp [Node.Escaped, CodeUnit.backslash]
  have writable : Node.Writable nodes := by
    constructor
    · refine ⟨trivial, ⟨?_, ?_, content, trivial, trivial, trivial⟩, trivial⟩
      · intro s member
        cases member
        exact ⟨by simp, specified⟩
      · exact (Node.specifier_scopeText_iff _).mpr rfl
    · simp [nodes, Node.Escaped]
  have parsed : (parse "<\\>>").result = .ok ⟨"<>>", [⟨">", 0, some 2, [], false, none, []⟩]⟩ := rfl
  refine ⟨writable, parse_scopeMarkup.1 nodes writable, parsed, ?_⟩
  exact parse_scopeMarkup.2 _ _ parsed rfl (by simp [Phrase.preorders, Phrase.preorder])

end AnsiMarkup
