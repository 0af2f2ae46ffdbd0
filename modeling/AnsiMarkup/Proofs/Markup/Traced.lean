import AnsiMarkup.Proofs.Markup.Steps
import AnsiMarkup.Proofs.Markup.Tree

/-! Reading builds a tree: in every state each open scope shows a row of nodes. -/

namespace AnsiMarkup

namespace WholeScope

structure Shows (scope : WholeScope) (nodes : List Node) : Prop where
  text : scope.text = Node.scopeText nodes
  children : scope.children.reverse = Node.scopePhrases 0 nodes
  proper : Node.ScopeProper (fun _ => True) nodes

/-- The scope shows some row of nodes, and an escaped one where that is asked for. -/
def Traced (scope : WholeScope) (strict : Prop) : Prop :=
  ∃ nodes, scope.Shows nodes ∧ (strict → Node.Escaped nodes)

variable {scope : WholeScope} {strict : Prop}

theorem traced_empty : empty.Traced strict :=
  ⟨[], ⟨rfl, rfl, trivial⟩, fun _ => Node.escaped_nil⟩

theorem Traced.weaken (traced : scope.Traced strict) (weaker : Prop) (implied : weaker → strict) :
    scope.Traced weaker := by
  obtain ⟨nodes, shows, escaped⟩ := traced
  exact ⟨nodes, shows, escaped ∘ implied⟩

theorem Traced.append_node (traced : scope.Traced strict) (node : Node) (children : List Phrase)
    (proper : node.Proper (fun _ => True))
    (added : children.reverse = scope.children.reverse ++ node.phrases scope.text.length)
    (apart : strict → scope.text.endsWith CodeUnit.backslash = true →
      ∀ u, node = .unit u → Marker.ofUnit? u = none) :
    (WholeScope.mk (scope.text ++ node.text) children).Traced strict := by
  obtain ⟨nodes, shows, escaped⟩ := traced
  refine ⟨nodes ++ [node], ⟨?_, ?_, ?_⟩, ?_⟩
  · rw [Node.scopeText_concat, shows.text]
  · rw [added, shows.children, shows.text, Node.scopePhrases_concat, Nat.zero_add]
  · exact (Node.scopeProper_append _ _ _).mpr ⟨shows.proper, proper, trivial⟩
  · intro strictly
    apply Node.escaped_concat nodes node (escaped strictly)
    rw [← shows.text]
    exact apart strictly

theorem Traced.append_unit (traced : scope.Traced strict) (u : CodeUnit)
    (apart : strict → scope.text.endsWith CodeUnit.backslash = true → Marker.ofUnit? u = none) :
    (scope.append [u]).Traced strict := by
  refine traced.append_node (.unit u) scope.children trivial (by simp [Node.phrases]) ?_
  intro strictly ends v same
  cases same
  exact apart strictly ends

theorem resolve_cases (scope : WholeScope) :
    (scope.text.endsWith CodeUnit.backslash = false ∧ scope.resolve = (scope, false)) ∨
      ∃ body, scope.text = body ++ [CodeUnit.backslash] ∧
        scope.resolve = ({ scope with text := body }, !(Text.endsWith body CodeUnit.backslash)) := by
  cases ends : scope.text.endsWith CodeUnit.backslash with
  | false => exact Or.inl ⟨rfl, by rw [resolve, Escaping.ofText_of_not_endsWith _ ends]⟩
  | true =>
    obtain ⟨body, whole⟩ := (Text.endsWith_iff _ _).mp ends
    exact Or.inr ⟨body, whole, by rw [resolve, whole, Escaping.ofText_backslash]⟩

theorem Traced.resolve (traced : scope.Traced strict) : scope.resolve.1.Traced strict := by
  rcases resolve_cases scope with ⟨-, resolved⟩ | ⟨body, whole, resolved⟩
  · rw [resolved]
    exact traced
  · obtain ⟨nodes, shows, escaped⟩ := traced
    rw [shows.text] at whole
    obtain ⟨front, rfl, front_text⟩ := Node.scopeText_backslash nodes body whole
    have children := shows.children
    rw [Node.scopePhrases_concat, Node.phrases, List.append_nil] at children
    rw [resolved]
    exact ⟨front, ⟨front_text.symm, children, ((Node.scopeProper_append _ _ _).mp shows.proper).1⟩,
      fun strictly => (Node.escaped_append _ _ (escaped strictly)).1⟩

theorem Traced.children_eq_nil (traced : scope.Traced strict) (specifier : Specifier)
    (found : Specifier.ofText? scope.text = some specifier) : scope.children = [] := by
  obtain ⟨nodes, shows, -⟩ := traced
  have plain := Specifier.isPlain_of_ofText? _ specifier found
  rw [shows.text] at plain
  have children := shows.children
  rw [Node.units_of_isPlain nodes plain, Node.scopePhrases_units] at children
  exact List.reverse_eq_nil_iff.mp children

theorem endsWith_of_literal (literal : scope.resolve.2 = true) :
    scope.resolve.1.text.endsWith CodeUnit.backslash = false := by
  rcases resolve_cases scope with ⟨ends, resolved⟩ | ⟨body, -, resolved⟩ <;>
    rw [resolved] at literal ⊢
  · exact ends
  · simpa using literal

theorem Traced.append_literal (traced : scope.Traced strict) (literal : scope.resolve.2 = true)
    (marker : Marker) : (scope.resolve.1.append marker.toText).Traced strict := by
  refine traced.resolve.append_unit marker.toUnit ?_
  intro _ ends
  rw [endsWith_of_literal literal] at ends
  cases ends

/-- A text that is no specifier does not become one when its escape is resolved at a marker. -/
theorem specifier_resolve (unspecified : Specifier.ofText? scope.text = none)
    (structural : scope.resolve.2 = false) : Specifier.ofText? scope.resolve.1.text = none := by
  rcases resolve_cases scope with ⟨-, resolved⟩ | ⟨body, -, resolved⟩ <;>
    rw [resolved] at structural ⊢
  · exact unspecified
  · obtain ⟨front, rfl⟩ := (Text.endsWith_iff body _).mp (by simpa using structural)
    exact Specifier.ofText?_backslash front

end WholeScope

def WholeScope.around (document : WholeScope) : List WholePhrase → WholeScope
  | [] => document
  | phrase :: _ => phrase.scope

structure WholePhrase.Traced (phrase : WholePhrase) : Prop where
  scope : phrase.scope.Traced True
  specified : ∃ specifier : Option Specifier, (∀ s ∈ specifier, s.arguments ≠ []) ∧
    phrase.arguments = Node.argumentsOf specifier ∧
    phrase.overrideAlways = Node.overrides specifier

namespace WholeReader

def Anchored (document : WholeScope) : List WholePhrase → Prop
  | [] => True
  | phrase :: outer =>
    phrase.openIndex = (document.around outer).text.length ∧ Anchored document outer

/-- As long as no stray marker was met, the document too is escaped. -/
structure Traced (reader : WholeReader) : Prop where
  document : reader.document.Traced (reader.strays = [])
  opened : ∀ phrase ∈ reader.opened, phrase.Traced
  anchored : Anchored reader.document reader.opened

theorem scope_eq_around (reader : WholeReader) :
    reader.scope = reader.document.around reader.opened := by
  rw [scope]
  cases reader.opened <;> rfl

variable {reader : WholeReader}

theorem Traced.setScope (traced : reader.Traced) (scope : WholeScope)
    (kept : ∀ strict, reader.scope.Traced strict → scope.Traced strict) :
    (reader.setScope scope).Traced := by
  obtain ⟨document, opened, strays⟩ := reader
  cases opened with
  | nil => exact ⟨kept _ traced.document, traced.opened, trivial⟩
  | cons phrase outer =>
    obtain ⟨innermost, others⟩ := List.forall_mem_cons.mp traced.opened
    exact ⟨traced.document,
      List.forall_mem_cons.mpr ⟨⟨kept True innermost.scope, innermost.specified⟩, others⟩,
      traced.anchored⟩

theorem Traced.append_plain (traced : reader.Traced) (u : CodeUnit)
    (unmarked : Marker.ofUnit? u = none) : (reader.append [u]).Traced := by
  apply traced.setScope
  intro strict scope
  apply scope.append_unit
  intro _ _
  exact unmarked

theorem Traced.append_literal (traced : reader.Traced) (literal : reader.scope.resolve.2 = true)
    (marker : Marker) :
    ((reader.setScope reader.scope.resolve.1).append marker.toText).Traced := by
  rw [append, scope_setScope, setScope_setScope]
  apply traced.setScope
  intro strict scope
  exact scope.append_literal literal marker

theorem traced_meetOpening (traced : reader.Traced) : reader.meetOpening.Traced := by
  simp only [meetOpening]
  split
  · rename_i literal
    exact traced.append_literal literal .opening
  · have resolved := traced.setScope _ fun _ scope => scope.resolve
    refine ⟨resolved.document, List.forall_mem_cons.mpr ⟨?_, resolved.opened⟩, ?_, resolved.anchored⟩
    · exact ⟨WholeScope.traced_empty, none, by simp, rfl, rfl⟩
    · have around := scope_eq_around (reader.setScope reader.scope.resolve.1)
      rw [scope_setScope] at around
      exact congrArg (·.text.length) around

theorem traced_meetStray (traced : reader.Traced) (outside : reader.opened = []) (ahead : Text) :
    (reader.meetStray ahead).Traced := by
  refine ⟨?_, traced.opened, by rw [meetStray, outside]; trivial⟩
  simp only [meetStray]
  cases literal : reader.document.resolve.2 with
  | true => exact traced.document.append_literal literal .closing
  | false =>
    refine (traced.document.resolve.weaken _ ?_).append_unit Marker.closing.toUnit ?_
    all_goals simp

theorem traced_closePhrase (traced : reader.Traced) (phrase : WholePhrase)
    (outer : List WholePhrase) (phrase_traced : phrase.Traced)
    (unspecified : Specifier.ofText? phrase.scope.text = none)
    (others : ∀ other ∈ outer, other.Traced)
    (anchored : Anchored reader.document (phrase :: outer)) :
    (reader.closePhrase phrase outer).Traced := by
  obtain ⟨specifier, specified, arguments, overrides⟩ := phrase_traced.specified
  obtain ⟨content, shows, escaped⟩ := phrase_traced.scope
  let around : WholeReader := { reader with opened := outer }
  have around_traced : around.Traced := ⟨traced.document, others, anchored.2⟩
  have open_index : phrase.openIndex = around.scope.text.length := by
    rw [scope_eq_around]
    exact anchored.1
  have proper : (Node.phrase specifier content).Proper (fun _ => True) := by
    refine ⟨fun s member => ⟨specified s member, fun _ _ => trivial⟩, ?_, escaped trivial,
      shows.proper⟩
    rw [Node.specifier_scopeText_iff, ← shows.text]
    exact unspecified
  have closed : (Node.phrase specifier content).phrases phrase.openIndex = [phrase.close] := by
    simp only [Node.phrases, WholePhrase.close, shows.text, shows.children, arguments, overrides]
  apply around_traced.setScope
  intro strict scope
  have appended := scope.append_node (.phrase specifier content)
    (phrase.close :: around.scope.children) proper
    (by rw [List.reverse_cons, ← closed, open_index]) (by simp)
  rw [Node.text, ← shows.text] at appended
  exact appended

theorem traced_specify {phrase : WholePhrase} (traced : phrase.Traced) (specifier : Specifier)
    (found : Specifier.ofText? phrase.scope.text = some specifier) :
    (phrase.specify specifier).Traced := by
  -- The text restarts, and no child is lost with it.
  have children := List.reverse_eq_nil_iff.mpr (traced.scope.children_eq_nil specifier found)
  refine ⟨⟨[], ⟨rfl, children, trivial⟩, fun _ => Node.escaped_nil⟩,
    some ⟨specifier.arguments, specifier.overrideAlways || phrase.overrideAlways⟩, ?_, rfl, rfl⟩
  intro s member
  cases member
  exact Specifier.arguments_ne_nil _ specifier found

theorem traced_meetClosing (traced : reader.Traced) (ahead : Text) :
    (reader.meetClosing ahead).Traced := by
  unfold meetClosing
  split
  · rename_i outside
    exact traced_meetStray traced outside ahead
  · rename_i phrase outer opened
    have all_traced := traced.opened
    rw [opened] at all_traced
    obtain ⟨phrase_traced, others⟩ := List.forall_mem_cons.mp all_traced
    have anchored := traced.anchored
    rw [opened] at anchored
    split
    · rename_i specifier found
      exact ⟨traced.document,
        List.forall_mem_cons.mpr ⟨traced_specify phrase_traced specifier found, others⟩, anchored⟩
    · rename_i unspecified
      have scope_eq : reader.scope = phrase.scope := by rw [WholeReader.scope, opened]
      simp only [← scope_eq]
      split
      · rename_i literal
        exact traced.append_literal literal .closing
      · rename_i structural
        have structural : reader.scope.resolve.2 = false := by simpa using structural
        rw [scope_eq] at structural
        rw [scope_eq]
        exact traced_closePhrase traced _ outer ⟨phrase_traced.scope.resolve, phrase_traced.specified⟩
          (WholeScope.specifier_resolve unspecified structural) others anchored

theorem traced_step (traced : reader.Traced) (u : CodeUnit) (ahead : Text) :
    (reader.step u ahead).Traced := by
  unfold step
  split
  · rename_i unmarked
    exact traced.append_plain u unmarked
  · exact traced_meetOpening traced
  · exact traced_meetClosing traced ahead

theorem traced_start : start.Traced :=
  ⟨WholeScope.traced_empty, by simp [start], trivial⟩

end WholeReader

theorem traced_readWhole (markup : Text) : (readWhole markup).Traced := by
  apply WholeReader.read_induction WholeReader.Traced
  · intro reader u ahead traced
    exact WholeReader.traced_step traced u ahead
  · exact WholeReader.traced_start

end AnsiMarkup
