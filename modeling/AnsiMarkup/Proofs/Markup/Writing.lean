import AnsiMarkup.Proofs.Markup.Specifiers
import AnsiMarkup.Proofs.Markup.Steps
import AnsiMarkup.Proofs.Markup.Tree

namespace AnsiMarkup

namespace Node

def isBackslash : Node → Bool
  | .unit u => u == CodeUnit.backslash
  | .phrase _ _ => false

/-- A backslash that is text is followed by one more where a structural marker comes next. -/
def guard (escaped : Bool) : Text := if escaped then [CodeUnit.backslash] else []

def specifierMarkup : Option Specifier → Text
  | none => []
  | some specifier => specifier.toText ++ Marker.closing.toText

mutual

/-- `escaped` tells whether the node comes right after a backslash unit. -/
def markup (escaped : Bool) : Node → Text
  | .unit u => if (Marker.ofUnit? u).isSome then [CodeUnit.backslash, u] else [u]
  | .phrase specifier content =>
    guard escaped ++ Marker.opening.toText ++ specifierMarkup specifier ++
      scopeMarkup false content ++
      guard (content.getLast?.any isBackslash) ++ Marker.closing.toText

def scopeMarkup (escaped : Bool) : List Node → Text
  | [] => []
  | node :: rest => markup escaped node ++ scopeMarkup node.isBackslash rest

end

theorem endsWith_text (node : Node) (before : Text) :
    Text.endsWith (before ++ node.text) CodeUnit.backslash = node.isBackslash := by
  cases node with
  | unit u => exact Text.endsWith_concat before u _
  | phrase specifier content =>
    rw [text, ← List.append_assoc]
    exact Text.endsWith_marker _ _

theorem endsWith_scopeText (nodes : List Node) :
    Text.endsWith (scopeText nodes) CodeUnit.backslash = nodes.getLast?.any isBackslash := by
  rcases List.eq_nil_or_concat' nodes with rfl | ⟨front, last, rfl⟩
  · rfl
  · rw [scopeText_concat, endsWith_text, List.getLast?_concat, Option.any_some]

end Node

namespace WholeScope

def add (scope : WholeScope) (nodes : List Node) : WholeScope :=
  ⟨scope.text ++ Node.scopeText nodes,
    (Node.scopePhrases scope.text.length nodes).reverse ++ scope.children⟩

theorem add_nil (scope : WholeScope) : scope.add [] = scope := by
  simp [add, Node.scopeText, Node.scopePhrases]

theorem add_cons (scope : WholeScope) (node : Node) (rest : List Node) :
    scope.add (node :: rest) = (scope.add [node]).add rest := by
  simp [add, Node.scopeText, Node.scopePhrases]

theorem add_unit (scope : WholeScope) (u : CodeUnit) : scope.add [.unit u] = scope.append [u] := by
  simp [add, append, Node.scopeText, Node.text, Node.scopePhrases, Node.phrases]

theorem resolve_guarded (scope : WholeScope) :
    (scope.append (Node.guard (scope.text.endsWith CodeUnit.backslash))).resolve =
      (scope, false) := by
  cases ends : scope.text.endsWith CodeUnit.backslash with
  | false => simp [append, Node.guard, resolve, Escaping.ofText_of_not_endsWith _ ends]
  | true => simp [append, Node.guard, resolve, Escaping.ofText_backslash, ends]

theorem resolve_escaped (scope : WholeScope)
    (ends : scope.text.endsWith CodeUnit.backslash = false) :
    (scope.append [CodeUnit.backslash]).resolve = (scope, true) := by
  simp [append, resolve, Escaping.ofText_backslash, ends]

theorem specifier_guarded (scope : WholeScope)
    (unspecified : Specifier.ofText? scope.text = none) :
    Specifier.ofText?
      (scope.append (Node.guard (scope.text.endsWith CodeUnit.backslash))).text = none := by
  cases ends : scope.text.endsWith CodeUnit.backslash with
  | false => simpa [append, Node.guard] using unspecified
  | true => exact Specifier.ofText?_backslash scope.text

end WholeScope

namespace WholeReader

theorem isPlain_guard (escaped : Bool) : Text.IsPlain (Node.guard escaped) := by
  intro u member
  cases escaped with
  | false => simp [Node.guard] at member
  | true =>
    rw [Node.guard, if_pos rfl, List.mem_singleton] at member
    rw [member]
    rfl

theorem read_marker (reader : WholeReader) (marker : Marker) (ahead : Text) :
    reader.read [] (marker.toText ++ ahead) =
      match marker with
      | .opening => reader.meetOpening.read [] ahead
      | .closing => (reader.meetClosing ahead).read [] ahead := by
  rw [Marker.toText, List.singleton_append, read_cons, step, Marker.ofUnit?_toUnit]
  cases marker <;> rfl

theorem read_opening (reader : WholeReader) (ahead : Text) :
    reader.read [] (Node.guard (reader.scope.text.endsWith CodeUnit.backslash) ++
        (Marker.opening.toText ++ ahead)) =
      ({ reader with
          opened := WholePhrase.start reader.scope.text.length :: reader.opened } :
        WholeReader).read [] ahead := by
  rw [read_plain _ _ _ (isPlain_guard _), read_marker]
  simp only [meetOpening]
  rw [append, scope_setScope, WholeScope.resolve_guarded, setScope_setScope, setScope_scope]
  rfl

theorem meetOpening_escaped (reader : WholeReader)
    (ends : reader.scope.text.endsWith CodeUnit.backslash = false) :
    (reader.append [CodeUnit.backslash]).meetOpening = reader.append Marker.opening.toText := by
  simp only [meetOpening]
  rw [append, scope_setScope, WholeScope.resolve_escaped _ ends, setScope_setScope, setScope_scope]
  rfl

theorem meetClosing_escaped (reader : WholeReader) (ahead : Text)
    (ends : reader.scope.text.endsWith CodeUnit.backslash = false) :
    (reader.append [CodeUnit.backslash]).meetClosing ahead =
      reader.append Marker.closing.toText := by
  rcases reader with ⟨document, opened, strays⟩
  cases opened with
  | nil =>
    have resolved := WholeScope.resolve_escaped document ends
    simp only [append, setScope, scope, meetClosing, meetStray, resolved, if_true]
  | cons phrase outer =>
    have resolved := WholeScope.resolve_escaped phrase.scope ends
    have unspecified : Specifier.ofText? (phrase.scope.append [CodeUnit.backslash]).text = none :=
      Specifier.ofText?_backslash _
    simp only [append, setScope, scope, meetClosing, resolved, unspecified, if_true]

theorem read_escaped (reader : WholeReader) (marker : Marker) (ahead : Text)
    (ends : reader.scope.text.endsWith CodeUnit.backslash = false) :
    reader.read [] (CodeUnit.backslash :: (marker.toText ++ ahead)) =
      (reader.append marker.toText).read [] ahead := by
  rw [read_cons, step, Marker.ofUnit?_backslash]
  simp only
  rw [read_marker]
  cases marker with
  | opening => simp only [meetOpening_escaped reader ends]
  | closing => simp only [meetClosing_escaped reader ahead ends]

theorem read_closing (document : WholeScope) (phrase : WholePhrase) (outer : List WholePhrase)
    (strays : List Stray) (unspecified : Specifier.ofText? phrase.scope.text = none)
    (ahead : Text) :
    read ⟨document, phrase :: outer, strays⟩ []
        (Node.guard (phrase.scope.text.endsWith CodeUnit.backslash) ++
          (Marker.closing.toText ++ ahead)) =
      (closePhrase ⟨document, phrase :: outer, strays⟩ phrase outer).read [] ahead := by
  have resolved := WholeScope.resolve_guarded phrase.scope
  have still := WholeScope.specifier_guarded phrase.scope unspecified
  rw [read_plain _ _ _ (isPlain_guard _), read_marker]
  simp only [append, setScope, scope, meetClosing, resolved, still]
  rfl

theorem read_specifies (document : WholeScope) (phrase : WholePhrase) (outer : List WholePhrase)
    (strays : List Stray) (blank : phrase.scope.text = []) (text : Text) (specifier : Specifier)
    (found : Specifier.ofText? text = some specifier) (ahead : Text) :
    read ⟨document, phrase :: outer, strays⟩ [] (text ++ (Marker.closing.toText ++ ahead)) =
      read ⟨document, phrase.specify specifier :: outer, strays⟩ [] ahead := by
  have plain := Specifier.isPlain_of_ofText? text specifier found
  have whole : (phrase.scope.append text).text = text := by
    rw [WholeScope.append, blank, List.nil_append]
  rw [read_plain _ _ _ plain, read_marker]
  simp only [append, setScope, scope, meetClosing, whole, found]
  rfl

theorem read_specifier (document : WholeScope) (openIndex : Nat) (outer : List WholePhrase)
    (strays : List Stray) (specifier : Option Specifier)
    (specified : ∀ s ∈ specifier, s.arguments ≠ [] ∧ ∀ argument ∈ s.arguments, argument.IsSafe)
    (ahead : Text) :
    read ⟨document, WholePhrase.start openIndex :: outer, strays⟩ []
        (Node.specifierMarkup specifier ++ ahead) =
      read ⟨document, ⟨openIndex, Node.argumentsOf specifier, Node.overrides specifier,
        WholeScope.empty⟩ :: outer, strays⟩ [] ahead := by
  cases specifier with
  | none => rfl
  | some s =>
    have found := Specifier.ofText?_toText s (specified s rfl).1 (specified s rfl).2
    rw [Node.specifierMarkup, List.append_assoc,
      read_specifies document (.start openIndex) outer strays rfl s.toText s found]
    simp [WholePhrase.specify, WholePhrase.start, Node.argumentsOf, Node.overrides, WholeScope.empty]

theorem closePhrase_add (reader : WholeReader) (specifier : Option Specifier)
    (content : List Node) (opened : List WholePhrase) :
    closePhrase { reader with opened := opened }
        ⟨reader.scope.text.length, Node.argumentsOf specifier, Node.overrides specifier,
          WholeScope.empty.add content⟩ reader.opened =
      reader.setScope (reader.scope.add [.phrase specifier content]) := by
  simp [closePhrase, WholePhrase.close, WholeScope.add, WholeScope.append, WholeScope.addChild,
    WholeScope.empty, Node.scopeText, Node.text, Node.scopePhrases, Node.phrases]

mutual

theorem read_markup (node : Node) (proper : node.Proper Number.IsSafe) (reader : WholeReader)
    (apart : reader.scope.text.endsWith CodeUnit.backslash = true →
      ∀ u, node = .unit u → Marker.ofUnit? u = none) (ahead : Text) :
    reader.read [] (node.markup (reader.scope.text.endsWith CodeUnit.backslash) ++ ahead) =
      (reader.setScope (reader.scope.add [node])).read [] ahead := by
  match node with
  | .unit u =>
    rw [WholeScope.add_unit, Node.markup]
    cases found : Marker.ofUnit? u with
    | none =>
      have plain : Text.IsPlain [u] := by simpa [Text.IsPlain] using found
      exact read_plain reader [u] ahead plain
    | some marker =>
      have ends : reader.scope.text.endsWith CodeUnit.backslash = false := by
        rw [Bool.eq_false_iff]
        intro ends
        rw [apart ends u rfl] at found
        cases found
      have unit := Marker.toUnit_of_ofUnit? u marker found
      subst unit
      exact read_escaped reader marker ahead ends
  | .phrase specifier content =>
    rcases proper with ⟨specified, unspecified, escaped, inner⟩
    let phrase : WholePhrase :=
      ⟨reader.scope.text.length, Node.argumentsOf specifier, Node.overrides specifier,
        WholeScope.empty⟩
    let closing : Text := Node.guard (content.getLast?.any Node.isBackslash) ++
      (Marker.closing.toText ++ ahead)
    have within := read_scopeMarkup content inner escaped
      ⟨reader.document, phrase :: reader.opened, reader.strays⟩
      (fun ends => by cases ends) closing
    have unclosed : Specifier.ofText? (WholeScope.empty.add content).text = none :=
      (Node.specifier_scopeText_iff content).mp unspecified
    have closed := read_closing reader.document
      { phrase with scope := WholeScope.empty.add content } reader.opened reader.strays
      unclosed ahead
    have guarded : content.getLast?.any Node.isBackslash =
        Text.endsWith (WholeScope.empty.add content).text CodeUnit.backslash :=
      (Node.endsWith_scopeText content).symm
    rw [Node.markup]
    simp only [List.append_assoc]
    rw [read_opening, read_specifier _ _ _ _ _ specified]
    calc
      _ = read ⟨reader.document, { phrase with scope := WholeScope.empty.add content } ::
            reader.opened, reader.strays⟩ [] closing := within
      _ = (closePhrase ⟨reader.document, { phrase with scope := WholeScope.empty.add content } ::
            reader.opened, reader.strays⟩ { phrase with scope := WholeScope.empty.add content }
            reader.opened).read [] ahead := by
        simp only [closing, guarded]
        exact closed
      _ = (reader.setScope (reader.scope.add [.phrase specifier content])).read [] ahead := by
        rw [← closePhrase_add]

theorem read_scopeMarkup (nodes : List Node) (proper : Node.ScopeProper Number.IsSafe nodes)
    (escaped : Node.Escaped nodes) (reader : WholeReader)
    (apart : reader.scope.text.endsWith CodeUnit.backslash = true →
      ∀ node ∈ nodes.head?, ∀ u, node = .unit u → Marker.ofUnit? u = none) (ahead : Text) :
    reader.read []
        (Node.scopeMarkup (reader.scope.text.endsWith CodeUnit.backslash) nodes ++ ahead) =
      (reader.setScope (reader.scope.add nodes)).read [] ahead := by
  match nodes with
  | [] =>
    rw [WholeScope.add_nil, setScope_scope]
    rfl
  | node :: rest =>
    have first := read_markup node proper.1 reader (fun ends u same => apart ends node rfl u same)
      (Node.scopeMarkup node.isBackslash rest ++ ahead)
    have ends : (reader.scope.add [node]).text.endsWith CodeUnit.backslash = node.isBackslash := by
      rw [WholeScope.add, Node.scopeText, Node.scopeText, List.append_nil, Node.endsWith_text]
    have links := List.isChain_cons.mp escaped
    have apart_rest : node.isBackslash = true →
        ∀ next ∈ rest.head?, ∀ u, next = .unit u → Marker.ofUnit? u = none := by
      intro backslash next newest
      apply links.1 next newest
      cases node with
      | unit u =>
        have unit : u = CodeUnit.backslash := by simpa [Node.isBackslash] using backslash
        rw [unit]
      | phrase specifier content => cases backslash
    have later := read_scopeMarkup rest proper.2 links.2 (reader.setScope (reader.scope.add [node]))
    rw [scope_setScope, ends, setScope_setScope] at later
    calc
      _ = (reader.setScope (reader.scope.add [node])).read []
            (Node.scopeMarkup node.isBackslash rest ++ ahead) := by
        rw [Node.scopeMarkup, List.append_assoc, first]
      _ = (reader.setScope ((reader.scope.add [node]).add rest)).read [] ahead :=
        later apart_rest ahead
      _ = (reader.setScope (reader.scope.add (node :: rest))).read [] ahead := by
        rw [WholeScope.add_cons reader.scope node rest]

end

end WholeReader

end AnsiMarkup
