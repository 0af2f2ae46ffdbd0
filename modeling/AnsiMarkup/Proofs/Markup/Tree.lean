import AnsiMarkup.Proofs.Markup.Escapes
import AnsiMarkup.Phrase
import Mathlib.Data.List.Chain

/-! Documents as trees: a scope is a row of units and phrases, and a phrase has a scope of its own.
The tree of a document determines its text and its phrases. -/

namespace AnsiMarkup

inductive Node
  | unit (u : CodeUnit)
  | phrase (specifier : Option Specifier) (content : List Node)

namespace Node

@[elab_as_elim]
theorem scope_induction {motive : List Node → Prop} (nil : motive [])
    (unit : ∀ u rest, motive rest → motive (.unit u :: rest))
    (phrase : ∀ specifier content rest, motive content → motive rest →
      motive (.phrase specifier content :: rest)) (nodes : List Node) : motive nodes := by
  match nodes with
  | [] => exact nil
  | .unit u :: rest => exact unit u rest (scope_induction nil unit phrase rest)
  | .phrase specifier content :: rest =>
    apply phrase
    · exact scope_induction nil unit phrase content
    · exact scope_induction nil unit phrase rest

def argumentsOf (specifier : Option Specifier) : List Number :=
  (specifier.map Specifier.arguments).getD []

def overrides (specifier : Option Specifier) : Bool :=
  (specifier.map Specifier.overrideAlways).getD false

mutual

def text : Node → Text
  | .unit u => [u]
  | .phrase _ content => Marker.opening.toText ++ scopeText content ++ Marker.closing.toText

def scopeText : List Node → Text
  | [] => []
  | node :: rest => text node ++ scopeText rest

end

mutual

def phrases (start : Nat) : Node → List Phrase
  | .unit _ => []
  | .phrase specifier content =>
    [{ text := scopeText content
       openIndex := start
       closeIndex := some (start + 1 + (scopeText content).length)
       arguments := argumentsOf specifier
       overrideAlways := overrides specifier
       styleCode := none
       children := scopePhrases 0 content }]

def scopePhrases (start : Nat) : List Node → List Phrase
  | [] => []
  | node :: rest => phrases start node ++ scopePhrases (start + (text node).length) rest

end

def document (nodes : List Node) : Document := ⟨scopeText nodes, scopePhrases 0 nodes⟩

theorem scopeText_append (front back : List Node) :
    scopeText (front ++ back) = scopeText front ++ scopeText back := by
  induction front with
  | nil => simp [scopeText]
  | cons node front ih => simp [scopeText, ih]

theorem scopeText_concat (front : List Node) (node : Node) :
    scopeText (front ++ [node]) = scopeText front ++ text node := by
  simp [scopeText_append, scopeText]

theorem scopePhrases_append (start : Nat) (front back : List Node) :
    scopePhrases start (front ++ back) =
      scopePhrases start front ++ scopePhrases (start + (scopeText front).length) back := by
  induction front generalizing start with
  | nil => simp [scopePhrases, scopeText]
  | cons node front ih =>
    rw [List.cons_append, scopePhrases, ih, scopePhrases, scopeText, List.length_append,
      List.append_assoc, Nat.add_assoc]

theorem scopePhrases_concat (start : Nat) (front : List Node) (node : Node) :
    scopePhrases start (front ++ [node]) =
      scopePhrases start front ++ phrases (start + (scopeText front).length) node := by
  simp [scopePhrases_append, scopePhrases]

/-- The text of a phrase ends in a marker, so a backslash at the end of a scope is a unit. -/
theorem scopeText_backslash (nodes : List Node) (body : Text)
    (ends : scopeText nodes = body ++ [CodeUnit.backslash]) :
    ∃ front, nodes = front ++ [.unit CodeUnit.backslash] ∧ scopeText front = body := by
  rcases List.eq_nil_or_concat' nodes with rfl | ⟨front, last, rfl⟩
  · simp [scopeText] at ends
  · rw [scopeText_concat] at ends
    cases last with
    | unit u =>
      obtain ⟨same, units⟩ := List.append_inj' ends rfl
      cases units
      exact ⟨front, rfl, same⟩
    | phrase specifier content =>
      have marked := Text.endsWith_marker
        (scopeText front ++ (Marker.opening.toText ++ scopeText content)) .closing
      rw [List.append_assoc, ← text, ends, Text.endsWith_concat] at marked
      cases marked

/-- No marker unit directly follows a backslash unit. -/
def Escaped (nodes : List Node) : Prop :=
  nodes.IsChain fun before after =>
    before = .unit CodeUnit.backslash → ∀ u, after = .unit u → Marker.ofUnit? u = none

theorem escaped_nil : Escaped [] := .nil

theorem escaped_append (front back : List Node) (escaped : Escaped (front ++ back)) :
    Escaped front ∧ Escaped back :=
  ⟨(List.isChain_append.mp escaped).1, (List.isChain_append.mp escaped).2.1⟩

theorem escaped_concat (front : List Node) (node : Node) (escaped : Escaped front)
    (apart : Text.endsWith (scopeText front) CodeUnit.backslash = true →
      ∀ u, node = .unit u → Marker.ofUnit? u = none) :
    Escaped (front ++ [node]) := by
  refine List.isChain_append.mpr ⟨escaped, List.isChain_singleton _, ?_⟩
  intro before last after first same
  rw [List.head?_cons, Option.mem_some_iff] at first
  subst first same
  apply apart
  obtain ⟨others, rfl⟩ := List.getLast?_eq_some_iff.mp last
  rw [scopeText_concat, text, Text.endsWith_concat]
  rfl

mutual

/-- A specifier has arguments, all of them allowed, and text that could be a specifier is none. -/
def Proper (allowed : Number → Prop) : Node → Prop
  | .unit _ => True
  | .phrase specifier content =>
    (∀ s ∈ specifier, s.arguments ≠ [] ∧ ∀ argument ∈ s.arguments, allowed argument) ∧
      (∀ literal : Text, content = literal.map .unit → Specifier.ofText? literal = none) ∧
      Escaped content ∧ ScopeProper allowed content

def ScopeProper (allowed : Number → Prop) : List Node → Prop
  | [] => True
  | node :: rest => Proper allowed node ∧ ScopeProper allowed rest

end

theorem scopeProper_iff (allowed : Number → Prop) (nodes : List Node) :
    ScopeProper allowed nodes ↔ ∀ node ∈ nodes, Proper allowed node := by
  induction nodes with
  | nil => simp [ScopeProper]
  | cons node nodes ih => rw [ScopeProper, ih, List.forall_mem_cons]

theorem scopeProper_append (allowed : Number → Prop) (front back : List Node) :
    ScopeProper allowed (front ++ back) ↔ ScopeProper allowed front ∧ ScopeProper allowed back := by
  simp only [scopeProper_iff, List.mem_append, or_imp, forall_and]

theorem scopeText_units (literal : Text) : scopeText (literal.map .unit) = literal := by
  induction literal with
  | nil => rfl
  | cons u literal ih => simp [scopeText, text, ih]

theorem scopePhrases_units (start : Nat) (literal : Text) :
    scopePhrases start (literal.map .unit) = [] := by
  induction literal generalizing start with
  | nil => rfl
  | cons u literal ih => simp [scopePhrases, phrases, ih]

theorem units_of_isPlain (nodes : List Node) (plain : Text.IsPlain (scopeText nodes)) :
    nodes = (scopeText nodes).map .unit := by
  induction nodes with
  | nil => rfl
  | cons node nodes ih =>
    rw [scopeText, Text.isPlain_append] at plain
    cases node with
    | unit u =>
      rw [scopeText, text, List.singleton_append, List.map_cons, ← ih plain.2]
    | phrase specifier content =>
      rw [text] at plain
      exact absurd plain.1 (Text.not_isPlain_concat _ _)

theorem specifier_scopeText_iff (content : List Node) :
    (∀ literal : Text, content = literal.map .unit → Specifier.ofText? literal = none) ↔
      Specifier.ofText? (scopeText content) = none := by
  constructor
  · intro literals
    cases found : Specifier.ofText? (scopeText content) with
    | none => rfl
    | some specifier =>
      have units := units_of_isPlain content (Specifier.isPlain_of_ofText? _ specifier found)
      rw [literals _ units] at found
      cases found
  · rintro unspecified literal rfl
    rwa [scopeText_units] at unspecified

end Node

end AnsiMarkup
