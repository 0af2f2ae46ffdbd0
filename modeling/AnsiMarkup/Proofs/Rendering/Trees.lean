import AnsiMarkup.Proofs.Markup.Levels
import AnsiMarkup.Proofs.Markup.Within
import AnsiMarkup.Proofs.Rendering.Recursion
import AnsiMarkup.Rendering

/-! Walking the document of a tree is walking the tree: no index is needed for it. -/

namespace AnsiMarkup

theorem Text.sliceFrom_natCast (text : Text) (start : Nat) :
    text.sliceFrom start = text.drop start := by
  rw [sliceFrom, clampIndex, if_neg (by omega)]
  rcases Nat.le_total start text.length with inside | beyond
  · exact congrArg text.drop (Nat.min_eq_left inside)
  · rw [List.drop_of_length_le beyond]
    exact List.drop_of_length_le (Nat.le_of_eq (Nat.min_eq_right beyond).symm)

theorem Text.slice_length_append (front back : Text) (start : Nat) (order : start ≤ front.length) :
    (front ++ back).slice start front.length = front.drop start := by
  rw [slice_of_le _ _ _ (by simp) order, List.drop_append_of_le_length order,
    List.take_left' List.length_drop]

variable {m : Type → Type} [Monad m]

namespace Node

def phraseAt (start : Nat) (specifier : Option Specifier) (content : List Node) : Phrase where
  text := scopeText content
  openIndex := start
  closeIndex := some (start + 1 + (scopeText content).length)
  arguments := argumentsOf specifier
  overrideAlways := overrides specifier
  styleCode := none
  children := scopePhrases 0 content

theorem phrases_phrase (start : Nat) (specifier : Option Specifier) (content : List Node) :
    phrases start (.phrase specifier content) = [phraseAt start specifier content] := by
  rw [phrases, phraseAt]

theorem phraseAt_add (start n : Nat) (specifier : Option Specifier) (content : List Node) :
    phraseAt (start + n) specifier content = (phraseAt start specifier content).shift n := by
  simp only [phraseAt, Phrase.shift, Option.map_some]
  congr 2
  push_cast
  omega

theorem scopePhrases_add (start n : Nat) (nodes : List Node) :
    scopePhrases (start + n) nodes = (scopePhrases start nodes).map (Phrase.shift n) := by
  induction nodes generalizing start with
  | nil => rfl
  | cons node rest ih =>
    rw [scopePhrases, scopePhrases, List.map_append, ← ih, Nat.add_right_comm]
    cases node with
    | unit u => rfl
    | phrase specifier content => rw [phrases_phrase, phrases_phrase, phraseAt_add]; rfl

mutual

def walked (visitor : Visitor m) (around : Option Phrase) (start : Nat) : Node → ExceptT Error m Text
  | .unit u => pure [u]
  | .phrase specifier content => do
    let entered ← visitor.enter (phraseAt start specifier content) around
    let body ← walkedScope visitor (some entered) 0 content
    visitor.wrap entered body around

def walkedScope (visitor : Visitor m) (around : Option Phrase) (start : Nat) :
    List Node → ExceptT Error m Text
  | [] => pure []
  | node :: rest => do
    let piece ← walked visitor around start node
    let others ← walkedScope visitor around (start + (text node).length) rest
    pure (piece ++ others)

end

end Node

/-- A visitor to which it makes no difference where in a text a phrase is. -/
structure Visitor.Unplaced (visitor : Visitor m) : Prop where
  enter : ∀ n phrase around, visitor.enter (Phrase.shift n phrase) around =
    Phrase.shift n <$> visitor.enter phrase around
  wrap : ∀ n phrase body around, visitor.wrap (Phrase.shift n phrase) body around =
    visitor.wrap phrase body around
  enter_around : ∀ n phrase around, visitor.enter phrase (some (Phrase.shift n around)) =
    visitor.enter phrase (some around)
  wrap_around : ∀ n phrase body around, visitor.wrap phrase body (some (Phrase.shift n around)) =
    visitor.wrap phrase body (some around)

namespace Node

variable {visitor : Visitor m}

theorem walkedScope_around (unplaced : visitor.Unplaced) (n start : Nat) (around : Phrase)
    (nodes : List Node) :
    walkedScope visitor (some (around.shift n)) start nodes =
      walkedScope visitor (some around) start nodes := by
  induction nodes generalizing start with
  | nil => rfl
  | cons node rest ih =>
    rw [walkedScope, walkedScope, ih]
    cases node with
    | unit u => rfl
    | phrase specifier content =>
      rw [walked, walked, unplaced.enter_around]
      simp only [unplaced.wrap_around]

variable [LawfulMonad m]

theorem walkedScope_add (unplaced : visitor.Unplaced) (around : Option Phrase) (start n : Nat)
    (nodes : List Node) :
    walkedScope visitor around (start + n) nodes = walkedScope visitor around start nodes := by
  induction nodes generalizing start with
  | nil => rfl
  | cons node rest ih =>
    rw [walkedScope, walkedScope, Nat.add_right_comm, ih]
    cases node with
    | unit u => rfl
    | phrase specifier content =>
      rw [walked, walked, phraseAt_add, unplaced.enter]
      simp only [bind_map_left, walkedScope_around unplaced, unplaced.wrap]

theorem walkedScope_append (visitor : Visitor m) (around : Option Phrase) (start : Nat)
    (front back : List Node) :
    walkedScope visitor around start (front ++ back) = (do
      let piece ← walkedScope visitor around start front
      let others ← walkedScope visitor around (start + (scopeText front).length) back
      pure (piece ++ others)) := by
  induction front generalizing start with
  | nil => simp [walkedScope, scopeText]
  | cons node front ih =>
    rw [List.cons_append, walkedScope, walkedScope, scopeText, List.length_append, ← Nat.add_assoc]
    simp only [ih, bind_assoc, pure_bind, List.append_assoc]

/-- The walk may have written all of the text before a row of nodes, or still have the end of it to
write. -/
theorem writtenAll_scopePhrases (visitor : Visitor m) (around : Option Phrase) (front : Text)
    (last : Nat) (nodes : List Node) (order : last ≤ front.length) :
    Walk.writtenAll visitor around (front ++ scopeText nodes) last
        (scopePhrases front.length nodes) = (do
      let rest ← walkedScope visitor around front.length nodes
      pure (front.drop last ++ rest)) := by
  induction nodes using scope_induction generalizing around front last with
  | nil =>
    rw [scopePhrases, Walk.writtenAll, walkedScope, pure_bind, Text.sliceFrom_natCast, scopeText,
      List.append_nil, List.append_nil]
  | unit u rest ih =>
    -- A unit is not written yet: it waits with the end of `front` for the next phrase.
    have later := ih around (front ++ [u]) last (by rw [List.length_append]; omega)
    rw [List.append_assoc, List.length_append, List.drop_append_of_le_length order] at later
    rw [scopePhrases, phrases, List.nil_append, scopeText, text, later, walkedScope, walked]
    simp only [pure_bind, bind_assoc, List.append_assoc]
    rfl
  | phrase specifier content rest inner outer =>
    have here : Walk.written visitor around (phraseAt front.length specifier content) =
        walked visitor around front.length (.phrase specifier content) := by
      rw [Walk.written_eq, walked]
      refine bind_congr fun entered => ?_
      have body := inner (some entered) [] 0 (Nat.le_refl _)
      simp only [List.nil_append, List.length_nil, List.drop_nil, bind_pure] at body
      exact congrArg (· >>= _) body
    have past : (front ++ text (.phrase specifier content)).length =
        front.length + (text (.phrase specifier content)).length := List.length_append
    have closed : (phraseAt front.length specifier content).closeIndex =
        some ((front.length + 1 + (scopeText content).length : Nat) : Int) := by
      simp [phraseAt]
    have next : ((front.length + 1 + (scopeText content).length : Nat) : Int) + 1 =
        (front.length + (text (.phrase specifier content)).length : Nat) := by
      simp only [text, Marker.toText, List.length_append, List.length_singleton]
      omega
    have siblings := outer around (front ++ text (.phrase specifier content)) _ (Nat.le_refl _)
    have before := Text.slice_length_append front
      (text (.phrase specifier content) ++ scopeText rest) last order
    rw [List.drop_length, past] at siblings
    rw [scopePhrases, phrases_phrase, List.singleton_append, Walk.writtenAll, walkedScope, scopeText]
    simp only [closed, here, next, bind_assoc, pure_bind]
    refine bind_congr fun piece => ?_
    rw [← List.append_assoc, siblings, bind_assoc]
    refine bind_congr fun others => ?_
    rw [pure_bind, List.nil_append, List.append_assoc front]
    exact congrArg (fun written => pure (written ++ piece ++ others)) before |>.trans
      (by rw [List.append_assoc])

end Node

theorem walk_document [LawfulMonad m] (visitor : Visitor m) (nodes : List Node) (parent : Option Phrase) :
    walk visitor (Node.document nodes).text (Node.document nodes).phrases parent =
      Node.walkedScope visitor parent 0 nodes := by
  have whole := Node.writtenAll_scopePhrases visitor parent [] 0 nodes (Nat.le_refl _)
  simp only [List.nil_append, List.length_nil, List.drop_nil, bind_pure] at whole
  exact (walk_eq visitor _ _ parent).trans whole

namespace Node

mutual

def plain : Node → Text
  | .unit u => [u]
  | .phrase _ content => scopePlain content

def scopePlain : List Node → Text
  | [] => []
  | node :: rest => plain node ++ scopePlain rest

end

theorem scopePlain_append (front back : List Node) :
    scopePlain (front ++ back) = scopePlain front ++ scopePlain back := by
  induction front with
  | nil => rfl
  | cons node front ih => rw [List.cons_append, scopePlain, scopePlain, ih, List.append_assoc]

theorem walkedScope_plain (around : Option Phrase) (start : Nat) (nodes : List Node) :
    walkedScope (⟨fun phrase _ => pure phrase, fun _ body _ => pure body⟩ : Visitor Id) around start
      nodes = pure (scopePlain nodes) := by
  induction nodes using scope_induction generalizing around start with
  | nil => rfl
  | unit u rest ih => rw [walkedScope, walked, ih, pure_bind, pure_bind, scopePlain, plain]
  | phrase specifier content rest inner outer =>
    rw [walkedScope, walked, scopePlain, plain]
    simp only [pure_bind, inner, outer]

theorem strip_document (nodes : List Node) :
    strip (document nodes).text (document nodes).phrases = .ok (scopePlain nodes) := by
  rw [strip, walk_document, walkedScope_plain]
  rfl

end Node

end AnsiMarkup
