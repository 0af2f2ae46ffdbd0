import AnsiMarkup.Number
import AnsiMarkup.Text

namespace AnsiMarkup

/-- A phrase points into the text around it, which is its parent's text or the document. Its own text
holds each child between the two markers. A phrase that is still open has no closing index. -/
structure Phrase where
  text : Text
  openIndex : Int
  closeIndex : Option Int
  arguments : List Number
  overrideAlways : Bool
  styleCode : Option Text
  children : List Phrase
  deriving Inhabited, Repr

namespace Phrase

mutual

def preorder (depth : Nat) : Phrase → List (Nat × Phrase)
  | ⟨text, openIndex, closeIndex, arguments, overrideAlways, styleCode, children⟩ =>
    (depth, ⟨text, openIndex, closeIndex, arguments, overrideAlways, styleCode, children⟩) ::
      preorders (depth + 1) children

def preorders (depth : Nat) : List Phrase → List (Nat × Phrase)
  | [] => []
  | phrase :: rest => preorder depth phrase ++ preorders depth rest

end

mutual

def count : Phrase → Nat
  | ⟨_, _, _, _, _, _, children⟩ => counts children + 1

def counts : List Phrase → Nat
  | [] => 0
  | phrase :: rest => count phrase + counts rest

end

theorem count_eq (phrase : Phrase) : phrase.count = counts phrase.children + 1 := by
  cases phrase
  rfl

end Phrase

structure Document where
  text : Text
  phrases : List Phrase
  deriving Repr

end AnsiMarkup
