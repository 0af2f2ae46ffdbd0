import AnsiMarkup.Error
import AnsiMarkup.Phrase

/-! Walking a text and its phrases in document order. Each phrase is entered before its children and
wrapped after them, and its open ancestors are kept in a stack of frames. -/

namespace AnsiMarkup

/-- What to do at each phrase; both functions get the phrase around it, as it was entered. Entering
gives the phrase that is wrapped later, while what is below it is walked as it was. -/
structure Visitor (m : Type → Type) where
  enter : Phrase → Option Phrase → ExceptT Error m Phrase
  wrap : Phrase → Text → Option Phrase → ExceptT Error m Text

namespace Walk

/-- A text partly written: `last` is the index after the last phrase written. -/
structure Frame where
  owner : Option Phrase
  text : Text
  pending : List Phrase
  last : Int
  out : Text

namespace Frame

def start (owner : Option Phrase) (text : Text) (phrases : List Phrase) : Frame :=
  ⟨owner, text, phrases, 0, []⟩

def pass (frame : Frame) (phrase : Phrase) (close : Int) (rest : List Phrase) : Frame :=
  { frame with
    pending := rest
    last := close + 1
    out := frame.out ++ Text.slice frame.text frame.last phrase.openIndex }

def write (frame : Frame) (piece : Text) : Frame := { frame with out := frame.out ++ piece }

def finish (frame : Frame) : Text := frame.out ++ Text.sliceFrom frame.text frame.last

end Frame

/-- How many steps are left at most: two for each phrase still to be written, one for each frame. -/
def remaining (frame : Frame) : List Frame → Nat
  | [] => 2 * Phrase.counts frame.pending
  | around :: beyond => 2 * Phrase.counts frame.pending + 1 + remaining around beyond

def run {m : Type → Type} [Monad m] (visitor : Visitor m) (frame : Frame) (outer : List Frame) :
    ExceptT Error m Text :=
  match _next : frame.pending with
  | phrase :: rest =>
    match phrase.closeIndex with
    | none => throw (.renderedUnclosed phrase.text)
    | some close => do
      let entered ← visitor.enter phrase frame.owner
      run visitor (.start (some entered) phrase.text phrase.children)
        (frame.pass phrase close rest :: outer)
  | [] =>
    match outer with
    | [] => pure frame.finish
    | around :: beyond =>
      match frame.owner with
      -- Inner frames are started for a phrase, so this is never reached.
      | none => throw .frameWithoutPhrase
      | some owner => do
        let piece ← visitor.wrap owner frame.finish around.owner
        run visitor (around.write piece) beyond
termination_by remaining frame outer
decreasing_by
  · cases outer <;>
      simp [remaining, Frame.start, Frame.pass, _next, Phrase.counts, Phrase.count_eq] <;> omega
  · cases beyond <;> simp [remaining, Frame.write, _next, Phrase.counts]

end Walk

def walk {m : Type → Type} [Monad m] (visitor : Visitor m) (text : Text) (phrases : List Phrase)
    (parent : Option Phrase) : ExceptT Error m Text :=
  Walk.run visitor (.start parent text phrases) []

end AnsiMarkup
