import AnsiMarkup.Proofs.Phrase.Forests
import AnsiMarkup.Walk

namespace AnsiMarkup

namespace Walk

variable {m : Type → Type} [Monad m]

mutual

def written (visitor : Visitor m) (around : Option Phrase) : Phrase → ExceptT Error m Text
  | ⟨text, openIndex, closeIndex, arguments, overrideAlways, styleCode, children⟩ => do
    let entered ← visitor.enter
      ⟨text, openIndex, closeIndex, arguments, overrideAlways, styleCode, children⟩ around
    let body ← writtenAll visitor (some entered) text 0 children
    visitor.wrap entered body around

def writtenAll (visitor : Visitor m) (around : Option Phrase) (text : Text) (last : Int) :
    List Phrase → ExceptT Error m Text
  | [] => pure (text.sliceFrom last)
  | phrase :: rest =>
    match phrase.closeIndex with
    | none => throw (.renderedUnclosed phrase.text)
    | some close => do
      let piece ← written visitor around phrase
      let others ← writtenAll visitor around text (close + 1) rest
      pure (text.slice last phrase.openIndex ++ piece ++ others)

end

theorem written_eq (visitor : Visitor m) (around : Option Phrase) (phrase : Phrase) :
    written visitor around phrase = (do
      let entered ← visitor.enter phrase around
      let body ← writtenAll visitor (some entered) phrase.text 0 phrase.children
      visitor.wrap entered body around) := by
  cases phrase
  rw [written]

/-- What follows once the text of a frame is written: it is wrapped into the frame around it. -/
def resume (visitor : Visitor m) (owner : Option Phrase) (text : Text) :
    List Frame → ExceptT Error m Text
  | [] => pure text
  | around :: beyond =>
    match owner with
    | none => throw .frameWithoutPhrase
    | some owner => do
      let piece ← visitor.wrap owner text around.owner
      run visitor (around.write piece) beyond

/-- The stack carries the recursion: a frame writes all that is pending and hands it outwards. -/
theorem run_eq [LawfulMonad m] (visitor : Visitor m) (frame : Frame) (outer : List Frame) :
    run visitor frame outer = (do
      let rest ← writtenAll visitor frame.owner frame.text frame.last frame.pending
      resume visitor frame.owner (frame.out ++ rest) outer) := by
  rcases frame with ⟨owner, text, pending, last, out⟩
  -- Entering a phrase makes the stack deeper, so the induction is on what is pending on top of it.
  induction pending using Phrase.forest_induction generalizing owner text last out outer with
  | nil =>
    rw [run.eq_def, writtenAll, pure_bind]
    cases outer with
    | nil => rfl
    | cons around beyond => cases owner <;> rfl
  | cons phrase rest below right =>
    rw [run.eq_def, writtenAll]
    cases closed : phrase.closeIndex with
    | none =>
      simp only [closed]
      exact (ExceptT.bind_throw _).symm
    | some close =>
      simp only [closed, written_eq, bind_assoc]
      refine bind_congr fun entered => ?_
      let passed := Frame.pass ⟨owner, text, phrase :: rest, last, out⟩ phrase close rest
      have children := below (passed :: outer) (some entered) phrase.text 0 []
      refine children.trans (bind_congr fun body => bind_congr fun piece => ?_)
      have siblings := right outer owner text (close + 1) (passed.out ++ piece)
      refine siblings.trans (bind_congr fun others => ?_)
      rw [pure_bind]
      simp only [passed, Frame.pass, List.append_assoc]

end Walk

theorem walk_eq {m : Type → Type} [Monad m] [LawfulMonad m] (visitor : Visitor m) (text : Text)
    (phrases : List Phrase) (parent : Option Phrase) :
    walk visitor text phrases parent = Walk.writtenAll visitor parent text 0 phrases := by
  rw [walk, Walk.run_eq]
  exact bind_pure _

end AnsiMarkup
