import AnsiMarkup.Proofs.Rendering.Service

namespace AnsiMarkup

namespace Rendering

mutual

/-- A closed phrase as it is displayed by its codes, with `around` set again at its end. -/
def shown (around : Text) : Phrase → Text
  | ⟨text, _, _, _, _, styleCode, children⟩ =>
    "\x1b[" ++ styleCode.getD [] ++ "m" ++ shownAll (styleCode.getD []) text 0 children ++
      "\x1b[0;" ++ around ++ "m"

def shownAll (around : Text) (text : Text) (last : Int) : List Phrase → Text
  | [] => text.sliceFrom last
  | phrase :: rest =>
    text.slice last phrase.openIndex ++ shown around phrase ++
      shownAll around text (phrase.closeIndex.getD 0 + 1) rest

end

theorem enclose_eq (codes body around : Text) :
    Terminal.enclose codes body around = "\x1b[" ++ codes ++ "m" ++ body ++ "\x1b[0;" ++ around ++ "m" := by
  calc
    Terminal.enclose codes body around
      = (("\x1b[" : Text) ++ codes ++ "m") ++ body ++ ("\x1b[" ++ ("0;" ++ around) ++ "m") := rfl
    _ = "\x1b[" ++ codes ++ "m" ++ body ++ (("\x1b[" : Text) ++ "0;") ++ around ++ "m" := by
      simp only [List.append_assoc]
    _ = "\x1b[" ++ codes ++ "m" ++ body ++ "\x1b[0;" ++ around ++ "m" := rfl

theorem shownAll_cons (around text : Text) (last : Int) (phrase : Phrase) (rest : List Phrase) :
    shownAll around text last (phrase :: rest) =
      text.slice last phrase.openIndex ++
        Terminal.enclose (codesOf (some phrase))
          (shownAll (codesOf (some phrase)) phrase.text 0 phrase.children) around ++
        shownAll around text (phrase.closeIndex.getD 0 + 1) rest := by
  cases phrase
  rw [enclose_eq]
  rfl

theorem shownAll_setCodes_cons (around text : Text) (last : Int) (phrase : Phrase)
    (rest : List Phrase) (close : Int) (closed : phrase.closeIndex = some close) (code : Text)
    (front back : List Text) (enough : front.length = Phrase.counts phrase.children) :
    shownAll around text last (setCodes (phrase :: rest) (code :: (front ++ back))).1 =
      text.slice last phrase.openIndex ++
        (Terminal.enclose code (shownAll code phrase.text 0 (setCodes phrase.children front).1)
          around ++ shownAll around text (close + 1) (setCodes rest back).1) := by
  simp only [setCodes_cons, setCodes_append _ front back enough]
  rw [shownAll_cons, closed, List.append_assoc]
  rfl

/-- Rendering a forest serves its phrases in document order. Unless one of them is refused, the
forest is displayed by the codes that they were given. -/
theorem writtenAll_run (table : FlagTable) (around : Option Phrase) (text : Text) (last : Int)
    (phrases : List Phrase) (progress : Progress) :
    (Walk.writtenAll (visitor table) around text last phrases).run.run progress =
      let service := serveAll table progress.supply (Phrase.order phrases)
      (service.result (shownAll (codesOf around) text last (setCodes phrases service.codes).1),
        ⟨service.supply, service.codes.reverse ++ progress.codes⟩) := by
  induction phrases using Phrase.forest_induction generalizing around text last progress with
  | nil => rfl
  | cons phrase rest below right =>
    rw [Walk.writtenAll, Phrase.order_cons]
    cases closed : phrase.closeIndex with
    | none =>
      simp only [serveAll, serve, closed]
      rfl
    | some close =>
      have entered : ((visitor table).enter phrase around).run.run progress = _ :=
        enter_run table phrase close closed progress
      simp only [Walk.written_eq, bind_assoc]
      rw [bind_run, serveAll, entered]
      rcases serve table progress.supply phrase with ⟨result, left⟩
      cases result with
      | error error => rfl
      | ok code =>
        -- The children are walked with the coded phrase around them.
        have inner := below (some { phrase with styleCode := some code }) phrase.text 0
          ⟨left, code :: progress.codes⟩
        have length := length_serveAll table left (Phrase.order phrase.children)
        simp only at inner ⊢
        rw [bind_run, inner, serveAll_append]
        rcases service : serveAll table left (Phrase.order phrase.children) with
          ⟨front, refused, supply⟩
        cases refused with
        | some error => simp [Service.result, Service.andThen]
        | none =>
          have enough : front.length = Phrase.counts phrase.children := by
            rw [service] at length
            rw [length rfl, Phrase.length_order]
          have others := right around text (close + 1) ⟨supply, front.reverse ++ code :: progress.codes⟩
          simp only [Service.result, Service.andThen] at others ⊢
          rw [bind_run]
          change StateT.run ((Walk.writtenAll _ _ _ _ _ >>= _).run) _ = _
          rw [bind_run, others]
          rcases serveAll table supply (Phrase.order rest) with ⟨back, refused, supply⟩
          cases refused with
          | some error => simp
          | none =>
            simp only [shownAll_setCodes_cons _ _ _ _ _ close closed _ _ _ enough, List.reverse_cons,
              List.reverse_append, List.append_assoc]
            rfl

end Rendering

theorem render_eq (table : FlagTable) (text : Text) (phrases : List Phrase) (supply : Supply)
    (parent : Option Phrase) :
    render table text phrases supply parent =
      let service := Rendering.serveAll table supply (Phrase.order phrases)
      let coded := (Rendering.setCodes phrases service.codes).1
      ⟨service.result (Rendering.shownAll (Rendering.codesOf parent) text 0 coded), coded,
        service.supply⟩ := by
  rw [render, walk_eq, Rendering.writtenAll_run]
  simp only [List.append_nil, List.reverse_reverse]

end AnsiMarkup
