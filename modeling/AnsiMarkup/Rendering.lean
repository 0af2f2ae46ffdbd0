import AnsiMarkup.Supply
import AnsiMarkup.Terminal
import AnsiMarkup.Walk

namespace AnsiMarkup

namespace Rendering

/-- The supply while a rendering goes on, and the codes given so far, newest first. -/
structure Progress where
  supply : Supply
  codes : List Text
  deriving Repr

def enter (table : FlagTable) (phrase : Phrase) : ExceptT Error (StateM Progress) Phrase :=
  ExceptT.mk fun progress =>
    match (Supply.style table phrase).run.run progress.supply with
    | (.ok styled, supply) => (.ok styled, ⟨supply, styled.styleCode.getD [] :: progress.codes⟩)
    | (.error error, supply) => (.error error, ⟨supply, progress.codes⟩)

def codesOf (phrase : Option Phrase) : Text := (phrase.bind Phrase.styleCode).getD []

def visitor (table : FlagTable) : Visitor (StateM Progress) where
  enter := fun phrase _ => enter table phrase
  wrap := fun phrase body around =>
    pure (Terminal.enclose (codesOf (some phrase)) body (codesOf around))

mutual

def setCode : Phrase → List Text → Phrase × List Text
  | phrase, [] => (phrase, [])
  | ⟨text, openIndex, closeIndex, arguments, overrideAlways, _, children⟩, code :: codes =>
    let (children, rest) := setCodes children codes
    (⟨text, openIndex, closeIndex, arguments, overrideAlways, some code, children⟩, rest)

def setCodes : List Phrase → List Text → List Phrase × List Text
  | [], codes => ([], codes)
  | phrase :: others, codes =>
    let (phrase, codes) := setCode phrase codes
    let (others, codes) := setCodes others codes
    (phrase :: others, codes)

end

end Rendering

/-- The end of a rendering. The phrases that were reached before it have their codes. -/
structure Rendering where
  output : Except Error Text
  phrases : List Phrase
  supply : Supply

/-- Writes a text and its phrases with their codes; those of `parent` are set again at the end of each
of them. -/
def render (table : FlagTable) (text : Text) (phrases : List Phrase) (supply : Supply)
    (parent : Option Phrase) : Rendering :=
  let (output, progress) :=
    (walk (Rendering.visitor table) text phrases parent).run.run ⟨supply, []⟩
  ⟨output, (Rendering.setCodes phrases progress.codes.reverse).1, progress.supply⟩

def strip (text : Text) (phrases : List Phrase) : Except Error Text :=
  (walk (⟨fun phrase _ => pure phrase, fun _ body _ => pure body⟩ : Visitor Id) text phrases none).run

end AnsiMarkup
