import AnsiMarkup.FlagTable.Standard
import AnsiMarkup.Markup
import AnsiMarkup.Rendering

namespace AnsiMarkup

structure Painter where
  table : FlagTable
  palette : Palette
  deriving Repr

structure Painting where
  output : Text
  served : Nat
  deriving DecidableEq, Repr

namespace Painter

def ofStyles (table : FlagTable) (styles : List Value) : Except Error Painter :=
  (Palette.ofInputs table styles).map (⟨table, ·⟩)

/-- Each text starts with all positional styles unserved. -/
def paintDocument (painter : Painter) (document : Document) : Except Error Painting :=
  if document.phrases.isEmpty then .ok ⟨document.text, 0⟩
  else
    let rendering :=
      render painter.table document.text document.phrases (.ofPalette painter.palette) none
    rendering.output.map fun output => ⟨output, rendering.supply.served⟩

def paint (painter : Painter) (markup : Text) : Reported Painting :=
  (parse markup).andThen painter.paintDocument

end Painter

def plain (markup : Text) : Reported Text :=
  (parse markup).andThen fun document => strip document.text document.phrases

def Diagnostic.warning (d : Diagnostic) : Text := "tintag: " ++ d.message

structure Notices where
  warnings : List Text
  heard : List Diagnostic
  deriving DecidableEq, Repr

namespace Notices

def none : Notices := ⟨[], []⟩

def deliver (listening : Bool) (diagnostics : List Diagnostic) : Notices :=
  if listening then ⟨[], diagnostics⟩ else ⟨diagnostics.map Diagnostic.warning, []⟩

end Notices

end AnsiMarkup
