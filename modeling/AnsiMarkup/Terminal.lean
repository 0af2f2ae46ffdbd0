import AnsiMarkup.Text

namespace AnsiMarkup

namespace Terminal

def escape : CodeUnit := 27

def select (codes : Text) : Text := escape :: "[" ++ codes ++ "m"

/-- A body shown with codes, after which all is reset and the codes around it are set again. -/
def enclose (codes body around : Text) : Text :=
  select codes ++ body ++ select ("0;" ++ around)

end Terminal

structure Emphasis where
  start : Text
  stop : Text
  deriving DecidableEq, Repr

namespace Emphasis

def bold : Emphasis := ⟨"1", "22"⟩
def dim : Emphasis := ⟨"2", "22"⟩
def red : Emphasis := ⟨"31", "39"⟩
def yellow : Emphasis := ⟨"33", "39"⟩

/-- Ends before each newline and starts again after it. -/
def apply (emphasis : Emphasis) (colored : Bool) (text : Text) : Text :=
  if !colored || text == [] then text
  else
    Terminal.select emphasis.start ++
      text.flatMap (fun u =>
        if u = CodeUnit.newline then
          Terminal.select emphasis.stop ++ u :: Terminal.select emphasis.start
        else [u]) ++
      Terminal.select emphasis.stop

end Emphasis

end AnsiMarkup
