import AnsiMarkup.FlagTable

namespace AnsiMarkup

structure Palette where
  positional : List Combination
  always : Entries Combination
  deriving DecidableEq, Repr

namespace Palette

def empty : Palette := ⟨[], []⟩

def addPositional (palette : Palette) (c : Combination) : Palette :=
  { palette with positional := palette.positional ++ [c] }

def addTexts (palette : Palette) (texts : List Text) (c : Combination) : Palette :=
  { palette with always := texts.foldl (fun always text => Entries.put text c always) palette.always }

def keyTexts (key : Value) : Except Error (List Text) :=
  let refused : Except Error (List Text) := key.spelled.bind fun t => .error (.badAlwaysKey t)
  match key with
  | .text t => .ok [t]
  | .list items =>
    match Value.asTexts? items with
    | some texts => .ok texts
    | none => refused
  | _ => refused

/-- The key is checked before the style. -/
def addAlways (table : FlagTable) (palette : Palette) (key style : Value) : Except Error Palette := do
  let texts ← keyTexts key
  let c ← table.ofStyle style
  .ok (palette.addTexts texts c)

mutual

/-- Adds a style input; lists are taken apart, and the styles of mappings replace earlier ones. -/
def add (table : FlagTable) (palette : Palette) : Value → Except Error Palette
  | .text t => (table.ofStyle (.text t)).map palette.addPositional
  | .number n => (table.ofStyle (.number n)).map palette.addPositional
  | .integer i => (table.ofStyle (.integer i)).map palette.addPositional
  | .list items => addAll table palette items
  | .mapping entries =>
    entries.foldlM (fun palette entry => addAlways table palette entry.1 entry.2) palette
  | .record entries =>
    entries.foldlM (fun palette entry => addAlways table palette (.text entry.1) entry.2) palette
  | .absent => .error (.notAStyle (Value.toText .absent))
  | .null => .error (.notAStyle (Value.toText .null))
  | .bool b => .error (.notAStyle (Value.toText (.bool b)))

def addAll (table : FlagTable) (palette : Palette) : List Value → Except Error Palette
  | [] => .ok palette
  | item :: rest => do
    let palette ← add table palette item
    addAll table palette rest

end

def ofInputs (table : FlagTable) (inputs : List Value) : Except Error Palette :=
  addAll table empty inputs

end Palette

end AnsiMarkup
