import AnsiMarkup.Diagnostic
import AnsiMarkup.Marker
import AnsiMarkup.Markup.Scope

namespace AnsiMarkup

structure OpenPhrase where
  openIndex : Nat
  arguments : List Number
  overrideAlways : Bool
  scope : Scope
  deriving Repr

namespace OpenPhrase

def start (openIndex : Nat) : OpenPhrase := ⟨openIndex, [], false, Scope.empty⟩

/-- A later specifier replaces the arguments; an override stays. -/
def specify (phrase : OpenPhrase) (specifier : Specifier) : OpenPhrase :=
  { phrase with
    arguments := specifier.arguments
    overrideAlways := specifier.overrideAlways || phrase.overrideAlways
    scope := phrase.scope.restart }

def close (phrase : OpenPhrase) : Phrase where
  text := phrase.scope.text
  openIndex := phrase.openIndex
  closeIndex := some (phrase.openIndex + 1 + phrase.scope.text.length)
  arguments := phrase.arguments
  overrideAlways := phrase.overrideAlways
  styleCode := none
  children := phrase.scope.children.reverse

end OpenPhrase

/-- Open phrases are kept innermost first, diagnostics newest first. -/
structure Reader where
  document : Scope
  opened : List OpenPhrase
  diagnostics : List Diagnostic
  deriving Repr

namespace Reader

def start : Reader := ⟨Scope.empty, [], []⟩

def scope (reader : Reader) : Scope :=
  match reader.opened with
  | [] => reader.document
  | phrase :: _ => phrase.scope

def setScope (reader : Reader) (scope : Scope) : Reader :=
  match reader.opened with
  | [] => { reader with document := scope }
  | phrase :: outer => { reader with opened := { phrase with scope := scope } :: outer }

def append (reader : Reader) (piece : Text) : Reader :=
  reader.setScope (reader.scope.append piece)

def meetOpening (reader : Reader) : Reader :=
  let (scope, literal) := reader.scope.takeEscape
  let reader := reader.setScope scope
  if literal then reader.append Marker.opening.toText
  else { reader with opened := OpenPhrase.start scope.length :: reader.opened }

def strayPosition (scope : Scope) (ahead : Text) : Position :=
  if scope.newlines = 0 ∧ !ahead.contains CodeUnit.newline then .offset scope.length
  else .lineColumn (scope.newlines + 1) (scope.length - scope.lineStart + 1)

/-- Outside all phrases a closing marker is text, and reported unless it was escaped. -/
def meetStray (reader : Reader) (ahead : Text) : Reader :=
  let (scope, literal) := reader.document.takeEscape
  let diagnostics :=
    if literal then reader.diagnostics
    else ⟨scope.length, strayPosition scope ahead⟩ :: reader.diagnostics
  { reader with document := scope.append Marker.closing.toText, diagnostics := diagnostics }

def closePhrase (reader : Reader) (phrase : OpenPhrase) (outer : List OpenPhrase) : Reader :=
  let closed := phrase.close
  let reader := { reader with opened := outer }
  let scope := reader.scope.addChild closed
  reader.setScope
    (scope.append (Marker.opening.toText ++ closed.text ++ Marker.closing.toText))

def meetClosing (reader : Reader) (ahead : Text) : Reader :=
  match reader.opened with
  | [] => reader.meetStray ahead
  | phrase :: outer =>
    -- Whatever can be a specifier is one: the phrase stays open and its text starts anew.
    match phrase.scope.loneChunk?.bind Specifier.ofText? with
    | some specifier => { reader with opened := phrase.specify specifier :: outer }
    | none =>
      let (scope, literal) := phrase.scope.takeEscape
      if literal then (reader.setScope scope).append Marker.closing.toText
      else reader.closePhrase { phrase with scope := scope } outer

def meet (reader : Reader) (raw : Text) (marker : Marker) (ahead : Text) : Reader :=
  let reader := reader.append raw
  match marker with
  | .opening => reader.meetOpening
  | .closing => reader.meetClosing ahead

/-- Reads markup; `raw` holds the units since the last marker, newest first. -/
def read (reader : Reader) (raw : Text) : Text → Reader
  | [] => reader.append raw.reverse
  | u :: ahead =>
    match Marker.ofUnit? u with
    | none => reader.read (u :: raw) ahead
    | some marker => (reader.meet raw.reverse marker ahead).read [] ahead

end Reader

namespace Markup

def contextLength : Nat := 20

/-- The error of the innermost phrase without an end; `texts` are those of the scopes around it. -/
def unclosed (texts : List Text) (innermost : Text) : Error :=
  let before := Text.join Marker.opening.toText texts
  match Position.locate (before ++ Marker.opening.toText ++ innermost) (Number.ofNat before.length) with
  | .ok position => .unclosedPhrase position (innermost.take contextLength)
  | .error error => error

def outcome (reader : Reader) : Reported Document where
  diagnostics := reader.diagnostics.reverse
  result :=
    match reader.opened with
    | [] => .ok ⟨reader.document.text, reader.document.children.reverse⟩
    | phrase :: outer =>
      .error (unclosed (reader.document.text :: outer.reverse.map (·.scope.text)) phrase.scope.text)

end Markup

def parse (markup : Text) : Reported Document := Markup.outcome (Reader.start.read [] markup)

end AnsiMarkup
