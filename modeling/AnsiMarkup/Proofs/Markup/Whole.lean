import AnsiMarkup.Markup

/-! Reading markup with the text of each open scope kept in one piece. Every question about a text is
asked of the whole of it, and places are located in the text and the markup ahead. -/

namespace AnsiMarkup

structure WholeScope where
  text : Text
  children : List Phrase

namespace WholeScope

def empty : WholeScope := ⟨[], []⟩

def append (scope : WholeScope) (piece : Text) : WholeScope :=
  { scope with text := scope.text ++ piece }

/-- Resolves the escape before a marker and tells whether the marker is literal. -/
def resolve (scope : WholeScope) : WholeScope × Bool :=
  ({ scope with text := (Escaping.ofText scope.text).text }, (Escaping.ofText scope.text).literal)

def addChild (scope : WholeScope) (phrase : Phrase) : WholeScope :=
  { scope with children := phrase :: scope.children }

end WholeScope

structure WholePhrase where
  openIndex : Nat
  arguments : List Number
  overrideAlways : Bool
  scope : WholeScope

namespace WholePhrase

def start (openIndex : Nat) : WholePhrase := ⟨openIndex, [], false, WholeScope.empty⟩

def specify (phrase : WholePhrase) (specifier : Specifier) : WholePhrase :=
  { phrase with
    arguments := specifier.arguments
    overrideAlways := specifier.overrideAlways || phrase.overrideAlways
    scope := { phrase.scope with text := [] } }

def close (phrase : WholePhrase) : Phrase where
  text := phrase.scope.text
  openIndex := phrase.openIndex
  closeIndex := some (phrase.openIndex + 1 + phrase.scope.text.length)
  arguments := phrase.arguments
  overrideAlways := phrase.overrideAlways
  styleCode := none
  children := phrase.scope.children.reverse

end WholePhrase

structure Stray where
  index : Nat
  place : Except Error (Option Position)

structure WholeReader where
  document : WholeScope
  opened : List WholePhrase
  strays : List Stray

namespace WholeReader

def start : WholeReader := ⟨WholeScope.empty, [], []⟩

def scope (reader : WholeReader) : WholeScope :=
  match reader.opened with
  | [] => reader.document
  | phrase :: _ => phrase.scope

def setScope (reader : WholeReader) (scope : WholeScope) : WholeReader :=
  match reader.opened with
  | [] => { reader with document := scope }
  | phrase :: outer => { reader with opened := { phrase with scope := scope } :: outer }

def append (reader : WholeReader) (piece : Text) : WholeReader :=
  reader.setScope (reader.scope.append piece)

def meetOpening (reader : WholeReader) : WholeReader :=
  let (scope, literal) := reader.scope.resolve
  let reader := reader.setScope scope
  if literal then reader.append Marker.opening.toText
  else { reader with opened := WholePhrase.start scope.text.length :: reader.opened }

def meetStray (reader : WholeReader) (ahead : Text) : WholeReader :=
  let (scope, literal) := reader.document.resolve
  let strays :=
    if literal then reader.strays
    else
      ⟨scope.text.length,
        Position.locate (scope.text ++ Marker.closing.toUnit :: ahead)
          (Number.ofNat scope.text.length)⟩ :: reader.strays
  { reader with document := scope.append Marker.closing.toText, strays := strays }

def closePhrase (reader : WholeReader) (phrase : WholePhrase) (outer : List WholePhrase) :
    WholeReader :=
  let closed := phrase.close
  let reader := { reader with opened := outer }
  let scope := reader.scope.addChild closed
  reader.setScope
    (scope.append (Marker.opening.toText ++ closed.text ++ Marker.closing.toText))

def meetClosing (reader : WholeReader) (ahead : Text) : WholeReader :=
  match reader.opened with
  | [] => reader.meetStray ahead
  | phrase :: outer =>
    match Specifier.ofText? phrase.scope.text with
    | some specifier => { reader with opened := phrase.specify specifier :: outer }
    | none =>
      let (scope, literal) := phrase.scope.resolve
      if literal then (reader.setScope scope).append Marker.closing.toText
      else reader.closePhrase { phrase with scope := scope } outer

def meet (reader : WholeReader) (raw : Text) (marker : Marker) (ahead : Text) : WholeReader :=
  let reader := reader.append raw
  match marker with
  | .opening => reader.meetOpening
  | .closing => reader.meetClosing ahead

def read (reader : WholeReader) (raw : Text) : Text → WholeReader
  | [] => reader.append raw.reverse
  | u :: ahead =>
    match Marker.ofUnit? u with
    | none => reader.read (u :: raw) ahead
    | some marker => (reader.meet raw.reverse marker ahead).read [] ahead

def result (reader : WholeReader) : Except Error Document :=
  match reader.opened with
  | [] => .ok ⟨reader.document.text, reader.document.children.reverse⟩
  | phrase :: outer =>
    .error (Markup.unclosed (reader.document.text :: outer.reverse.map (·.scope.text))
      phrase.scope.text)

end WholeReader

def readWhole (markup : Text) : WholeReader := WholeReader.start.read [] markup

end AnsiMarkup
