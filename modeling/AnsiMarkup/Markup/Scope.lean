import AnsiMarkup.Marker
import AnsiMarkup.Phrase

/-! The text of one scope while it is read: the document, or a phrase that waits for its end. -/

namespace AnsiMarkup

/-- The text is kept in chunks, none of them empty and the newest first. `lineStart` is the offset
just past the last newline. Children are kept newest first. -/
structure Scope where
  chunks : List Text
  length : Nat
  newlines : Nat
  lineStart : Nat
  children : List Phrase
  deriving Repr

namespace Scope

def empty : Scope := ⟨[], 0, 0, 0, []⟩

def text (scope : Scope) : Text := scope.chunks.reverse.flatten

def append (scope : Scope) (piece : Text) : Scope :=
  if piece = [] then scope
  else
    { scope with
      chunks := piece :: scope.chunks
      length := scope.length + piece.length
      newlines := scope.newlines + piece.count CodeUnit.newline
      lineStart := match piece.lastIndexOf CodeUnit.newline with
        | some i => scope.length + i + 1
        | none => scope.lineStart }

theorem text_append (scope : Scope) (piece : Text) : (scope.append piece).text = scope.text ++ piece := by
  by_cases blank : piece = []
  · simp [append, blank]
  · simp [append, blank, text]

theorem length_append (scope : Scope) (piece : Text) :
    (scope.append piece).length = scope.length + piece.length := by
  by_cases blank : piece = []
  · simp [append, blank]
  · simp [append, blank]

/-- Removes an escaping backslash from the end of the text and tells whether the marker after it is
literal. Only the last chunk is looked at, and the one before it when the backslash was all of it. -/
def takeEscape (scope : Scope) : Scope × Bool :=
  match scope.chunks with
  | [] => (scope, false)
  | last :: earlier =>
    let escaping := Escaping.ofText last
    if escaping.text.length = last.length then (scope, false)
    -- A chunk that was all backslash goes, and the end of the one before it decides.
    else if escaping.text = [] then
      ({ scope with chunks := earlier, length := scope.length - 1 },
        match earlier with
        | [] => true
        | previous :: _ => !(Text.endsWith previous CodeUnit.backslash))
    else
      ({ scope with chunks := escaping.text :: earlier, length := scope.length - 1 },
        escaping.literal)

/-- Only a text of one chunk can be a specifier: more chunks mean that it holds a marker. -/
def loneChunk? (scope : Scope) : Option Text :=
  match scope.chunks with
  | [chunk] => some chunk
  | _ => none

def restart (scope : Scope) : Scope := { scope with chunks := [], length := 0 }

def addChild (scope : Scope) (phrase : Phrase) : Scope :=
  { scope with children := phrase :: scope.children }

end Scope

end AnsiMarkup
