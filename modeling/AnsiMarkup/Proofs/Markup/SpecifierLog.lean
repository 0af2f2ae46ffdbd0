import AnsiMarkup.Markup
import AnsiMarkup.Proofs.Markup.Chunks
import AnsiMarkup.Proofs.Phrase.Forests
import Mathlib.Data.List.Forall2

namespace AnsiMarkup

namespace Specifier

def parts (text : Text) : List Text := (body text).splitOn comma

theorem parts_ne_nil (text : Text) : parts text ≠ [] := List.splitOn_ne_nil comma (body text)

theorem ofText?_eq_some_iff (text : Text) (specifier : Specifier) :
    ofText? text = some specifier ↔
      (∀ part ∈ parts text, isInteger part = true) ∧
        specifier.arguments = (parts text).map Number.ofIntegerText ∧
        specifier.overrideAlways = text.endsWith mark := by
  rcases specifier with ⟨arguments, overrideAlways⟩
  rw [ofText?, ← List.all_eq_true]
  change (if (parts text).all isInteger then _ else _) = _ ↔ _
  split
  · next integers =>
    rw [Option.some_inj, Specifier.mk.injEq, eq_comm, eq_comm (a := text.endsWith mark)]
    exact (and_iff_right integers).symm
  · next other =>
    constructor
    · intro same
      cases same
    · intro conforms
      exact absurd conforms.1 other

/-- What specifiers leave for their phrase when they are read one after the other. -/
structure Leave (texts : List Text) (arguments : List Number) (overrideAlways : Bool) : Prop where
  written : ∀ text ∈ texts, (ofText? text).isSome = true
  arguments : arguments = (texts.getLast?.map fun text => (parts text).map Number.ofIntegerText).getD []
  overrideAlways : overrideAlways = texts.any (·.endsWith mark)

theorem leave_nil : Leave [] [] false := ⟨by simp, rfl, rfl⟩

section

variable {texts : List Text} {arguments : List Number} {overrideAlways : Bool}

theorem Leave.arguments_of_getLast? (leave : Leave texts arguments overrideAlways) (text : Text)
    (last : texts.getLast? = some text) : arguments = (parts text).map Number.ofIntegerText := by
  rw [leave.arguments, last]
  rfl

theorem Leave.arguments_eq_nil_iff (leave : Leave texts arguments overrideAlways) :
    arguments = [] ↔ texts = [] := by
  cases last : texts.getLast? with
  | none =>
    have none_read := List.getLast?_eq_none_iff.mp last
    refine iff_of_true ?_ none_read
    rw [leave.arguments, last]
    rfl
  | some text =>
    refine iff_of_false ?_ ?_
    · rw [leave.arguments_of_getLast? text last, List.map_eq_nil_iff]
      exact parts_ne_nil text
    · rintro rfl
      cases last

theorem Leave.concat (leave : Leave texts arguments overrideAlways) (text : Text)
    (specifier : Specifier) (read : ofText? text = some specifier) :
    Leave (texts ++ [text]) specifier.arguments (specifier.overrideAlways || overrideAlways) := by
  obtain ⟨-, last, override⟩ := (ofText?_eq_some_iff text specifier).mp read
  constructor
  · intro other member
    rcases List.mem_append.mp member with earlier | new
    · exact leave.written other earlier
    · rw [List.mem_singleton.mp new, read]
      rfl
  · rw [last, List.getLast?_concat]
    rfl
  · rw [override, leave.overrideAlways, List.any_append, List.any_cons, List.any_nil, Bool.or_false,
      Bool.or_comm]

end

end Specifier

structure PhraseLog where
  texts : List Text
  below : List (List Text)

/-- The specifiers read for each phrase in document order. Open phrases are kept innermost first. -/
structure SpecifierLog where
  document : List (List Text)
  opened : List PhraseLog

namespace SpecifierLog

def start : SpecifierLog := ⟨[], []⟩

def openPhrase (log : SpecifierLog) : SpecifierLog := { log with opened := ⟨[], []⟩ :: log.opened }

def specify (log : SpecifierLog) (text : Text) : SpecifierLog :=
  match log.opened with
  | [] => log
  | phrase :: outer => { log with opened := { phrase with texts := phrase.texts ++ [text] } :: outer }

def add (log : SpecifierLog) (phrases : List (List Text)) : SpecifierLog :=
  match log.opened with
  | [] => { log with document := log.document ++ phrases }
  | phrase :: outer => { log with opened := { phrase with below := phrase.below ++ phrases } :: outer }

def closePhrase (log : SpecifierLog) : SpecifierLog :=
  match log.opened with
  | [] => log
  | phrase :: outer => { log with opened := outer }.add (phrase.texts :: phrase.below)

end SpecifierLog

/-- The log after a marker; the raw text before the marker has been read. -/
def Reader.log (reader : Reader) (log : SpecifierLog) : Marker → SpecifierLog
  | .opening => if reader.scope.takeEscape.2 then log else log.openPhrase
  | .closing =>
    match reader.opened with
    | [] => log
    | phrase :: _ =>
      match phrase.scope.loneChunk?.filter fun text => (Specifier.ofText? text).isSome with
      | some text => log.specify text
      | none => if phrase.scope.takeEscape.2 then log else log.closePhrase

def Reader.logAll (reader : Reader) (log : SpecifierLog) (raw : Text) : Text → SpecifierLog
  | [] => log
  | u :: ahead =>
    match Marker.ofUnit? u with
    | none => reader.logAll log (u :: raw) ahead
    | some marker =>
      (reader.meet raw.reverse marker ahead).logAll ((reader.append raw.reverse).log log marker) []
        ahead

def specifierTexts (markup : Text) : List (List Text) :=
  (Reader.start.logAll SpecifierLog.start [] markup).document

def Phrase.Specified (phrase : Phrase) (texts : List Text) : Prop :=
  Specifier.Leave texts phrase.arguments phrase.overrideAlways

def Phrase.AllSpecified (children : List Phrase) (log : List (List Text)) : Prop :=
  List.Forall₂ Phrase.Specified (Phrase.order children.reverse) log

theorem Phrase.AllSpecified.cons {children : List Phrase} {log below : List (List Text)}
    {phrase : Phrase} {texts : List Text} (others : AllSpecified children log)
    (own : phrase.Specified texts)
    (inner : List.Forall₂ Phrase.Specified (Phrase.order phrase.children) below) :
    AllSpecified (phrase :: children) (log ++ texts :: below) := by
  have ends : Phrase.order [phrase] = phrase :: Phrase.order phrase.children := by
    rw [Phrase.order_cons, show Phrase.order [] = [] from rfl, List.append_nil]
  rw [AllSpecified, List.reverse_cons, Phrase.order_append, ends]
  exact List.rel_append others (.cons own inner)

structure OpenPhrase.Logged (phrase : OpenPhrase) (log : PhraseLog) : Prop where
  own : Specifier.Leave log.texts phrase.arguments phrase.overrideAlways
  below : Phrase.AllSpecified phrase.scope.children log.below

namespace Reader

structure Logged (reader : Reader) (log : SpecifierLog) : Prop where
  document : Phrase.AllSpecified reader.document.children log.document
  opened : List.Forall₂ OpenPhrase.Logged reader.opened log.opened

variable {reader : Reader} {log : SpecifierLog}

theorem logged_start : start.Logged SpecifierLog.start := ⟨.nil, .nil⟩

theorem Logged.setScope (logged : reader.Logged log) (scope : Scope)
    (same : scope.children = reader.scope.children) : (reader.setScope scope).Logged log := by
  rcases reader with ⟨document, opened, diagnostics⟩
  rcases log with ⟨outside, inside⟩
  obtain ⟨written, others⟩ := logged
  cases others with
  | nil => exact ⟨same ▸ written, .nil⟩
  | cons here around => exact ⟨written, .cons ⟨here.own, same ▸ here.below⟩ around⟩

theorem Logged.addChild (logged : reader.Logged log) (scope : Scope) (phrase : Phrase)
    (same : scope.children = phrase :: reader.scope.children) (texts : List Text)
    (below : List (List Text)) (own : phrase.Specified texts)
    (inner : List.Forall₂ Phrase.Specified (Phrase.order phrase.children) below) :
    (reader.setScope scope).Logged (log.add (texts :: below)) := by
  rcases reader with ⟨document, opened, diagnostics⟩
  rcases log with ⟨outside, inside⟩
  obtain ⟨written, others⟩ := logged
  cases others with
  | nil => exact ⟨same ▸ written.cons own inner, .nil⟩
  | cons here around =>
    exact ⟨written, .cons ⟨here.own, same ▸ here.below.cons own inner⟩ around⟩

theorem Logged.append (logged : reader.Logged log) (piece : Text) :
    (reader.append piece).Logged log :=
  logged.setScope _ (Scope.children_append _ piece)

theorem Logged.takeEscape (logged : reader.Logged log) :
    (reader.setScope reader.scope.takeEscape.1).Logged log :=
  logged.setScope _ (Scope.takeEscape_frame _).1

theorem Logged.meetOpening (logged : reader.Logged log) :
    reader.meetOpening.Logged (reader.log log .opening) := by
  have taken := logged.takeEscape
  simp only [Reader.meetOpening, Reader.log]
  split
  · exact taken.append Marker.opening.toText
  · exact ⟨taken.document, .cons ⟨Specifier.leave_nil, .nil⟩ taken.opened⟩

theorem Logged.meetStray (logged : reader.Logged log) (ahead : Text) :
    (reader.meetStray ahead).Logged log := by
  refine ⟨?_, logged.opened⟩
  simp only [Reader.meetStray]
  rw [Scope.children_append, (Scope.takeEscape_frame _).1]
  exact logged.document

theorem Logged.specify (logged : reader.Logged log) (phrase : OpenPhrase)
    (outer : List OpenPhrase) (opens : reader.opened = phrase :: outer) (text : Text)
    (specifier : Specifier) (read : Specifier.ofText? text = some specifier) :
    ({ reader with opened := phrase.specify specifier :: outer } : Reader).Logged
      (log.specify text) := by
  rcases log with ⟨outside, inside⟩
  obtain ⟨written, others⟩ := logged
  rw [opens] at others
  cases others with
  | cons here around =>
    exact ⟨written, .cons ⟨here.own.concat text specifier read, here.below⟩ around⟩

theorem Logged.closePhrase (logged : reader.Logged log) (phrase : OpenPhrase)
    (outer : List OpenPhrase) (opens : reader.opened = phrase :: outer) (scope : Scope)
    (same : scope.children = phrase.scope.children) :
    (reader.closePhrase { phrase with scope := scope } outer).Logged log.closePhrase := by
  rcases log with ⟨outside, inside⟩
  obtain ⟨written, others⟩ := logged
  rw [opens] at others
  cases others with
  | @cons _ here _ around own rest =>
    have left : ({ reader with opened := outer } : Reader).Logged ⟨outside, around⟩ :=
      ⟨written, rest⟩
    have below : Phrase.AllSpecified scope.children here.below := same ▸ own.below
    exact left.addChild _ ({ phrase with scope := scope } : OpenPhrase).close
      (Scope.children_append _ _) here.texts here.below own.own below

theorem Logged.meetClosing (logged : reader.Logged log) (ahead : Text) :
    (reader.meetClosing ahead).Logged (reader.log log .closing) := by
  simp only [Reader.meetClosing, Reader.log]
  cases opens : reader.opened with
  | nil => exact logged.meetStray ahead
  | cons phrase outer =>
    -- Without a specifier, whether in more chunks or in one, both go on alike.
    have unspecified : (if phrase.scope.takeEscape.2 = true then
          (reader.setScope phrase.scope.takeEscape.1).append Marker.closing.toText
        else reader.closePhrase { phrase with scope := phrase.scope.takeEscape.1 } outer).Logged
        (if phrase.scope.takeEscape.2 = true then log else log.closePhrase) := by
      split
      · have taken := logged.takeEscape
        rw [Reader.scope, opens] at taken
        exact taken.append Marker.closing.toText
      · exact logged.closePhrase phrase outer opens _ (Scope.takeEscape_frame _).1
    simp only
    cases phrase.scope.loneChunk? with
    | none => exact unspecified
    | some text =>
      cases read : Specifier.ofText? text with
      | none => simpa [Option.filter_some, read] using unspecified
      | some specifier =>
        simpa [Option.filter_some, read] using
          logged.specify phrase outer opens text specifier read

theorem Logged.meet (logged : reader.Logged log) (raw : Text) (marker : Marker) (ahead : Text) :
    (reader.meet raw marker ahead).Logged ((reader.append raw).log log marker) := by
  cases marker with
  | opening => exact (logged.append raw).meetOpening
  | closing => exact (logged.append raw).meetClosing ahead

theorem Logged.read (logged : reader.Logged log) (raw ahead : Text) :
    (reader.read raw ahead).Logged (reader.logAll log raw ahead) := by
  induction ahead generalizing reader log raw with
  | nil => exact logged.append raw.reverse
  | cons u ahead ih =>
    rw [Reader.read, Reader.logAll]
    cases Marker.ofUnit? u with
    | none => exact ih logged (u :: raw)
    | some marker => exact ih (logged.meet raw.reverse marker ahead) []

end Reader

/-- Each phrase has what the specifiers read for it leave: the arguments of the last one, and an
override if one of them has the mark. -/
theorem specified_parse (markup : Text) (document : Document)
    (parsed : (parse markup).result = .ok document) :
    List.Forall₂ Phrase.Specified (Phrase.order document.phrases) (specifierTexts markup) := by
  have logged := (Reader.logged_start.read [] markup).document
  rw [parse, Markup.outcome] at parsed
  simp only at parsed
  split at parsed
  · cases parsed
    exact logged
  · cases parsed

end AnsiMarkup
