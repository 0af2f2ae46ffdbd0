import AnsiMarkup.Error
import AnsiMarkup.Terminal
import AnsiMarkup.Text.Utf8
import AnsiMarkup.Value.Spelling

namespace AnsiMarkup

structure Streams where
  out : Text
  err : Text
  exit : Option Nat
  deriving DecidableEq, Repr

namespace Streams

def written (out : Text) : Streams := ⟨out, [], none⟩

def errorRecord (colored : Bool) (message : Text) : Text :=
  Emphasis.red.apply colored "Error:" ++ " " ++ message ++ [CodeUnit.newline]

def fail (streams : Streams) (colored : Bool) (message : Text) : Streams :=
  { streams with err := streams.err ++ errorRecord colored message, exit := some 1 }

def failed (colored : Bool) (warnings message : Text) : Streams :=
  Streams.fail ⟨[], warnings, none⟩ colored message

end Streams

/-- A command at work. What it has written stays written when it fails. -/
abbrev Job := ExceptT Error (StateM Streams)

namespace Job

def print (text : Text) : Job Unit := modify fun streams => { streams with out := streams.out ++ text }

def warn (text : Text) : Job Unit := modify fun streams => { streams with err := streams.err ++ text }

def streams (colored : Bool) (job : Job Unit) : Streams :=
  match job.run.run (.written []) with
  | (.ok _, streams) => streams
  | (.error error, streams) => streams.fail colored error.message

end Job

inductive Chunk
  | bytes (octets : List UInt8)
  | value (given : Value)
  deriving Repr

namespace Chunk

def toBytes : Chunk → List UInt8
  | .bytes octets => octets
  | .value given => Utf8.encode given.toText

def dropLineEnd (text : Text) : Text :=
  match text.reverse with
  | 10 :: 13 :: rest => rest.reverse
  | 10 :: rest => rest.reverse
  | _ => text

def markup (chunks : List Chunk) : Text := dropLineEnd (Utf8.decode (chunks.flatMap toBytes))

def lacksText : Chunk → Bool
  | .bytes _ => false
  | .value given => given.lacksText

def read (chunks : List Chunk) : Except Error Text :=
  if chunks.any lacksText then .error .noText else .ok (markup chunks)

end Chunk

end AnsiMarkup
