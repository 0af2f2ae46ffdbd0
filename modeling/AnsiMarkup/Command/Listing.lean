import AnsiMarkup.Command.Stream
import AnsiMarkup.FlagTable.Standard
import AnsiMarkup.Json.Writing
import AnsiMarkup.Number

namespace AnsiMarkup

namespace Command

def flagText (flag : Flag) (spaces : Nat) : Text :=
  "  " ++ Terminal.enclose flag.code.toText flag.name [] ++
    List.replicate spaces CodeUnit.space ++ flag.code.toText

def lineLimit : Nat := 536870888

/-- Spaces after a name in a column: as many as are missing and one more, and at least one. -/
def padding (width : Number) (length : Nat) : Except Error Nat :=
  match (width.sub (Number.ofNat length)).add (Number.ofNat 1) with
  | .nan => .ok 0
  | .posInfinity => .error .endlessLine
  | .negInfinity | .negZero => .ok 1
  | .finite q => .ok (if q ≤ 1 then 1 else (Number.truncate q).toNat)

def flagLine (flag : Flag) (width : Number) : Except Error Text := do
  let spaces ← padding width flag.name.length
  if lineLimit < (flagText flag 0).length + spaces then .error .lineTooLong
  else .ok (flagText flag spaces)

def flagValue (flag : Flag) : Value :=
  .record [("name", .text flag.name), ("code", .number flag.code),
    ("bit", .text (Text.ofInt flag.bit))]

def tableRecord (table : FlagTable) : Record Value :=
  table.categories.foldl (fun record category =>
    Record.assign category.name (.list (category.flags.map flagValue)) record) []

def columnWidth (table : FlagTable) : Nat :=
  (table.flags.map fun flag => flag.name.length).foldl max 0

def categoryText (colored : Bool) (width : Nat) (category : Category) : Text :=
  Emphasis.bold.apply colored
      (category.name ++ " (" ++ Text.ofNat category.flags.length ++ ")\n") ++
    Emphasis.dim.apply colored (List.replicate (width + 8) 0x2500 ++ [CodeUnit.newline]) ++
    category.flags.flatMap (fun flag =>
      flagText flag (width - flag.name.length + 1) ++ [CodeUnit.newline]) ++
    [CodeUnit.newline]

def tableText (colored : Bool) (table : FlagTable) : Text :=
  table.categories.flatMap (categoryText colored (columnWidth table))

def listFlags (colored json : Bool) : Streams :=
  if json then
    .written (Json.indented (.record (tableRecord FlagTable.standard)) ++ [CodeUnit.newline])
  else .written (tableText colored FlagTable.standard)

end Command

end AnsiMarkup
