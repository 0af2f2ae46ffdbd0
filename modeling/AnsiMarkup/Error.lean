import AnsiMarkup.Position

namespace AnsiMarkup

/-- Causes of failure. Where a cause quotes a value it holds the value's text. -/
inductive Error
  | duplicateFlag (name : Text)
  | duplicateCode (code : Number) (name : Text)
  | unknownFlag (name : Text)
  | malformedExpression (expression : Text)
  | notWhole (value : Text)
  | outOfRange (value : Text)
  | notAStyle (value : Text)
  | badAlwaysKey (key : Text)
  | noInteger (value : Text)
  | unreadableInteger (text : Text)
  | noText
  | unclosedPhrase (position : Option Position) (context : Text)
  | slotOutOfRange (argument : Number) (place supplied : Nat)
  | slotsExhausted (requested : Nat) (phrase : Text) (supplied : Nat)
  | indexOutOfRange (index : Number)
  | indexInNoLine (index : Number)
  | styledTwice (phrase : Text)
  | renderedUnclosed (phrase : Text)
  | frameWithoutPhrase
  | badAlwaysOption (option : Text)
  | configNotRecord (source : Text)
  | configStylesNotList (source : Text)
  | configBadStyle (source : Text) (index : Nat)
  | configAlwaysNotRecord (source : Text)
  | configBadAlways (source key : Text)
  | notTextList (json : Text)
  | unwritableInteger
  | endlessLine
  | lineTooLong
  deriving DecidableEq, Repr

namespace Error

inductive Kind
  | flag
  | parse
  | argument
  | internal
  | type
  | spelling
  | range
  deriving DecidableEq, Repr

def kind : Error → Kind
  | .duplicateFlag _ | .duplicateCode _ _ | .unknownFlag _ | .malformedExpression _ | .notWhole _
  | .outOfRange _ | .notAStyle _ | .badAlwaysOption _ | .configNotRecord _ | .configStylesNotList _
  | .configBadStyle _ _ | .configAlwaysNotRecord _ | .configBadAlways _ _ => .flag
  | .unclosedPhrase _ _ => .parse
  | .slotOutOfRange _ _ _ | .slotsExhausted _ _ _ => .argument
  | .indexOutOfRange _ | .indexInNoLine _ | .styledTwice _ | .renderedUnclosed _
  | .frameWithoutPhrase => .internal
  | .badAlwaysKey _ | .noInteger _ | .noText | .notTextList _ | .unwritableInteger => .type
  | .unreadableInteger _ => .spelling
  | .endlessLine | .lineTooLong => .range

def quotedUnits : Nat := 1000

def excerpt (text : Text) : Text :=
  if text.length ≤ quotedUnits then text else text.take quotedUnits ++ [0x2026]

def message : Error → Text
  | .duplicateFlag name => "Duplicate flag name '" ++ name ++ "' in flag table!"
  | .duplicateCode code name =>
    "Duplicate render code " ++ code.toText ++ " for flag '" ++ name ++ "'!"
  | .unknownFlag name => "Unknown flag '" ++ name ++ "'!"
  | .malformedExpression expression => "Malformed flag expression '" ++ expression ++ "'!"
  | .notWhole value => "Flag value '" ++ value ++ "' is not an integer!"
  | .outOfRange value => "Flag value '" ++ value ++ "' is out of range!"
  | .notAStyle value =>
    "Style '" ++ value ++ "' is neither a flag, a combination, a mapping nor a list!"
  | .badAlwaysKey key =>
    "Key '" ++ key ++ "' in always-style mapping is neither a string nor an array of strings!"
  | .noInteger value => "Cannot convert " ++ value ++ " to a BigInt"
  | .unreadableInteger text => "Cannot convert " ++ excerpt text ++ " to a BigInt"
  | .noText => "Cannot convert object to primitive value"
  | .unclosedPhrase position context =>
    let place := (position.map Position.toText).getD "undefined"
    let after : Text := if context = [] then [] else ", before '" ++ context ++ "'"
    "No closing tag found for opening tag at position " ++ place ++ after ++ "!"
  | .slotOutOfRange argument place supplied =>
    "Positional argument '" ++ argument.toText ++ "' (index " ++ Text.ofNat place ++
      ") is out of range, only " ++ Text.ofNat supplied ++ " positional styles were supplied!"
  | .slotsExhausted requested phrase supplied =>
    "Requested " ++ ordinal (Number.ofNat requested) ++ " formatting argument for '" ++ phrase ++
      "' but only " ++ Text.ofNat supplied ++ " were supplied!"
  | .indexOutOfRange index => "Out-of-range index " ++ index.toText ++ " passed to position()!"
  | .indexInNoLine index => "Index " ++ index.toText ++ " not found in any line!"
  | .styledTwice phrase => "Phrase '" ++ phrase ++ "' was styled twice!"
  | .renderedUnclosed phrase => "Phrase '" ++ phrase ++ "' reached the renderer unclosed!"
  | .frameWithoutPhrase => "Nested render frame without a phrase!"
  | .badAlwaysOption option => "Always-style '" ++ option ++ "' must look like text=flags!"
  | .configNotRecord source => "Config " ++ source ++ " must be a JSON object!"
  | .configStylesNotList source => "Config " ++ source ++ ": 'styles' must be an array!"
  | .configBadStyle source index =>
    "Config " ++ source ++ ": 'styles[" ++ Text.ofNat index ++
      "]' is neither a flag expression nor a number!"
  | .configAlwaysNotRecord source => "Config " ++ source ++ ": 'always' must be an object!"
  | .configBadAlways source key =>
    "Config " ++ source ++ ": 'always." ++ key ++ "' is neither a flag expression nor a number!"
  | .notTextList json => "Expected a list of strings, got " ++ json
  | .unwritableInteger => "Do not know how to serialize a BigInt"
  | .endlessLine => "Invalid count value: Infinity"
  | .lineTooLong => "Invalid string length"

end Error

end AnsiMarkup
