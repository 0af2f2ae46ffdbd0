import AnsiMarkup.FlagTable

namespace AnsiMarkup

namespace FlagTable

def spec (name : String) (code : Nat) : FlagSpec := ⟨name, Number.ofNat code⟩

def formatFlags : List FlagSpec :=
  [spec "bold" 1, spec "dim" 2, spec "italic" 3, spec "underline" 4, spec "blink" 5,
    spec "inverse" 7, spec "hidden" 8, spec "strikethrough" 9]

def colorFlags : List FlagSpec :=
  [spec "default" 39, spec "black" 30, spec "red" 31, spec "green" 32, spec "yellow" 33,
    spec "blue" 34, spec "magenta" 35, spec "cyan" 36, spec "white" 37, spec "gray" 90,
    spec "redBright" 91, spec "greenBright" 92, spec "yellowBright" 93, spec "blueBright" 94,
    spec "magentaBright" 95, spec "cyanBright" 96, spec "whiteBright" 97]

def fillFlags : List FlagSpec :=
  [spec "bgDefault" 49, spec "bgBlack" 40, spec "bgRed" 41, spec "bgGreen" 42, spec "bgYellow" 43,
    spec "bgBlue" 44, spec "bgMagenta" 45, spec "bgCyan" 46, spec "bgWhite" 47, spec "bgGray" 100,
    spec "bgRedBright" 101, spec "bgGreenBright" 102, spec "bgYellowBright" 103,
    spec "bgBlueBright" 104, spec "bgMagentaBright" 105, spec "bgCyanBright" 106,
    spec "bgWhiteBright" 107]

def standardSpecs : List CategorySpec :=
  [⟨"format", formatFlags⟩, ⟨"color", colorFlags⟩, ⟨"fill", fillFlags⟩]

def standard : FlagTable :=
  match ofSpecs standardSpecs with
  | .ok table => table
  | .error _ => ⟨[]⟩

theorem ofSpecs_standardSpecs : ofSpecs standardSpecs = .ok standard := by
  have declared : (ofSpecs standardSpecs).toBool = true := by decide +kernel
  unfold standard
  cases outcome : ofSpecs standardSpecs with
  | ok table => rfl
  | error cause => simp [outcome, Except.toBool] at declared

end FlagTable

end AnsiMarkup
