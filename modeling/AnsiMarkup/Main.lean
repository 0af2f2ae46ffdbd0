import AnsiMarkup.Command.Arguments

namespace AnsiMarkup

namespace Terminal

def surroundings : IO Surroundings := do
  let home := (← IO.getEnv "HOME").getD ""
  let system := (← IO.getEnv "OS").getD ""
  let data ← IO.getEnv "APPDATA"
  return ⟨home, system == "Windows_NT", data.map Text.ofString⟩

def fileContent (path : Text) : IO (Option Text) := do
  try
    let bytes ← IO.FS.readBinFile path.toString
    return some (Utf8.decode bytes.toList)
  catch _ => return none

def input : IO (List Chunk) := do
  let bytes ← (← IO.getStdin).readBinToEnd
  return [.bytes bytes.toList]

def run (arguments : List Text) : IO Streams := do
  let colored ← (← IO.getStdout).isTty
  let surroundings ← surroundings
  match Command.Invocation.ofArguments arguments with
  | .render request =>
    let content ← fileContent (request.configPath surroundings)
    let chunks ← if request.words = [] then input else pure []
    return Command.run colored surroundings (fun _ => content) chunks (.render request)
  | invocation => return Command.run colored surroundings (fun _ => none) [] invocation

end Terminal

end AnsiMarkup

def main (arguments : List String) : IO UInt32 := do
  let streams ← AnsiMarkup.Terminal.run (arguments.map AnsiMarkup.Text.ofString)
  (← IO.getStderr).putStr streams.err.toString
  (← IO.getStdout).putStr streams.out.toString
  return (streams.exit.getD 0).toUInt32
