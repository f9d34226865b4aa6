import Chalkboard.Command.Run

/-!
# The program

Reads what the command line needs from outside, and prints the report on it.
-/

namespace Chalkboard

/-- The bytes that are left of a stream, behind those read so far. -/
partial def readRest (stream : IO.FS.Stream) (bytes : ByteArray) : IO ByteArray := do
  let more ← stream.read 65536
  if more.isEmpty then return bytes else readRest stream (bytes ++ more)

/-- What an action gives, or what the system says if it fails. -/
def attempt {α : Type} (action : IO α) : IO (Except String α) := do
  try
    return .ok (← action)
  catch e =>
    return .error (toString e)

/-- What was said when an action failed. -/
def refusalOf {α : Type} : Except String α → String
  | .ok _ => ""
  | .error said => said

/-- The input as text. -/
def readInput : IO String := do
  match String.fromUTF8? (← readRest (← IO.getStdin) ByteArray.empty) with
  | some text => return text
  | none => throw (IO.userError "the input is no text")

/-- What this program says of what it refuses, when the system said `file` of the settings file and
`input` of the input. The readers here tell no more than that they refuse a text. -/
def wording (file input : String) : Wording where
  undecodable := fun _ _ => "the text holds no settings"
  unencodable := fun _ _ => "a count is too large"
  inaccessible := fun _ => file
  request := fun _ => "the text denotes no request"
  input
  usage := fun _ => "usage error\n"

/-- Runs the program on the words of a command line. -/
def runProgram (words : List String) : IO UInt32 := do
  let options? := Options.parse? words
  let content ← match options?.bind Options.settingsFile with
    | some path => attempt (IO.FS.readFile path)
    | none => pure (.error "")
  let input ← if options?.any Options.request then attempt readInput else pure (.error "")
  let freshSeed ← IO.rand 0 (UInt64.size - 1)
  let said := wording (refusalOf content) (refusalOf input)
  let report :=
    Report.ofWords said words (fun _ => content.toOption) input.toOption (UInt64.ofNat freshSeed)
  (← IO.getStdout).putStr report.output
  (← IO.getStderr).putStr report.errors
  return report.code

end Chalkboard

/-- The entry point. -/
def main (words : List String) : IO UInt32 :=
  Chalkboard.runProgram words
