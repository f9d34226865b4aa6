import Chalkboard.Command.Options
import Chalkboard.Comparison.Listing
import Chalkboard.Practice.Keystream
import Chalkboard.Practice.System
import Chalkboard.Request
import Chalkboard.Settings.File

/-!
# What a command line does

`Report.ofWords` is the whole program: from the words of a command line, the content of the settings
file, the input and a seed to what is printed and the exit code. The code is 0 if the task was done,
1 if the one method that was run found no solution, and 2 if the task makes no sense. Settings are
looked at before anything else, then a request or a system.

What the system and the libraries say of what they refuse is a parameter, `Wording`.
-/

namespace Chalkboard

/-- What the system and the libraries say of what they refuse, settings and anything
else that a run may meet. -/
structure Wording extends Settings.Wording where
  /-- What is said of a text that denotes no request. -/
  request : String → String
  /-- What is said of an input that is no text. -/
  input : String
  /-- What is said of words that are no command line. -/
  usage : List String → String

/-- What a run of the program leaves behind. -/
structure Report where
  code : UInt32
  output : String
  errors : String
deriving DecidableEq

namespace Report

/-- A task that makes no sense. -/
def refusal (message : String) : Report :=
  ⟨2, "", "Error: " ++ message ++ "\n"⟩

/-- Lines that are printed. -/
def ofLines (code : UInt32) (lines : List String) : Report :=
  ⟨code, String.join (lines.map (· ++ "\n")), ""⟩

end Report

namespace Options

/-- The settings of the settings file with the choices of the command line. -/
def settings (o : Options) (said : Settings.Wording) (content? : String → Option String) :
    Except String (Settings Float) := do
  let base ← match o.settingsFile with
    | none => pure Settings.standard
    | some path =>
      (Settings.load said content? path).mapError fun e => "config '" ++ path ++ "': " ++ e.message
  let chosen : Settings Float :=
    { base with
      precision := o.precision.getD base.precision
      expandCofactors := o.expandCofactors.getD base.expandCofactors }
  chosen.check.mapError SettingsError.message

/-- The unknowns; blanks and commas between them mean nothing. -/
def unknowns (o : Options) : List Char :=
  match o.unknownsText with
  | some text => text.toList.filter fun c => !isBlank c && c ≠ ','
  | none => LinearSystem.defaultUnknowns o.equations.length

/-- A system made up from a seed. -/
def madeUpSystem (n : Nat) (practice : Bool) (epsilon : Float) (seed : UInt64) :
    Except TableError (Σ n, LinearSystem n Float) :=
  let source := Keystream.ofSeed seed
  if practice then
    ((Practice.practiceSystem n epsilon).run source).1.map fun e => ⟨_, e.system⟩
  else
    ((Practice.randomSystem n).run source).1.map fun s => ⟨_, s⟩

/-- The system to be solved. A size is looked at before a system is made up. -/
def system (o : Options) (settings : Settings Float) (freshSeed : UInt64) :
    Except String (Σ n, LinearSystem n Float) :=
  match o.randomSize with
  | some n =>
    if settings.maxSize < n then
      .error ("--random " ++ toString n ++ " exceeds the maximum system size "
        ++ toString settings.maxSize)
    else
      (madeUpSystem n o.practice settings.epsilon (o.seed.getD freshSeed)).mapError
        TableError.message
  | none =>
    if o.equations.isEmpty then
      .error "no equations given (pass equations or use --random N)"
    else
      (LinearSystem.read o.unknowns o.equations).bind (fun s => .ok ⟨_, s⟩)
        |>.mapError InputError.message

/-- A JSON value on a line, the members of objects in the order of their names. -/
def jsonLine (v : Json) : List String :=
  [v.sortMembers.compact]

/-- Solves a system with every method, or with one. -/
def solve (o : Options) (settings : Settings Float) {n : Nat} (s : LinearSystem n Float) : Report :=
  let precision := settings.precision
  if o.everyMethod then
    let c := Comparison.ofSystem settings s
    .ofLines 0 (if o.asJson then jsonLine (c.json precision) else c.lines precision)
  else
    let m := o.method.getD .gaussElimination
    let a : Attempt := ⟨m, n, m.solve settings s⟩
    .ofLines (if a.values?.isSome then 0 else 1)
      (if o.asJson then jsonLine (a.json precision) else a.lines precision)

/-- Carries out what a command line asks for. Without an input no request can be answered. -/
def run (o : Options) (said : Wording) (content? : String → Option String) (input : Option String)
    (freshSeed : UInt64) : Report :=
  match o.settings said.toWording content? with
  | .error message => .refusal message
  | .ok settings =>
    if o.request then
      match input with
      | some body => .ofLines 0 [respondText said.request settings body]
      | none => .refusal ("failed to read request from stdin: " ++ said.input)
    else
      match o.system settings freshSeed with
      | .error message => .refusal message
      | .ok s => o.solve settings s.2

end Options

/-- The report on the words of a command line. -/
def Report.ofWords (said : Wording) (words : List String) (content? : String → Option String)
    (input : Option String) (freshSeed : UInt64) : Report :=
  match Options.parse? words with
  | some o => o.run said content? input freshSeed
  | none => ⟨2, "", said.usage words⟩

end Chalkboard
