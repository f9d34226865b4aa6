import Chalkboard.Method.Basic

/-!
# The options of the command line

A command line is read in two passes. `Argument.readAll?` finds out what each word is: a flag, a
parameter with its value, or an equation. `Options.add?` then notes each choice, and no choice may
be made twice; only the two flags about expansions replace one another.

There is no result as soon as a word makes no sense.
-/

namespace Chalkboard

/-- An option that stands alone. -/
inductive Flag where
  | everyMethod
  | asJson
  | request
  | expansion (wanted : Bool)
  /-- Make up a system whose solution is whole. -/
  | practice
deriving DecidableEq

/-- The flag with the given name. -/
def Flag.ofName? : String → Option Flag
  | "all" => some .everyMethod
  | "json" => some .asJson
  | "api" => some .request
  | "expand-cofactors" => some (.expansion true)
  | "no-expand-cofactors" => some (.expansion false)
  | "practice" => some .practice
  | _ => none

/-- An option that needs a value. -/
inductive Parameter where
  | method
  | unknowns
  | settingsFile
  | precision
  /-- The size of a system to be made up. -/
  | randomSize
  | seed
deriving DecidableEq

/-- The parameter with the given name. -/
def Parameter.ofName? : String → Option Parameter
  | "method" => some .method
  | "variables" => some .unknowns
  | "config" => some .settingsFile
  | "precision" => some .precision
  | "random" => some .randomSize
  | "seed" => some .seed
  | _ => none

/-- What a word or two of a command line say. -/
inductive Argument where
  | flag (flag : Flag)
  | parameter (parameter : Parameter) (value : String)
  | equation (text : String)
deriving DecidableEq

namespace Argument

/-- Whether a word cannot be anything but an option: a hyphen begins it, and is not all of it. -/
def isOption (word : String) : Bool :=
  match word.toList with
  | '-' :: _ :: _ => true
  | _ => false

/-- An option's name, and what is written behind an equals sign. -/
def splitName (cs : List Char) : String × Option String :=
  match cs.dropWhile (· ≠ '=') with
  | [] => (String.ofList cs, none)
  | _ :: value => (String.ofList (cs.takeWhile (· ≠ '=')), some (String.ofList value))

/-- The option that begins with a word, from the characters behind its two hyphens, if its value
stands in the same word or it needs none. -/
def single? (cs : List Char) : Option Argument :=
  match splitName cs with
  | (name, none) => (Flag.ofName? name).map .flag
  | (name, some value) => (Parameter.ofName? name).map (.parameter · value)

/-- The meaning of all words. Two hyphens end the options. A parameter without an equals sign takes
the next word, unless that is an option. -/
def readAll? : List String → Option (List Argument)
  | [] => some []
  | word :: words =>
    if word = "--" then some (words.map .equation)
    else if !isOption word then (readAll? words).map (.equation word :: ·)
    else match word.toList with
      | '-' :: '-' :: cs =>
        match single? cs, Parameter.ofName? (String.ofList cs), words with
        | some argument, _, words => (readAll? words).map (argument :: ·)
        | none, some p, value :: words =>
          if isOption value then none else (readAll? words).map (.parameter p value :: ·)
        | _, _, _ => none
      | _ => none

end Argument

/-- What a command line asks for. -/
structure Options where
  equations : List String
  method : Option Method
  /-- The unknowns, as written. -/
  unknownsText : Option String
  everyMethod : Bool
  asJson : Bool
  /-- Whether a request is to be answered instead. -/
  request : Bool
  settingsFile : Option String
  precision : Option Nat
  expandCofactors : Option Bool
  /-- The size of a system to be made up instead of equations. -/
  randomSize : Option Nat
  /-- Whether such a system is to have a solution of whole numbers. -/
  practice : Bool
  seed : Option UInt64
deriving DecidableEq

namespace Options

/-- Nothing chosen yet. -/
def blank : Options :=
  { equations := [], method := none, unknownsText := none, everyMethod := false, asJson := false,
    request := false, settingsFile := none, precision := none, expandCofactors := none,
    randomSize := none, practice := false, seed := none }

/-- The method with the given name on a command line. -/
def methodNamed? : String → Option Method
  | "cramer" => some .cramersRule
  | "gauss" => some .gaussElimination
  | "gauss-jordan" => some .gaussJordan
  | "lu" => some .luDecomposition
  | _ => none

/-- The value of decimal digits, if it fits in 64 bits. A plus sign may stand before them. -/
def count? (text : String) : Option Nat :=
  let ds := match text.toList with
    | '+' :: cs => cs
    | cs => cs
  if ds ≠ [] ∧ ds.all Char.isDigit ∧ digitsValue ds < UInt64.size then some (digitsValue ds) else none

/-- Makes a choice that is still open. -/
def choose? {α : Type} (current : Option α) (choice : Option α) : Option (Option α) :=
  match current with
  | none => choice.map some
  | some _ => none

/-- Raises a flag that is still down. -/
def raise? : Bool → Option Bool
  | false => some true
  | true => none

/-- The options after one more argument. -/
def add? (o : Options) : Argument → Option Options
  | .equation text => some { o with equations := o.equations ++ [text] }
  | .flag .everyMethod => (raise? o.everyMethod).map ({ o with everyMethod := · })
  | .flag .asJson => (raise? o.asJson).map ({ o with asJson := · })
  | .flag .request => (raise? o.request).map ({ o with request := · })
  | .flag .practice => (raise? o.practice).map ({ o with practice := · })
  | .flag (.expansion wanted) =>
    if o.expandCofactors = some wanted then none else some { o with expandCofactors := wanted }
  | .parameter .method value =>
    (choose? o.method (methodNamed? value)).map ({ o with method := · })
  | .parameter .unknowns value =>
    (choose? o.unknownsText (some value)).map ({ o with unknownsText := · })
  | .parameter .settingsFile value =>
    (choose? o.settingsFile (some value)).map ({ o with settingsFile := · })
  | .parameter .precision value =>
    (choose? o.precision (count? value)).map ({ o with precision := · })
  | .parameter .randomSize value =>
    (choose? o.randomSize (count? value)).map ({ o with randomSize := · })
  | .parameter .seed value =>
    (choose? o.seed ((count? value).map UInt64.ofNat)).map ({ o with seed := · })

/-- The options that a command line stands for. -/
def parse? (words : List String) : Option Options :=
  (Argument.readAll? words).bind fun arguments => arguments.foldlM add? blank

end Options

end Chalkboard
