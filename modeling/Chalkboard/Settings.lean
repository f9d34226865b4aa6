import Chalkboard.Decimal.Text

/-!
# Settings

What a caller may choose: the tolerance below which a pivot or a determinant counts as zero, the
largest admitted system, the number of decimals in annotations, and whether the determinant of a
system is expanded on the board. `Settings.check` admits those that a method can work with.
-/

namespace Chalkboard

universe u

/-- The choices that all methods share. -/
structure Settings (α : Type u) where
  /-- Magnitudes below it count as zero. -/
  epsilon : α
  /-- Largest admitted number of unknowns. -/
  maxSize : Nat
  /-- Decimals in annotations. -/
  precision : Nat
  expandCofactors : Bool
deriving DecidableEq

/-- A cause for refusing settings, or a settings file. The last three pass on what the system or a
library said. -/
inductive SettingsError where
  | unsupportedFormat (path : String)
  | invalidEpsilon (value : Float)
  | invalidMaxSize
  | inaccessible (said : String)
  | undecodable (said : String)
  | unencodable (said : String)
deriving DecidableEq

/-- The wording of a cause. -/
def SettingsError.message : SettingsError → String
  | .unsupportedFormat path => "Unsupported config format: " ++ path
  | .invalidEpsilon value =>
    "invalid config value for epsilon: must be finite and > 0, got " ++ plainText value
  | .invalidMaxSize => "invalid config value for max_size: must be at least 1"
  | .inaccessible said => "IO error: " ++ said
  | .undecodable said => "Parse error: " ++ said
  | .unencodable said => "Serialize error: " ++ said

namespace Settings

/-- The settings that hold when nothing is chosen. -/
def standard : Settings Float :=
  { epsilon := 1e-10, maxSize := 8, precision := 6, expandCofactors := true }

/-- Refuses a tolerance that is not finite and positive, and then a size bound of zero. -/
def check (s : Settings Float) : Except SettingsError (Settings Float) :=
  if !s.epsilon.isFinite || decide (s.epsilon ≤ 0.0) then .error (.invalidEpsilon s.epsilon)
  else if s.maxSize = 0 then .error .invalidMaxSize
  else .ok s

end Settings

end Chalkboard
