import Mathlib.Data.Int.Init
import Mathlib.Tactic.Ring
import Mathlib.Tactic.Linarith
import Mathlib.Tactic.Positivity

namespace Dinit.Framework.Division

variable {den r q : Int} {k : Nat}

end Dinit.Framework.Division
