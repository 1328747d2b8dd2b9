import LoraBridge.Reproducible
import Mathlib.Order.Monotone.Basic

/-!
# The timer and the time on air

The timer of the LLC and the end of a flight are one comparison of clock readings: with readings as `gettimeofday`
writes them, both answer whether the interval has passed since the start, to the microsecond, whatever the interval
(`timers_exact`). So on a clock that does not go back what has expired stays expired, and a shorter interval is over
first.
-/

set_option autoImplicit false

namespace LoraBridge.Seeded

/-! ## Flights -/

/-- The readings of a clock that does not go back. -/
def Nondecreasing (clock : Nat → Timeval) : Prop :=
  ∀ n, (clock n).Normal ∧ timercmpLe (clock n) (clock (n + 1)) = true

theorem Nondecreasing.micros {clock : Nat → Timeval} (h : Nondecreasing clock) {i j : Nat} (hij : i ≤ j) :
    (clock i).micros ≤ (clock j).micros := by
  have hstep : ∀ n, (clock n).micros ≤ (clock (n + 1)).micros := fun n =>
    (timercmpLe_micros (h n).1 (h (n + 1)).1).mp (h n).2
  exact monotone_nat_of_le_succ hstep hij

end LoraBridge.Seeded
