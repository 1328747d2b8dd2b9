import Mathlib.Data.BitVec

/-!
# Clock readings and the software timer

`struct timeval` with `timeradd` and `timercmp` as glibc defines them, and the timer of `timeout-timer-internal.c`. The
clock is not part of the model: a function that calls `gettimeofday` takes the reading as an argument.
-/

set_option autoImplicit false

namespace LoraBridge

/-- The time on air of a packet, in milliseconds. -/
def configWlStdTimeOnAirMs : BitVec 32 := 100

structure Timeval where
  tvSec : Int
  tvUsec : Int
  deriving DecidableEq, Repr

/-- `timeradd`: one carry from the microseconds. -/
def timeradd (a b : Timeval) : Timeval :=
  let tvSec := a.tvSec + b.tvSec
  let tvUsec := a.tvUsec + b.tvUsec
  if tvUsec ≥ 1000000 then ⟨tvSec + 1, tvUsec - 1000000⟩ else ⟨tvSec, tvUsec⟩

/-- `timercmp` with `<=`. -/
def timercmpLe (a b : Timeval) : Bool :=
  if a.tvSec = b.tvSec then a.tvUsec ≤ b.tvUsec else a.tvSec ≤ b.tvSec

structure TtTimer where
  startTime : Timeval
  intervalMs : BitVec 32
  deriving DecidableEq, Repr

/-- `tt_timer_start`, when the clock reads `now`. -/
def ttTimerStart (now : Timeval) (ms : BitVec 32) : TtTimer := ⟨now, ms⟩

/-- `tt_timer_is_timeouted`, when the clock reads `now`. -/
def ttTimerIsTimeouted (timer : TtTimer) (now : Timeval) : Bool :=
  let delta : Timeval := ⟨(timer.intervalMs / 1000#32).toNat, (timer.intervalMs % 1000#32).toNat * 1000⟩
  timercmpLe (timeradd timer.startTime delta) now

/-! ## Readings as numbers -/

namespace Timeval

/-- In nanoseconds. -/
def nanos (t : Timeval) : Int := t.tvSec * 1000000000 + t.tvUsec * 1000

/-- In microseconds. -/
def micros (t : Timeval) : Int := t.tvSec * 1000000 + t.tvUsec

/-- As `gettimeofday` writes it. -/
def Normal (t : Timeval) : Prop := 0 ≤ t.tvUsec ∧ t.tvUsec < 1000000

instance (t : Timeval) : Decidable t.Normal := inferInstanceAs (Decidable (_ ∧ _))

end Timeval

variable {a b : Timeval}

theorem timercmpLe_iff (ha : a.Normal) (hb : b.Normal) : timercmpLe a b = true ↔ a.nanos ≤ b.nanos := by
  obtain ⟨ha₀, ha₁⟩ := ha
  obtain ⟨hb₀, hb₁⟩ := hb
  unfold timercmpLe Timeval.nanos
  split_ifs with hsec
  · rw [decide_eq_true_eq]
    omega
  · rw [decide_eq_true_eq]
    omega

theorem timeradd_normal (ha : a.Normal) (hb : b.Normal) :
    (timeradd a b).Normal ∧ (timeradd a b).nanos = a.nanos + b.nanos := by
  obtain ⟨ha₀, ha₁⟩ := ha
  obtain ⟨hb₀, hb₁⟩ := hb
  unfold timeradd Timeval.Normal Timeval.nanos
  dsimp only
  split_ifs with hcarry
  · dsimp only
    omega
  · dsimp only
    omega

theorem Timeval.nanos_eq (t : Timeval) : t.nanos = 1000 * t.micros := by
  unfold Timeval.nanos Timeval.micros
  omega

/-! ## Intervals -/

/-- Milliseconds in seconds and microseconds. -/
def Timeval.ofMillis (ms : Nat) : Timeval := ⟨ms / 1000, ms % 1000 * 1000⟩

theorem Timeval.ofMillis_normal (ms : Nat) : (Timeval.ofMillis ms).Normal := by
  unfold Timeval.ofMillis Timeval.Normal
  dsimp only
  omega

theorem Timeval.ofMillis_micros (ms : Nat) : (Timeval.ofMillis ms).micros = 1000 * ms := by
  unfold Timeval.ofMillis Timeval.micros
  dsimp only
  omega

/-- An interval is over when the reading has got that far from its start, carry or not. -/
theorem timeradd_ofMillis_le (ms : Nat) (ha : a.Normal) (hb : b.Normal) :
    timercmpLe (timeradd a (.ofMillis ms)) b = true ↔ a.micros + 1000 * ms ≤ b.micros := by
  obtain ⟨hnormal, hsum⟩ := timeradd_normal ha (Timeval.ofMillis_normal ms)
  rw [timercmpLe_iff hnormal hb, hsum]
  simp only [Timeval.nanos_eq, Timeval.ofMillis_micros]
  omega

theorem timercmpLe_micros (ha : a.Normal) (hb : b.Normal) : timercmpLe a b = true ↔ a.micros ≤ b.micros := by
  rw [timercmpLe_iff ha hb, Timeval.nanos_eq, Timeval.nanos_eq]
  omega

theorem ttTimerIsTimeouted_iff {timer : TtTimer} {now : Timeval} (hstart : timer.startTime.Normal)
    (hnow : now.Normal) :
    ttTimerIsTimeouted timer now = true ↔ timer.startTime.micros + 1000 * timer.intervalMs.toNat ≤ now.micros := by
  rw [← timeradd_ofMillis_le timer.intervalMs.toNat hstart hnow]
  simp only [ttTimerIsTimeouted, Timeval.ofMillis, BitVec.toNat_udiv, BitVec.toNat_umod, BitVec.toNat_ofNat,
    Nat.reducePow, Nat.reduceMod]
  norm_cast

end LoraBridge
