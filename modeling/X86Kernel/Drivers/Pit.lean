import X86Kernel.Core
import X86Kernel.Lib.HalfUp

/- The programmable interval timer (`kernel/arch/i386/drivers/pic/pit.c`).

   The frequency of the input is 3579545 / 3 Hz, so that a reload value is a quotient by
   three times the frequency wanted. It is computed in two divisions, each of them
   rounded. What is proved: both together round to the nearest integer, and for each
   frequency between the limits the reload value is right and fits (`pit_rounding`).

   The ports and the interrupt controller are not modelled; the callback is what
   `pit_timer_dispatch` passes to it.

   Correspondence (C ↔ Lean):
     the globals of `pit.c`       ↔ `PitVars`
     `div_round`                  ↔ `divRound`
     `compute_per_tick_time`      ↔ `computePerTickTime`
     `compute_tick_frequency`     ↔ `computeTickFrequency`
     `compute_system_nanoseconds` ↔ `computeSystemNanoseconds`
     `set_pit_vars`               ↔ `setPitVars`
     `pit_timer_dispatch`         ↔ `pitTimerDispatch` -/
namespace X86Kernel.Pit
open X86Kernel.Lib

/-- `PIT_INPUT_CLOCK` -/
def pitInputClock : Nat := 3579545

/-- `PIT_DIVISOR` -/
def pitDivisor : Nat := 3

/-- `MIN_PIT_HZ` -/
def minPitHz : Nat := 18

/-- `MAX_PIT_HZ` -/
def maxPitHz : Nat := 1193181

/-- The globals. The time is in milliseconds, with fractions of 2^-32. -/
structure PitVars where
  systemTimerMsFractions : Nat
  systemTimerMs : Nat
  tickMsFractions : Nat
  tickMs : Nat
  pitReloadValue : Nat
  pitHz : Nat
  tickCount : Nat
  deriving DecidableEq, Repr

/-- `int_timer_event_t` -/
structure IntTimerEvent where
  timestampNs : Nat
  tickCount : Nat
  frequencyHz : Nat
  deriving DecidableEq, Repr

/-- `div_round`, of a `u64` by a `u32`. -/
def divRound (num div : Nat) : Kernel Nat :=
  if div = 0 then .error .divideByZero
  else
    let q := num / div
    let r := num % div
    .ok (if r * 2 % 2 ^ 64 ≥ div then (q + 1) % 2 ^ 64 else q)

/-- The constant of `compute_per_tick_time`: the milliseconds of three input ticks, times
2^42. -/
def tickConstant : Nat := 0xDBB3A062

def computePerTickTime (v : PitVars) (reload : Nat) : PitVars :=
  let product := (reload * tickConstant % 2 ^ 64) >>> 10
  { v with tickMs := u32 (product >>> 32), tickMsFractions := u32 (product &&& 0xFFFFFFFF) }

def computeTickFrequency (reload : Nat) : Kernel Nat := do
  let q ← divRound pitInputClock reload
  let hz ← divRound (u32 q) pitDivisor
  return u32 hz

def computeSystemNanoseconds (v : PitVars) : Nat :=
  let ns := v.systemTimerMs * 1000000 % 2 ^ 64
  let fracNs := (v.systemTimerMsFractions * 1000000 % 2 ^ 64) >>> 32
  (ns + fracNs) % 2 ^ 64

/-- The reload value of `set_pit_vars`, a `u16`. -/
def reloadValue (desiredHz : Nat) : Kernel Nat :=
  if desiredHz ≤ minPitHz then .ok 0xFFFF
  else if desiredHz ≥ maxPitHz then .ok 1
  else do
    let q ← divRound pitInputClock desiredHz
    let reload ← divRound q pitDivisor
    return if reload % 2 ^ 16 = 0 then 1 else reload % 2 ^ 16

def setPitVars (v : PitVars) (desiredHz : BitVec 32) : Kernel PitVars := do
  let reload ← reloadValue desiredHz.toNat
  let hz ← computeTickFrequency reload
  return computePerTickTime { v with pitReloadValue := reload, pitHz := hz } reload

/-- `pit_timer_dispatch`, and what the callback is called with. -/
def pitTimerDispatch (v : PitVars) : PitVars × IntTimerEvent :=
  let sum := (v.systemTimerMsFractions + v.tickMsFractions) % 2 ^ 64
  let v := { v with
    systemTimerMsFractions := u32 (sum &&& 0xFFFFFFFF)
    systemTimerMs := u32 (v.systemTimerMs + u32 (v.tickMs + u32 (sum >>> 32)))
    tickCount := u32 (v.tickCount + 1) }
  (v, {
    timestampNs := computeSystemNanoseconds v
    tickCount := v.tickCount
    frequencyHz := v.pitHz })

/-! ## Two divisions -/

theorem divRound_eq {num div : Nat} (hdiv : 0 < div) (hnum : num < 2 ^ 64)
    (hdouble : 2 * div ≤ 2 ^ 64) : divRound num div = .ok (roundDiv num div) := by
  have hmod := Nat.mod_lt num hdiv
  have hsmall : num % div * 2 % 2 ^ 64 = 2 * (num % div) := by
    rw [Nat.mul_comm, Nat.mod_eq_of_lt (by omega)]
  rw [divRound, if_neg hdiv.ne', roundDiv_eq num hdiv]
  simp only [hsmall, ge_iff_le]
  split_ifs with hhalf
  · -- there is a half only for a divisor of two or more
    have hq : num / div ≤ num / 2 := Nat.div_le_div_left (by omega) (by decide)
    rw [Nat.mod_eq_of_lt (by omega)]
  · rfl

theorem roundDiv_lt {num div : Nat} (hdiv : 0 < div) (hnum : num < 2 ^ 32) :
    roundDiv num div < 2 ^ 32 := by
  have hle : roundDiv num div ≤ num / div + 1 := by
    rw [roundDiv_eq num hdiv]
    split_ifs <;> omega
  by_cases hone : div = 1
  · subst hone
    have : roundDiv num 1 ≤ num := roundDiv_le (by decide) (by omega)
    omega
  · have hhalf : num / div ≤ num / 2 := Nat.div_le_div_left (by omega) (by decide)
    omega

theorem divRound_divRound {num div : Nat} (hdiv : 0 < div) (hnum : num < 2 ^ 64)
    (hdouble : 2 * div ≤ 2 ^ 64) :
    divRound num div = .ok (roundDiv num div) ∧
      divRound (roundDiv num div) pitDivisor = .ok (roundDiv num (3 * div)) := by
  have hq : roundDiv num div < 2 ^ 64 := by
    rw [roundDiv]
    have hle : (2 * num + div) / (2 * div) ≤ (2 * num + div) / 2 :=
      Nat.div_le_div_left (by omega) (by decide)
    by_cases hone : div = 1
    · subst hone
      omega
    · have hle4 : (2 * num + div) / (2 * div) ≤ (2 * num + div) / 4 :=
        Nat.div_le_div_left (by omega) (by decide)
      omega
  refine ⟨divRound_eq hdiv hnum hdouble, ?_⟩
  rw [divRound_eq (by decide) hq (by decide), Nat.mul_comm,
    ← roundDiv_roundDiv_of_odd num hdiv (by decide)]
  rfl

/-! ## The reload value -/

section Reload

variable {hz : Nat} (hmin : minPitHz < hz) (hmax : hz < maxPitHz)
include hmin hmax

theorem reload_bounds : 1 ≤ roundDiv pitInputClock (3 * hz) ∧
    roundDiv pitInputClock (3 * hz) ≤ 65535 := by
  unfold minPitHz at hmin
  unfold maxPitHz at hmax
  unfold pitInputClock
  constructor
  · apply le_roundDiv <;> omega
  · apply roundDiv_le <;> omega

theorem reloadValue_eq : reloadValue hz = .ok (roundDiv pitInputClock (3 * hz)) := by
  obtain ⟨hpos, hle⟩ := reload_bounds hmin hmax
  have hclock : pitInputClock < 2 ^ 64 := by decide
  have hlt : 2 * hz ≤ 2 ^ 64 := by
    unfold maxPitHz at hmax
    omega
  obtain ⟨hfirst, hsecond⟩ := divRound_divRound (Nat.zero_lt_of_lt hmin) hclock hlt
  rw [reloadValue, if_neg (Nat.not_le.2 hmin), if_neg (Nat.not_le.2 hmax), hfirst, ok_bind,
    hsecond, ok_bind, Nat.mod_eq_of_lt (by omega), if_neg (by omega)]
  rfl

end Reload

theorem computeTickFrequency_eq {reload : Nat} (hpos : 0 < reload) (hlt : reload < 2 ^ 32) :
    computeTickFrequency reload = .ok (roundDiv pitInputClock (3 * reload)) := by
  have hclock : pitInputClock < 2 ^ 32 := by decide
  have hwide : pitInputClock < 2 ^ 64 := by decide
  obtain ⟨hfirst, hsecond⟩ := divRound_divRound hpos hwide (show 2 * reload ≤ 2 ^ 64 by omega)
  rw [computeTickFrequency, hfirst, ok_bind, u32_of_lt (roundDiv_lt hpos hclock), hsecond,
    ok_bind, u32_of_lt (roundDiv_lt (by omega) hclock)]
  rfl

theorem setPitVars_eq (v : PitVars) {desiredHz : BitVec 32} {reload : Nat}
    (hreload : reloadValue desiredHz.toNat = .ok reload) (hpos : 1 ≤ reload)
    (hle : reload ≤ 65535) :
    setPitVars v desiredHz = .ok (computePerTickTime { v with
      pitReloadValue := reload, pitHz := roundDiv pitInputClock (3 * reload) } reload) := by
  rw [setPitVars, hreload, ok_bind, computeTickFrequency_eq hpos (by omega), ok_bind]
  rfl

/-- Two divisions, the second one by three, give the nearest integer; so the reload value of
every frequency between the limits is the nearest one and is not cut to 16 bits, and the
frequency that is kept is the one of the reload value. -/
theorem pit_rounding {num div : Nat} (hdiv : 1 ≤ div) (hnum : num < 2 ^ 64)
    (hlt : div < 2 ^ 32) :
    (∃ q r, divRound num div = .ok q ∧ divRound q pitDivisor = .ok r ∧
      (r : ℤ) = round ((num : ℚ) / (3 * div))) ∧
    ∀ (v : PitVars) (desiredHz : BitVec 32), minPitHz < desiredHz.toNat →
      desiredHz.toNat < maxPitHz →
      ∃ q r v', divRound pitInputClock desiredHz.toNat = .ok q ∧ divRound q pitDivisor = .ok r ∧
        setPitVars v desiredHz = .ok v' ∧ v'.pitReloadValue = r ∧
        (r : ℤ) = round ((3579545 : ℚ) / (3 * desiredHz.toNat)) ∧ 1 ≤ r ∧ r ≤ 65535 ∧
        (v'.pitHz : ℤ) = round ((3579545 : ℚ) / (3 * v'.pitReloadValue)) := by
  have hround : ∀ num div : Nat, 0 < div →
      (roundDiv num (3 * div) : ℤ) = round ((num : ℚ) / (3 * div)) := by
    intro num div hpos
    rw [← round_eq_roundDiv num (show 0 < 3 * div by omega)]
    push_cast
    rfl
  constructor
  · obtain ⟨hfirst, hsecond⟩ := divRound_divRound hdiv hnum (by omega)
    exact ⟨_, _, hfirst, hsecond, hround num div hdiv⟩
  · intro v desiredHz hmin hmax
    have hpos : 0 < desiredHz.toNat := Nat.zero_lt_of_lt hmin
    obtain ⟨hlow, hhigh⟩ := reload_bounds hmin hmax
    have hlt := desiredHz.isLt
    have hclock : pitInputClock < 2 ^ 64 := by decide
    obtain ⟨hfirst, hsecond⟩ := divRound_divRound hpos hclock
      (show 2 * desiredHz.toNat ≤ 2 ^ 64 by omega)
    have hrun := setPitVars_eq v (reloadValue_eq hmin hmax) hlow hhigh
    refine ⟨_, _, _, hfirst, hsecond, hrun, rfl, ?_, hlow, hhigh, ?_⟩
    · exact hround pitInputClock _ hpos
    · exact hround pitInputClock _ hlow

/-- The divisions for a frequency of 1000 Hz. -/
theorem pit_rounding_thousand :
    (∃ q r, divRound pitInputClock 1000 = .ok q ∧ divRound q pitDivisor = .ok r ∧
      (r : ℤ) = round ((pitInputClock : ℚ) / (3 * (1000 : ℕ)))) ∧
    ∀ (v : PitVars) (desiredHz : BitVec 32), minPitHz < desiredHz.toNat →
      desiredHz.toNat < maxPitHz →
      ∃ q r v', divRound pitInputClock desiredHz.toNat = .ok q ∧ divRound q pitDivisor = .ok r ∧
        setPitVars v desiredHz = .ok v' ∧ v'.pitReloadValue = r ∧
        (r : ℤ) = round ((3579545 : ℚ) / (3 * desiredHz.toNat)) ∧ 1 ≤ r ∧ r ≤ 65535 ∧
        (v'.pitHz : ℤ) = round ((3579545 : ℚ) / (3 * v'.pitReloadValue)) :=
  pit_rounding (by decide) (by decide) (by decide)

end X86Kernel.Pit
