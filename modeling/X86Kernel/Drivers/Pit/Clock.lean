import X86Kernel.Drivers.Pit

/- The clock that the timer keeps (`pit_timer_dispatch`).

   The time is a number of 64 bits in units of 2^-32 ms, in two words; every tick adds the
   same length, and the carry from the lower word is added to the upper one. The length is
   cut to whole units and its constant is a little too large, but both errors together
   stay below 2^-29 ms a tick. What is proved: the timestamps do not go backwards and are
   accurate exactly as long as the time fits into the two words (`clock_right_iff`). After
   2^32 ms, some 49 days, it starts again at 0. -/
namespace X86Kernel.Pit
open X86Kernel.Lib

/-- The reload value for a frequency. -/
def reloadFor (desiredHz : Nat) : Nat :=
  if desiredHz ≤ minPitHz then 0xFFFF
  else if desiredHz ≥ maxPitHz then 1
  else roundDiv pitInputClock (3 * desiredHz)

/-- The length of a tick, in units of 2^-32 ms. -/
def tickLength (reload : Nat) : Nat := reload * tickConstant / 2 ^ 10

theorem reloadValue_reloadFor (desiredHz : Nat) :
    reloadValue desiredHz = .ok (reloadFor desiredHz) ∧ 1 ≤ reloadFor desiredHz ∧
      reloadFor desiredHz ≤ 65535 := by
  unfold reloadFor
  split_ifs with hmin hmax
  · exact ⟨by rw [reloadValue, if_pos hmin], by decide, by decide⟩
  · exact ⟨by rw [reloadValue, if_neg hmin, if_pos hmax], by decide, by decide⟩
  · exact ⟨reloadValue_eq (Nat.not_le.1 hmin) (Nat.not_le.1 hmax),
      reload_bounds (Nat.not_le.1 hmin) (Nat.not_le.1 hmax)⟩

/-! ## Ticks -/

/-- The time, in units of 2^-32 ms. -/
def elapsed (v : PitVars) : Nat := v.systemTimerMs * 2 ^ 32 + v.systemTimerMsFractions

/-- The variables after some ticks. -/
def dispatches (v : PitVars) : Nat → PitVars
  | 0 => v
  | n + 1 => (pitTimerDispatch (dispatches v n)).1

/-- What the callback is called with in tick `i`, counted from 0. -/
def event (v : PitVars) (i : Nat) : IntTimerEvent := (pitTimerDispatch (dispatches v i)).2

/-- In `n` ticks, the timestamps do not go backwards, and each differs from the time that
the ticks took by at most 2^-29 ms a tick, and a nanosecond. -/
structure ClockRight (v : PitVars) (n : Nat) : Prop where
  monotone : ∀ i, i + 1 < n → (event v i).timestampNs ≤ (event v (i + 1)).timestampNs
  accurate : ∀ i < n, |((event v i).timestampNs : ℚ) -
      ((i : ℚ) + 1) * v.pitReloadValue * 3 / 3579545 * 10 ^ 9| ≤
        ((i : ℚ) + 1) * (10 ^ 6 / 2 ^ 29) + 1

/-- The words are words, and a tick has the length for the reload value. -/
structure Ticking (v : PitVars) : Prop where
  ms : v.systemTimerMs < 2 ^ 32
  fractions : v.systemTimerMsFractions < 2 ^ 32
  reload_pos : 1 ≤ v.pitReloadValue
  reload_le : v.pitReloadValue ≤ 65535
  tick : v.tickMs * 2 ^ 32 + v.tickMsFractions = tickLength v.pitReloadValue
  tickFractions : v.tickMsFractions < 2 ^ 32

theorem tickLength_lt {reload : Nat} (h : reload ≤ 65535) : tickLength reload < 2 ^ 38 := by
  unfold tickLength tickConstant
  omega

theorem tickLength_pos {reload : Nat} (h : 1 ≤ reload) : 0 < tickLength reload := by
  unfold tickLength tickConstant
  omega

theorem computePerTickTime_tick (v : PitVars) {reload : Nat} (hle : reload ≤ 65535) :
    (computePerTickTime v reload).tickMs * 2 ^ 32 + (computePerTickTime v reload).tickMsFractions =
      tickLength reload := by
  have hlt := tickLength_lt hle
  have hproduct : (reload * tickConstant % 2 ^ 64) >>> 10 = tickLength reload := by
    rw [Nat.shiftRight_eq_div_pow, Nat.mod_eq_of_lt]
    · rfl
    · unfold tickConstant
      omega
  have hlow : tickLength reload &&& 0xFFFFFFFF = tickLength reload % 2 ^ 32 :=
    Nat.and_two_pow_sub_one_eq_mod _ 32
  unfold computePerTickTime
  simp only [hproduct, hlow, Nat.shiftRight_eq_div_pow]
  unfold u32
  omega

theorem dispatch_elapsed {v : PitVars} (h : Ticking v) :
    Ticking (pitTimerDispatch v).1 ∧
      (pitTimerDispatch v).1.pitReloadValue = v.pitReloadValue ∧
      elapsed (pitTimerDispatch v).1 =
        (elapsed v + tickLength v.pitReloadValue) % 2 ^ 64 := by
  have hms := h.ms
  have hfractions := h.fractions
  have htick := h.tickFractions
  have hsum : (v.systemTimerMsFractions + v.tickMsFractions) % 2 ^ 64 =
      v.systemTimerMsFractions + v.tickMsFractions := Nat.mod_eq_of_lt (by omega)
  have hlow : ∀ n, n &&& 0xFFFFFFFF = n % 2 ^ 32 := fun n => Nat.and_two_pow_sub_one_eq_mod n 32
  refine ⟨⟨?_, ?_, h.reload_pos, h.reload_le, h.tick, htick⟩, rfl, ?_⟩
  · exact Nat.mod_lt _ (by decide)
  · exact Nat.mod_lt _ (by decide)
  · rw [← h.tick]
    simp only [elapsed, pitTimerDispatch, hsum, hlow, Nat.shiftRight_eq_div_pow, u32]
    omega

theorem dispatches_elapsed {v : PitVars} (h : Ticking v) (hzero : elapsed v = 0) (n : Nat) :
    Ticking (dispatches v n) ∧ (dispatches v n).pitReloadValue = v.pitReloadValue ∧
      elapsed (dispatches v n) = n * tickLength v.pitReloadValue % 2 ^ 64 := by
  induction n with
  | zero =>
    refine ⟨h, rfl, ?_⟩
    rw [Nat.zero_mul]
    exact hzero
  | succ n ih =>
    obtain ⟨hticking, hreload, helapsed⟩ := ih
    obtain ⟨hticking', hreload', helapsed'⟩ := dispatch_elapsed hticking
    refine ⟨hticking', hreload'.trans hreload, ?_⟩
    show elapsed (pitTimerDispatch (dispatches v n)).1 = _
    rw [helapsed', helapsed, hreload, Nat.mod_add_mod, Nat.succ_mul]

theorem computeSystemNanoseconds_eq {v : PitVars} (hms : v.systemTimerMs < 2 ^ 32)
    (hfractions : v.systemTimerMsFractions < 2 ^ 32) :
    computeSystemNanoseconds v = elapsed v * 10 ^ 6 / 2 ^ 32 := by
  have hns : v.systemTimerMs * 1000000 % 2 ^ 64 = v.systemTimerMs * 1000000 :=
    Nat.mod_eq_of_lt (by omega)
  have hfracNs : v.systemTimerMsFractions * 1000000 % 2 ^ 64 = v.systemTimerMsFractions * 1000000 :=
    Nat.mod_eq_of_lt (by omega)
  have hsplit : (v.systemTimerMs * 2 ^ 32 + v.systemTimerMsFractions) * 10 ^ 6 =
      v.systemTimerMsFractions * 1000000 + 2 ^ 32 * (v.systemTimerMs * 1000000) := by ring
  unfold computeSystemNanoseconds elapsed
  rw [hns, hfracNs, hsplit, Nat.add_mul_div_left _ _ (by decide), Nat.shiftRight_eq_div_pow]
  dsimp only
  rw [Nat.add_comm, Nat.mod_eq_of_lt (by omega)]

theorem event_timestamp {v : PitVars} (h : Ticking v) (hzero : elapsed v = 0) (i : Nat) :
    (event v i).timestampNs =
      ((i + 1) * tickLength v.pitReloadValue % 2 ^ 64) * 10 ^ 6 / 2 ^ 32 := by
  obtain ⟨hticking, -, helapsed⟩ := dispatches_elapsed h hzero (i + 1)
  rw [← helapsed]
  exact computeSystemNanoseconds_eq hticking.ms hticking.fractions

/-! ## How long the clock is right -/

/-- The error of one tick, in units of 2^-32 ms and 1 / 3579545. -/
theorem tickLength_error {reload : Nat} (h : reload ≤ 65535) :
    tickLength reload * 3579545 ≤ reload * (3000 * 2 ^ 32) + 8 * 3579545 ∧
      reload * (3000 * 2 ^ 32) ≤ tickLength reload * 3579545 + 8 * 3579545 := by
  unfold tickLength tickConstant
  omega

theorem elapsed_error {reload : Nat} (h : reload ≤ 65535) (n : Nat) :
    |(n : ℚ) * tickLength reload * 10 ^ 6 / 2 ^ 32 - n * reload * 3 / 3579545 * 10 ^ 9| ≤
      (n : ℚ) * (10 ^ 6 / 2 ^ 29) := by
  obtain ⟨hle, hge⟩ := tickLength_error h
  have hle : (tickLength reload : ℚ) * 3579545 ≤ reload * (3000 * 2 ^ 32) + 8 * 3579545 := by
    exact_mod_cast hle
  have hge : (reload : ℚ) * (3000 * 2 ^ 32) ≤ tickLength reload * 3579545 + 8 * 3579545 := by
    exact_mod_cast hge
  have herror : |(tickLength reload : ℚ) * 3579545 - reload * (3000 * 2 ^ 32)| ≤ 8 * 3579545 := by
    rw [abs_le]
    constructor
    · linarith
    · linarith
  have hfactor : (n : ℚ) * tickLength reload * 10 ^ 6 / 2 ^ 32 -
      n * reload * 3 / 3579545 * 10 ^ 9 =
      n * (10 ^ 6 / (2 ^ 32 * 3579545)) *
        ((tickLength reload : ℚ) * 3579545 - reload * (3000 * 2 ^ 32)) := by ring
  have hpos : (0 : ℚ) ≤ n * (10 ^ 6 / (2 ^ 32 * 3579545)) := by positivity
  rw [hfactor, abs_mul, abs_of_nonneg hpos]
  calc (n : ℚ) * (10 ^ 6 / (2 ^ 32 * 3579545)) *
        |(tickLength reload : ℚ) * 3579545 - reload * (3000 * 2 ^ 32)|
      ≤ n * (10 ^ 6 / (2 ^ 32 * 3579545)) * (8 * 3579545) :=
        mul_le_mul_of_nonneg_left herror hpos
    _ = n * (10 ^ 6 / 2 ^ 29) := by ring

/-- Rounding down to nanoseconds loses less than one. -/
theorem floor_error (a : Nat) :
    |((a * 10 ^ 6 / 2 ^ 32 : ℕ) : ℚ) - (a : ℚ) * 10 ^ 6 / 2 ^ 32| ≤ 1 := by
  have hle : ((a * 10 ^ 6 / 2 ^ 32 : ℕ) : ℚ) * 2 ^ 32 ≤ a * 10 ^ 6 := by
    exact_mod_cast Nat.div_mul_le_self (a * 10 ^ 6) (2 ^ 32)
  have hlt : (a : ℚ) * 10 ^ 6 < (((a * 10 ^ 6 / 2 ^ 32 : ℕ) : ℚ) + 1) * 2 ^ 32 := by
    exact_mod_cast (Nat.div_lt_iff_lt_mul (by decide)).1 (Nat.lt_succ_self _)
  rw [abs_le]
  constructor
  · rw [le_sub_iff_add_le, add_comm, ← sub_eq_add_neg, sub_le_iff_le_add, div_le_iff₀ (by norm_num)]
    exact hlt.le
  · rw [sub_le_iff_le_add, ← sub_le_iff_le_add', le_div_iff₀ (by norm_num)]
    linarith

theorem timestamp_error {reload : Nat} (h : reload ≤ 65535) (n : Nat) :
    |((n * tickLength reload * 10 ^ 6 / 2 ^ 32 : ℕ) : ℚ) -
      (n : ℚ) * reload * 3 / 3579545 * 10 ^ 9| ≤ (n : ℚ) * (10 ^ 6 / 2 ^ 29) + 1 := by
  have htime := elapsed_error h n
  have hfloor := floor_error (n * tickLength reload)
  rw [Nat.cast_mul n] at hfloor
  calc |((n * tickLength reload * 10 ^ 6 / 2 ^ 32 : ℕ) : ℚ) -
        (n : ℚ) * reload * 3 / 3579545 * 10 ^ 9|
      ≤ 1 + (n : ℚ) * (10 ^ 6 / 2 ^ 29) := (abs_sub_le _ _ _).trans (add_le_add hfloor htime)
    _ = (n : ℚ) * (10 ^ 6 / 2 ^ 29) + 1 := add_comm _ _

section Clock

variable {v : PitVars} (h : Ticking v) (hzero : elapsed v = 0) {n : Nat}
include h hzero

theorem clockRight_of_fits (hfits : n * tickLength v.pitReloadValue < 2 ^ 64) :
    ClockRight v n := by
  have hin : ∀ i, i < n → (i + 1) * tickLength v.pitReloadValue < 2 ^ 64 := by
    intro i hi
    exact lt_of_le_of_lt (Nat.mul_le_mul_right _ hi) hfits
  constructor
  · intro i hi
    rw [event_timestamp h hzero, event_timestamp h hzero, Nat.mod_eq_of_lt (hin i (by omega)),
      Nat.mod_eq_of_lt (hin (i + 1) hi)]
    apply Nat.div_le_div_right
    apply Nat.mul_le_mul_right
    exact Nat.mul_le_mul_right _ (Nat.le_succ _)
  · intro i hi
    have herror := timestamp_error h.reload_le (i + 1)
    rw [Nat.cast_add, Nat.cast_one] at herror
    rw [event_timestamp h hzero, Nat.mod_eq_of_lt (hin i hi)]
    exact herror

/-- The tick in which the upper word goes around. -/
theorem clock_backwards (hlong : 2 ^ 64 ≤ n * tickLength v.pitReloadValue) :
    ∃ i, i + 1 < n ∧ (event v (i + 1)).timestampNs < (event v i).timestampNs := by
  have hpos := tickLength_pos h.reload_pos
  have hlt := tickLength_lt h.reload_le
  generalize hT : tickLength v.pitReloadValue = T at hlong hpos hlt
  -- the last multiple of the length that fits
  obtain ⟨q, hq⟩ : ∃ q, q = (2 ^ 64 - 1) / T := ⟨_, rfl⟩
  have hbelow : q * T ≤ 2 ^ 64 - 1 := hq ▸ Nat.div_mul_le_self _ _
  have habove : 2 ^ 64 - 1 < (q + 1) * T := by
    rw [hq]
    exact (Nat.div_lt_iff_lt_mul hpos).1 (Nat.lt_succ_self _)
  have hsucc : (q + 1) * T = q * T + T := Nat.succ_mul q T
  have hqpos : q ≠ 0 := by
    rintro rfl
    omega
  obtain ⟨i, rfl⟩ := Nat.exists_eq_add_one_of_ne_zero hqpos
  have hin : i + 1 < n := by
    by_contra hge
    have : n * T ≤ (i + 1) * T := Nat.mul_le_mul_right T (Nat.not_lt.1 hge)
    omega
  refine ⟨i, hin, ?_⟩
  have hfits : (i + 1) * T % 2 ^ 64 = (i + 1) * T := Nat.mod_eq_of_lt (by omega)
  have hwrap : (i + 1 + 1) * T % 2 ^ 64 = (i + 1) * T + T - 2 ^ 64 := by
    rw [hsucc, Nat.mod_eq_sub_mod (by omega)]
    exact Nat.mod_eq_of_lt (by omega)
  rw [event_timestamp h hzero, event_timestamp h hzero, hT, hfits, hwrap]
  omega

end Clock

theorem setPitVars_ticking (v : PitVars) (desiredHz : BitVec 32) :
    ∃ v', setPitVars { v with systemTimerMs := 0, systemTimerMsFractions := 0 } desiredHz = .ok v' ∧
      Ticking v' ∧ elapsed v' = 0 ∧ v'.pitReloadValue = reloadFor desiredHz.toNat := by
  obtain ⟨hrun, hpos, hle⟩ := reloadValue_reloadFor desiredHz.toNat
  have htick := computePerTickTime_tick { v with
    systemTimerMs := 0, systemTimerMsFractions := 0, pitReloadValue := reloadFor desiredHz.toNat
    pitHz := roundDiv pitInputClock (3 * reloadFor desiredHz.toNat) } hle
  have hword : ∀ a, u32 a < 2 ^ 32 := fun a => Nat.mod_lt a (by decide)
  refine ⟨_, setPitVars_eq _ hrun hpos hle, ⟨?_, ?_, hpos, hle, htick, hword _⟩, ?_, rfl⟩
  · simp [computePerTickTime]
  · simp [computePerTickTime]
  · simp [computePerTickTime, elapsed]

/-- The clock is right in `n` ticks exactly if their lengths fit into 64 bits together. -/
theorem clock_right_iff (v : PitVars) (desiredHz : BitVec 32) (n : Nat) :
    ∃ v', setPitVars { v with systemTimerMs := 0, systemTimerMsFractions := 0 } desiredHz = .ok v' ∧
      (ClockRight v' n ↔ n * tickLength (reloadFor desiredHz.toNat) < 2 ^ 64) := by
  obtain ⟨v', hrun, hticking, hzero, hreload⟩ := setPitVars_ticking v desiredHz
  refine ⟨v', hrun, ?_⟩
  rw [← hreload]
  constructor
  · intro hright
    by_contra hlong
    obtain ⟨i, hi, hback⟩ := clock_backwards hticking hzero (Nat.not_lt.1 hlong)
    exact absurd (hright.monotone i hi) (Nat.not_le.2 hback)
  · exact clockRight_of_fits hticking hzero

/-- At 1000 Hz the clock is back at 0 after some 49 days. -/
theorem clock_wraps : ∃ v', setPitVars ⟨0, 0, 0, 0, 0, 0, 0⟩ 1000#32 = .ok v' ∧
    (event v' 4295621321).timestampNs = 421917 ∧ ¬ ClockRight v' 4295621322 := by
  obtain ⟨v', hrun, hticking, hzero, hreload⟩ :=
    setPitVars_ticking ⟨0, 0, 0, 0, 0, 0, 0⟩ 1000#32
  have hlength : tickLength v'.pitReloadValue = 4294313370 := by
    rw [hreload]
    decide
  refine ⟨v', hrun, ?_, fun hright => ?_⟩
  · rw [event_timestamp hticking hzero, hlength]
    norm_num
  · have hlong : 2 ^ 64 ≤ 4295621322 * tickLength v'.pitReloadValue := by
      rw [hlength]
      norm_num
    obtain ⟨i, hi, hback⟩ := clock_backwards hticking hzero hlong
    exact absurd (hright.monotone i hi) (Nat.not_le.2 hback)

end X86Kernel.Pit
