import X86Kernel.Drivers.Pit.Clock
import X86Kernel.Drivers.Ps2
import X86Kernel.KernelMain

/- The handlers of `kernel_main` (`kernel/core/kernel.c`): `dummy_key_handler` puts out the letters
   of the keys, and switches with the minus key whether `dummy_time_event` puts out a line for
   every tick of the timer.

   What is proved: whatever keys are pressed and released, and wherever the ticks come in between
   the bytes that the keyboard sends, the screen shows what was there before, the letters and the
   lines, in the order of the events, and every line has the number of its tick and the time
   (`console_shows`).

   The handlers run with interrupts off, one after the other; what the interrupted code puts out
   at the same time is left out.

   Correspondence (C ↔ Lean):
     `dummy_printing_time` ↔ `Console`, with the terminal
     `dummy_key_handler`   ↔ `dummyKeyHandler`
     `dummy_time_event`    ↔ `dummyTimeEvent`
     `ps2_key_dispatch`, `pit_timer_dispatch` with these callbacks ↔ `Machine.step` -/
namespace X86Kernel.KernelMain
open X86Kernel.Lib X86Kernel.Ps2 X86Kernel.Pit
open X86Kernel.Printf (printf Arg Piece)
open X86Kernel.Tty (Terminal terminalInitialize terminalWrite Displays rows vgaEntryColor
  vgaColorWhite vgaColorBlack)

structure Console where
  dummyPrintingTime : Bool
  terminal : Terminal

/-- What `dummy_key_handler` prints for a key. -/
def keyString : Keycode → List UInt8
  | .digit0 => [48] | .digit1 => [49] | .digit2 => [50] | .digit3 => [51] | .digit4 => [52]
  | .digit5 => [53] | .digit6 => [54] | .digit7 => [55] | .digit8 => [56] | .digit9 => [57]
  | .a => [97] | .b => [98] | .c => [99] | .d => [100] | .e => [101] | .f => [102] | .g => [103]
  | .h => [104] | .i => [105] | .j => [106] | .k => [107] | .l => [108] | .m => [109]
  | .n => [110] | .o => [111] | .p => [112] | .q => [113] | .r => [114] | .s => [115]
  | .t => [116] | .u => [117] | .v => [118] | .w => [119] | .x => [120] | .y => [121]
  | .z => [122]
  | .enter => [10]
  | .space => [32]
  | _ => []

/-- `printf`, to the terminal. -/
def Console.printf (c : Console) (format : List UInt8) (params : List Arg) : Kernel Console := do
  let (_, out) ← Printf.printf format params
  return { c with terminal := terminalWrite c.terminal out }

def dummyKeyHandler (c : Console) (keyEvent : RawKeyEvent) : Kernel Console :=
  if keyEvent.pressed = false then .ok c
  else
    match keyEvent.code with
    | .minus => .ok { c with dummyPrintingTime := !c.dummyPrintingTime }
    | code => if keyString code = [] then .ok c else c.printf (keyString code) []

/-- `"Tick #%llu Time:%llu [hz:%d]\n"` -/
def tickFormat : List UInt8 :=
  [84, 105, 99, 107, 32, 35, 37, 108, 108, 117, 32, 84, 105, 109, 101, 58, 37, 108, 108, 117, 32,
    91, 104, 122, 58, 37, 100, 93, 10]

def dummyTimeEvent (c : Console) (timeEvent : IntTimerEvent) : Kernel Console :=
  if c.dummyPrintingTime = false then .ok c
  else c.printf tickFormat [.ulonglong (UInt64.ofNat timeEvent.tickCount),
    .ulonglong (UInt64.ofNat timeEvent.timestampNs), .int (Int32.ofNat timeEvent.frequencyHz)]

/-- An interrupt, with the byte that the keyboard has. -/
inductive Interrupt where
  | timer
  | keyboard (scancode : BitVec 8)
  deriving DecidableEq

structure Machine where
  pit : PitVars
  ps2 : Ps2Vars
  console : Console

/-- `init_int_timer` and `init_keyboard`, with the terminal as it is. -/
def Machine.init (t : Terminal) : Kernel Machine := do
  let pit ← setPitVars ⟨0, 0, 0, 0, 0, 0, 0⟩ 10#32
  return ⟨pit, ps2Init, ⟨false, t⟩⟩

def Machine.step (m : Machine) : Interrupt → Kernel Machine
  | .timer => do
    let (pit, timeEvent) := pitTimerDispatch m.pit
    let console ← dummyTimeEvent m.console timeEvent
    return { m with pit := pit, console := console }
  | .keyboard scancode => do
    let (ps2, dispatched) := ps2KeyDispatch m.ps2 scancode
    let console ← dispatched.events.foldlM dummyKeyHandler m.console
    return { m with ps2 := ps2, console := console }

/-! ## What should be on the screen -/

/-- A tick, or a key that is pressed or released. -/
inductive Event where
  | tick
  | key (e : RawKeyEvent)

/-- The line of tick `n`. -/
def tickLine (n : Nat) : List UInt8 :=
  [84, 105, 99, 107, 32, 35] ++ (Printf.decimal (n % 2 ^ 32) ++ ([32, 84, 105, 109, 101, 58] ++
    (Printf.decimal (n * tickLength 0xFFFF % 2 ^ 64 * 10 ^ 6 / 2 ^ 32) ++
      [32, 91, 104, 122, 58, 49, 56, 93, 10])))

/-- What an event adds to the text; the state is whether lines are put out, and the number of
ticks. -/
def see (s : Bool × Nat) : Event → (Bool × Nat) × List UInt8
  | .tick => ((s.1, s.2 + 1), if s.1 then tickLine (s.2 + 1) else [])
  | .key e => ((xor s.1 (e.pressed && e.code = .minus), s.2),
      if e.pressed then keyString e.code else [])

/-- The text for some events since the start. -/
def shown (es : List Event) : List UInt8 := (fold see (false, 0) es).2.flatten

example : shown [.key ⟨.a, true⟩, .tick, .key ⟨.minus, true⟩, .key ⟨.a, false⟩, .tick] =
    97 :: tickLine 2 := by
  decide +kernel

/-- What happens at the keyboard and the timer: a tick, or a key, where `ticks` ticks come before
its last byte. -/
inductive Happening where
  | tick
  | key (e : RawKeyEvent) (known : e.code ≠ .none) (ticks : Nat)

def Happening.interrupts : Happening → List Interrupt
  | .tick => [.timer]
  | .key e _ ticks => (if (scanOf e.code).1 then [.keyboard 0xE0] else []) ++
      (List.replicate ticks .timer ++ [.keyboard (scanByte (scanOf e.code).2 e.pressed)])

def Happening.events : Happening → List Event
  | .tick => [.tick]
  | .key e _ ticks => List.replicate ticks .tick ++ [.key e]

/-! ## The letter of a key -/

theorem Console.printf_text (c : Console) {text : List UInt8}
    (htext : ∀ ch ∈ text, ch ≠ 0 ∧ ch ≠ 37) (hlength : text.length < Printf.intMax) :
    c.printf text [] = .ok { c with terminal := terminalWrite c.terminal text } := by
  rw [Console.printf, (Prints.plain htext).printf_eq hlength, ok_bind]
  rfl

theorem keyString_plain (key : Keycode) :
    (∀ c ∈ keyString key, c ≠ 0 ∧ c ≠ 37) ∧ (keyString key).length ≤ 1 := by
  cases key <;> simp [keyString]

/-- The key handler puts out the letter of a key that is pressed, and the minus key switches. -/
theorem dummyKeyHandler_eq (c : Console) (e : RawKeyEvent) : dummyKeyHandler c e =
    .ok ⟨xor c.dummyPrintingTime (e.pressed && e.code = .minus),
      terminalWrite c.terminal (if e.pressed then keyString e.code else [])⟩ := by
  obtain ⟨code, pressed⟩ := e
  cases pressed with
  | false =>
    obtain ⟨printing, t⟩ := c
    simp [dummyKeyHandler, terminalWrite]
  | true =>
    by_cases hminus : code = .minus
    · subst hminus
      simp [dummyKeyHandler, terminalWrite, keyString]
    · obtain ⟨htext, hlength⟩ := keyString_plain code
      have hprint := c.printf_text htext (lt_of_le_of_lt hlength (by decide))
      have hquiet : dummyKeyHandler c ⟨code, true⟩ =
          if keyString code = [] then .ok c else c.printf (keyString code) [] := by
        cases code <;> first | exact absurd rfl hminus | rfl
      rw [hquiet, hprint]
      simp only [hminus, decide_false, Bool.and_false, Bool.xor_false, if_true]
      split_ifs with hnone
      · rw [hnone]
        rfl
      · rfl

/-! ## The line of a tick -/

theorem length_decimal_le {n : Nat} (h : n < 2 ^ 64) : (Printf.decimal n).length ≤ 20 := by
  rw [Printf.decimal, List.length_map]
  exact Printf.length_toDigits_le (by decide) (by decide) (lt_of_lt_of_le h (by decide))

theorem printf_tick (tickCount timestampNs : UInt64) :
    ∃ count, printf tickFormat
      [.ulonglong tickCount, .ulonglong timestampNs, .int (Int32.ofNat 18)] =
      .ok (count, [84, 105, 99, 107, 32, 35] ++ (Printf.decimal tickCount.toNat ++
        ([32, 84, 105, 109, 101, 58] ++ (Printf.decimal timestampNs.toNat ++
          [32, 91, 104, 122, 58, 49, 56, 93, 10])))) := by
  have heighteen : Printf.signed (Int32.ofNat 18).toInt = [49, 56] := by decide
  have hticks : Prints [84, 105, 99, 107, 32, 35] [] [84, 105, 99, 107, 32, 35] :=
    Prints.plain (by simp)
  have htime : Prints [32, 84, 105, 109, 101, 58] [] [32, 84, 105, 109, 101, 58] :=
    Prints.plain (by simp)
  have hhz : Prints [32, 91, 104, 122, 58] [] [32, 91, 104, 122, 58] := Prints.plain (by simp)
  have hstop : Prints [93, 10] [] [93, 10] := Prints.plain (by simp)
  have hfrequency := hhz.append ((Prints.piece (.d (Int32.ofNat 18)) (by decide)).append hstop)
  rw [Piece.render, heighteen] at hfrequency
  have hline : Prints tickFormat
      [.ulonglong tickCount, .ulonglong timestampNs, .int (Int32.ofNat 18)]
      ([84, 105, 99, 107, 32, 35] ++ (Printf.decimal tickCount.toNat ++
        ([32, 84, 105, 109, 101, 58] ++ (Printf.decimal timestampNs.toNat ++
          [32, 91, 104, 122, 58, 49, 56, 93, 10])))) :=
    hticks.append ((Prints.piece (.llu tickCount) trivial).append
      (htime.append ((Prints.piece (.llu timestampNs) trivial).append hfrequency)))
  have hcount := length_decimal_le tickCount.toNat_lt
  have htimestamp := length_decimal_le timestampNs.toNat_lt
  refine ⟨_, hline.printf_eq ?_⟩
  simp only [List.length_append, List.length_cons, List.length_nil, Printf.intMax]
  omega

/-- The timer after `init_int_timer` and `n` ticks. -/
structure Ticked (v : PitVars) (n : Nat) : Prop where
  ticking : Ticking v
  reload : v.pitReloadValue = 0xFFFF
  elapsed : elapsed v = n * tickLength 0xFFFF % 2 ^ 64
  hz : v.pitHz = 18
  count : v.tickCount = n % 2 ^ 32

theorem Ticked.dispatch {v : PitVars} {n : Nat} (h : Ticked v n) :
    Ticked (pitTimerDispatch v).1 (n + 1) := by
  obtain ⟨hticking, hreload, helapsed⟩ := dispatch_elapsed h.ticking
  refine ⟨hticking, hreload.trans h.reload, ?_, h.hz, ?_⟩
  · rw [helapsed, h.reload, h.elapsed, Nat.mod_add_mod, Nat.succ_mul]
  · show u32 (v.tickCount + 1) = _
    rw [h.count, u32, Nat.mod_add_mod]

theorem Ticked.dummyTimeEvent {v : PitVars} {n : Nat} (h : Ticked v n) (c : Console) :
    dummyTimeEvent c (pitTimerDispatch v).2 = .ok ⟨c.dummyPrintingTime,
      terminalWrite c.terminal (if c.dummyPrintingTime then tickLine (n + 1) else [])⟩ := by
  have hnext := h.dispatch
  have hcount : (pitTimerDispatch v).2.tickCount = (n + 1) % 2 ^ 32 := hnext.count
  have htime : (pitTimerDispatch v).2.timestampNs =
      (n + 1) * tickLength 0xFFFF % 2 ^ 64 * 10 ^ 6 / 2 ^ 32 := by
    rw [← hnext.elapsed]
    exact computeSystemNanoseconds_eq hnext.ticking.ms hnext.ticking.fractions
  have hhz : (pitTimerDispatch v).2.frequencyHz = 18 := hnext.hz
  obtain ⟨count, hrun⟩ := printf_tick (UInt64.ofNat ((n + 1) % 2 ^ 32))
    (UInt64.ofNat ((n + 1) * tickLength 0xFFFF % 2 ^ 64 * 10 ^ 6 / 2 ^ 32))
  have hsmall : (UInt64.ofNat ((n + 1) % 2 ^ 32)).toNat = (n + 1) % 2 ^ 32 := by
    rw [UInt64.toNat_ofNat']
    omega
  have hsmall' : (UInt64.ofNat ((n + 1) * tickLength 0xFFFF % 2 ^ 64 * 10 ^ 6 / 2 ^ 32)).toNat =
      (n + 1) * tickLength 0xFFFF % 2 ^ 64 * 10 ^ 6 / 2 ^ 32 := by
    rw [UInt64.toNat_ofNat']
    omega
  rw [hsmall, hsmall'] at hrun
  obtain ⟨printing, t⟩ := c
  cases printing with
  | false => rfl
  | true =>
    show Console.printf ⟨true, t⟩ tickFormat _ = _
    rw [hcount, htime, hhz, Console.printf, hrun, ok_bind]
    rfl

/-! ## Runs -/

/-- The machine is where the events lead that have been seen so far, with this text. -/
structure Seen (m : Machine) (t : Terminal) (s : Bool × Nat) (text : List UInt8) : Prop where
  pit : Ticked m.pit s.2
  console : m.console = ⟨s.1, terminalWrite t text⟩

section Steps

variable {m : Machine} {t : Terminal} {s : Bool × Nat} {text : List UInt8}

theorem Seen.tick (h : Seen m t s text) : ∃ m', m.step .timer = .ok m' ∧ m'.ps2 = m.ps2 ∧
    Seen m' t (see s .tick).1 (text ++ (see s .tick).2) := by
  have hevent : KernelMain.dummyTimeEvent m.console (pitTimerDispatch m.pit).2 =
      .ok ⟨s.1, terminalWrite t (text ++ (see s .tick).2)⟩ := by
    rw [h.pit.dummyTimeEvent, h.console, terminalWrite_append]
    rfl
  refine ⟨⟨(pitTimerDispatch m.pit).1, m.ps2,
    ⟨s.1, terminalWrite t (text ++ (see s .tick).2)⟩⟩, ?_, rfl, h.pit.dispatch, rfl⟩
  rw [Machine.step]
  dsimp only
  rw [hevent]
  rfl

theorem Seen.key (h : Seen m t s text) {scancode : BitVec 8} {e : RawKeyEvent}
    (hevents : (ps2KeyDispatch m.ps2 scancode).2.events = [e]) :
    ∃ m', m.step (.keyboard scancode) = .ok m' ∧ m'.ps2 = (ps2KeyDispatch m.ps2 scancode).1 ∧
      Seen m' t (see s (.key e)).1 (text ++ (see s (.key e)).2) := by
  have hkey : dummyKeyHandler m.console e =
      .ok ⟨(see s (.key e)).1.1, terminalWrite t (text ++ (see s (.key e)).2)⟩ := by
    rw [dummyKeyHandler_eq, h.console, terminalWrite_append]
    rfl
  refine ⟨⟨m.pit, (ps2KeyDispatch m.ps2 scancode).1,
    ⟨(see s (.key e)).1.1, terminalWrite t (text ++ (see s (.key e)).2)⟩⟩, ?_, rfl, h.pit, rfl⟩
  rw [Machine.step]
  dsimp only
  rw [hevents, List.foldlM_cons, hkey]
  rfl

theorem Seen.prefixByte (h : Seen m t s text) {scancode : BitVec 8}
    (hevents : (ps2KeyDispatch m.ps2 scancode).2.events = []) :
    ∃ m', m.step (.keyboard scancode) = .ok m' ∧ m'.ps2 = (ps2KeyDispatch m.ps2 scancode).1 ∧
      Seen m' t s text := by
  refine ⟨⟨m.pit, (ps2KeyDispatch m.ps2 scancode).1, m.console⟩, ?_, rfl, h.pit, h.console⟩
  rw [Machine.step]
  dsimp only
  rw [hevents]
  rfl

theorem Seen.ticks (k : Nat) : ∀ {m : Machine} {s : Bool × Nat} {text : List UInt8},
    Seen m t s text → ∃ m', (List.replicate k Interrupt.timer).foldlM Machine.step m = .ok m' ∧
      m'.ps2 = m.ps2 ∧ Seen m' t (fold see s (List.replicate k .tick)).1
        (text ++ (fold see s (List.replicate k .tick)).2.flatten) := by
  induction k with
  | zero =>
    intro m s text h
    exact ⟨m, rfl, rfl, by simpa [fold] using h⟩
  | succ k ih =>
    intro m s text h
    obtain ⟨m₁, hstep, hps2, h₁⟩ := h.tick
    obtain ⟨m₂, hrest, hps2', h₂⟩ := ih h₁
    refine ⟨m₂, ?_, hps2'.trans hps2, ?_⟩
    · rw [List.replicate_succ, List.foldlM_cons, hstep, ok_bind, hrest]
    · rw [List.append_assoc] at h₂
      exact h₂

theorem Seen.happening (h : Seen m t s text) (hps2 : m.ps2 = ps2Init) {e : RawKeyEvent}
    (he : e.code ≠ .none) (k : Nat) :
    ∃ m', (Happening.key e he k).interrupts.foldlM Machine.step m = .ok m' ∧ m'.ps2 = ps2Init ∧
      Seen m' t (fold see s (Happening.key e he k).events).1
        (text ++ (fold see s (Happening.key e he k).events).2.flatten) := by
  obtain ⟨hcode, hkey⟩ := scanOf_spec e.code he
  -- behind the prefix, if there is one
  have hfirst : ∃ m₁, (if (scanOf e.code).1 then [Interrupt.keyboard 0xE0] else []).foldlM
      Machine.step m = .ok m₁ ∧ m₁.ps2 = { ps2Init with extended := (scanOf e.code).1 } ∧
        Seen m₁ t s text := by
    cases hext : (scanOf e.code).1 with
    | false => exact ⟨m, rfl, hps2, h⟩
    | true =>
      have hevents : (ps2KeyDispatch m.ps2 0xE0).2.events = [] := rfl
      obtain ⟨m₁, hstep, hps2₁, h₁⟩ := h.prefixByte hevents
      refine ⟨m₁, ?_, ?_, h₁⟩
      · rw [if_pos rfl, List.foldlM_cons, hstep]
        rfl
      · rw [hps2₁, hps2]
        rfl
  obtain ⟨m₁, hrun₁, hps2₁, h₁⟩ := hfirst
  obtain ⟨m₂, hrun₂, hps2₂, h₂⟩ := h₁.ticks k
  have hbyte := dispatch_scanByte m₂.ps2 hcode e.pressed
  have hevents : (ps2KeyDispatch m₂.ps2 (scanByte (scanOf e.code).2 e.pressed)).2.events = [e] := by
    rw [hbyte, hps2₂, hps2₁]
    dsimp only
    rw [hkey]
  obtain ⟨m₃, hrun₃, hps2₃, h₃⟩ := h₂.key hevents
  refine ⟨m₃, ?_, ?_, ?_⟩
  · rw [Happening.interrupts, List.foldlM_append, hrun₁, ok_bind, List.foldlM_append, hrun₂,
      ok_bind, List.foldlM_cons, hrun₃]
    rfl
  · rw [hps2₃, hbyte, hps2₂, hps2₁]
    rfl
  · rw [Happening.events, fold_append, List.flatten_append, ← List.append_assoc]
    simpa [fold] using h₃

end Steps

/-- All that happens at the keyboard and the timer is seen in its order. -/
theorem run_seen {t : Terminal} : ∀ (hs : List Happening) {m : Machine} {s : Bool × Nat}
    {text : List UInt8}, Seen m t s text → m.ps2 = ps2Init →
      ∃ m', (hs.flatMap Happening.interrupts).foldlM Machine.step m = .ok m' ∧
        Seen m' t (fold see s (hs.flatMap Happening.events)).1
          (text ++ (fold see s (hs.flatMap Happening.events)).2.flatten) := by
  intro hs
  induction hs with
  | nil =>
    intro m s text h _
    exact ⟨m, rfl, by simpa [fold] using h⟩
  | cons happening hs ih =>
    intro m s text h hps2
    have hone : ∃ m₁, happening.interrupts.foldlM Machine.step m = .ok m₁ ∧ m₁.ps2 = ps2Init ∧
        Seen m₁ t (fold see s happening.events).1
          (text ++ (fold see s happening.events).2.flatten) := by
      cases happening with
      | tick =>
        obtain ⟨m₁, hrun, hps2₁, h₁⟩ := h.ticks 1
        exact ⟨m₁, hrun, hps2₁.trans hps2, h₁⟩
      | key e he ticks => exact h.happening hps2 he ticks
    obtain ⟨m₁, hrun₁, hps2₁, h₁⟩ := hone
    obtain ⟨m₂, hrun₂, h₂⟩ := ih h₁ hps2₁
    refine ⟨m₂, ?_, ?_⟩
    · rw [List.flatMap_cons, List.foldlM_append, hrun₁, ok_bind, hrun₂]
    · rw [List.flatMap_cons, fold_append, List.flatten_append, ← List.append_assoc]
      exact h₂

/-- Whatever keys are pressed and released, and whenever the timer ticks, the screen shows the
letters and the lines behind what was written before. -/
theorem console_shows (hs : List Happening) (t : Terminal) (earlier : List UInt8) :
    ∃ m m', Machine.init (terminalWrite (terminalInitialize t) earlier) = .ok m ∧
      (hs.flatMap Happening.interrupts).foldlM Machine.step m = .ok m' ∧
      Displays (vgaEntryColor vgaColorWhite vgaColorBlack)
        (vgaEntryColor vgaColorWhite vgaColorBlack)
        (rows (earlier ++ shown (hs.flatMap Happening.events))) m'.console.terminal := by
  obtain ⟨v, hpit, hticking, hzero, hreload⟩ := setPitVars_ticking ⟨0, 0, 0, 0, 0, 0, 0⟩ 10#32
  have hhz : v.pitHz = 18 ∧ v.tickCount = 0 := by
    have hvars : (setPitVars ⟨0, 0, 0, 0, 0, 0, 0⟩ 10#32).map
        (fun v => (v.pitHz, v.tickCount)) = .ok (18, 0) := by
      decide
    have hpair : (v.pitHz, v.tickCount) = (18, 0) := by
      rw [hpit] at hvars
      exact Except.ok.inj hvars
    exact Prod.mk.inj hpair
  have hstart : Seen ⟨v, ps2Init, ⟨false, terminalWrite (terminalInitialize t) earlier⟩⟩
      (terminalInitialize t) (false, 0) earlier :=
    ⟨⟨hticking, hreload, by rw [hzero, Nat.zero_mul]; rfl, hhz.1, hhz.2⟩, rfl⟩
  obtain ⟨m', hrun, hseen⟩ := run_seen hs hstart rfl
  refine ⟨_, m', ?_, hrun, ?_⟩
  · rw [Machine.init, hpit]
    rfl
  · rw [hseen.console]
    exact Tty.terminalWrite_displays _ [] [] _ (Tty.terminalInitialize_shows t _) rfl
      (Nat.zero_lt_succ 79)

end X86Kernel.KernelMain
