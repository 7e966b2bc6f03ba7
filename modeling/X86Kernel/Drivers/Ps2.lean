import Mathlib.Data.BitVec
import Mathlib.Logic.Function.Basic
import X86Kernel.Lib.Run

/- The keyboard (`kernel/arch/i386/drivers/pic/ps2_key.c`): scan codes, one byte an interrupt, and
   the key events they stand for.

   What is proved: for every key but `KEYCODE_NONE` there is one scan code, and the bytes of any
   sequence of keys pressed and released give these events back, in order and with one end of
   interrupt a byte (`ps2_round_trip`).

   The callback is what the events are given to. `io_wait` is left out.

   Correspondence (C ↔ Lean):
     `enum key_codes`     ↔ `Keycode`
     `raw_key_event_t`    ↔ `RawKeyEvent`
     `ps2_kc_map`, `ps2_kc_map_ext`, `extended` ↔ `Ps2Vars`
     `ps2_init`           ↔ `ps2Init`
     `ps2_key_dispatch`   ↔ `ps2KeyDispatch`, with how often it calls `ps2_send_eoi` -/
namespace X86Kernel.Ps2
open Lib

/-- `enum key_codes` -/
inductive Keycode where
  | none | digit0 | digit1 | digit2 | digit3 | digit4 | digit5 | digit6 | digit7 | digit8
  | digit9 | a | b | c | d | e | f | g | h | i | j | k | l | m | n | o | p | q | r | s | t | u
  | v | w | x | y | z | minus | equal | backtick | backslash | bracketLeft | bracketRight
  | semicolon | apostrophe | comma | dot | slash | shiftLeft | shiftRight | ctrlLeft | ctrlRight
  | altLeft | altRight | winLeft | winRight | menu | caps | numlock | scrolllock | enter
  | backspace | tab | space | escape | insert | delete | home | end | pageUp | pageDown
  | arrowLeft | arrowRight | arrowUp | arrowDown | f1 | f2 | f3 | f4 | f5 | f6 | f7 | f8 | f9
  | f10 | f11 | f12 | numpad0 | numpad1 | numpad2 | numpad3 | numpad4 | numpad5 | numpad6
  | numpad7 | numpad8 | numpad9 | numpadPlus | numpadMinus | numpadStar | numpadSlash | numpadDot
  | numpadEnter
  deriving DecidableEq, Repr

/-- `raw_key_event_t` -/
structure RawKeyEvent where
  code : Keycode
  pressed : Bool
  deriving DecidableEq

structure Ps2Vars where
  kcMap : Nat → Keycode
  kcMapExt : Nat → Keycode
  extended : Bool

/-- The assignments to `ps2_kc_map`. -/
def kcTable : List (Nat × Keycode) :=
  [(0x1E, .a), (0x30, .b), (0x2E, .c), (0x20, .d), (0x12, .e), (0x21, .f), (0x22, .g),
  (0x23, .h), (0x17, .i), (0x24, .j), (0x25, .k), (0x26, .l), (0x32, .m), (0x31, .n), (0x18, .o),
  (0x19, .p), (0x10, .q), (0x13, .r), (0x1F, .s), (0x14, .t), (0x16, .u), (0x2F, .v), (0x11, .w),
  (0x2D, .x), (0x15, .y), (0x2C, .z), (0x02, .digit1), (0x03, .digit2), (0x04, .digit3),
  (0x05, .digit4), (0x06, .digit5), (0x07, .digit6), (0x08, .digit7), (0x09, .digit8),
  (0x0A, .digit9), (0x0B, .digit0), (0x0C, .minus), (0x0D, .equal), (0x29, .backtick),
  (0x2B, .backslash), (0x1A, .bracketLeft), (0x1B, .bracketRight), (0x27, .semicolon),
  (0x28, .apostrophe), (0x33, .comma), (0x34, .dot), (0x35, .slash), (0x2A, .shiftLeft),
  (0x36, .shiftRight), (0x1D, .ctrlLeft), (0x38, .altLeft), (0x3A, .caps), (0x45, .numlock),
  (0x46, .scrolllock), (0x39, .space), (0x0F, .tab), (0x1C, .enter), (0x0E, .backspace),
  (0x01, .escape), (0x3B, .f1), (0x3C, .f2), (0x3D, .f3), (0x3E, .f4), (0x3F, .f5), (0x40, .f6),
  (0x41, .f7), (0x42, .f8), (0x43, .f9), (0x44, .f10), (0x57, .f11), (0x58, .f12),
  (0x52, .numpad0), (0x4F, .numpad1), (0x50, .numpad2), (0x51, .numpad3), (0x4B, .numpad4),
  (0x4C, .numpad5), (0x4D, .numpad6), (0x47, .numpad7), (0x48, .numpad8), (0x49, .numpad9),
  (0x53, .numpadDot), (0x37, .numpadStar), (0x4A, .numpadMinus), (0x4E, .numpadPlus)]

/-- The assignments to `ps2_kc_map_ext`. -/
def kcTableExt : List (Nat × Keycode) :=
  [(0x1C, .numpadEnter), (0x35, .numpadSlash), (0x1D, .ctrlRight), (0x38, .altRight),
  (0x52, .insert), (0x53, .delete), (0x47, .home), (0x4F, .end), (0x49, .pageUp),
  (0x51, .pageDown), (0x48, .arrowUp), (0x50, .arrowDown), (0x4B, .arrowLeft),
  (0x4D, .arrowRight), (0x5B, .winLeft), (0x5C, .winRight), (0x5D, .menu)]

def assignAll (table : List (Nat × Keycode)) : Nat → Keycode :=
  table.foldl (fun map p => Function.update map p.1 p.2) fun _ => .none

def ps2Init : Ps2Vars := ⟨assignAll kcTable, assignAll kcTableExt, false⟩

/-- What a dispatch does: the events for the callback, and how often it ends the interrupt. -/
structure Dispatched where
  events : List RawKeyEvent
  eois : Nat

/-- `ps2_key_dispatch`, for the byte that it reads. -/
def ps2KeyDispatch (vars : Ps2Vars) (scancode : BitVec 8) : Ps2Vars × Dispatched :=
  if scancode = 0xE0 then ({ vars with extended := true }, ⟨[], 1⟩)
  else
    let eois := if scancode = 0xE1 then 1 else 0
    let released := scancode &&& 0x80 ≠ 0
    let code := (scancode &&& 0x7F).toNat
    let keycode := if vars.extended then vars.kcMapExt code else vars.kcMap code
    ({ vars with extended := false }, ⟨[⟨keycode, !released⟩], eois + 1⟩)

/-! ## Scan codes -/

/-- Whether a key has the prefix, and its code. -/
def scanOf (key : Keycode) : Bool × Nat :=
  match kcTable.find? fun p => p.2 = key with
  | some p => (false, p.1)
  | none =>
    match kcTableExt.find? fun p => p.2 = key with
    | some p => (true, p.1)
    | none => (false, 0)

/-- The byte of a code, with the highest bit for a key that is released. -/
def scanByte (code : Nat) (pressed : Bool) : BitVec 8 :=
  BitVec.ofNat 8 code ||| (if pressed then 0 else 0x80)

/-- The bytes that a keyboard sends when a key is pressed or released. -/
def RawKeyEvent.bytes (e : RawKeyEvent) : List (BitVec 8) :=
  (if (scanOf e.code).1 then [0xE0] else []) ++ [scanByte (scanOf e.code).2 e.pressed]

/-- The tables have every key, with a code below those of the prefixes. -/
theorem scanOf_spec (key : Keycode) (hkey : key ≠ .none) :
    (scanOf key).2 < 0x60 ∧
      (if (scanOf key).1 then ps2Init.kcMapExt (scanOf key).2
        else ps2Init.kcMap (scanOf key).2) = key := by
  cases key <;> first | exact absurd rfl hkey | decide

theorem scanByte_spec : ∀ code < 0x60, ∀ pressed : Bool,
    scanByte code pressed ≠ 0xE0 ∧ scanByte code pressed ≠ 0xE1 ∧
      (scanByte code pressed &&& 0x7F).toNat = code ∧
        decide (scanByte code pressed &&& 0x80 ≠ 0) = !pressed := by
  decide

theorem dispatch_scanByte (vars : Ps2Vars) {code : Nat} (hcode : code < 0x60) (pressed : Bool) :
    ps2KeyDispatch vars (scanByte code pressed) = ({ vars with extended := false },
      ⟨[⟨if vars.extended then vars.kcMapExt code else vars.kcMap code, pressed⟩], 1⟩) := by
  obtain ⟨hescape, hpause, hlow, hhigh⟩ := scanByte_spec code hcode pressed
  unfold ps2KeyDispatch
  rw [if_neg hescape, if_neg hpause]
  simp only [hlow, hhigh, Bool.not_not, zero_add]

/-- The bytes of one key: for each an end of interrupt, and the event for the last one. -/
theorem dispatch_bytes (e : RawKeyEvent) (he : e.code ≠ .none) :
    fold ps2KeyDispatch ps2Init e.bytes =
      (ps2Init, (if (scanOf e.code).1 then [⟨[], 1⟩] else []) ++ [⟨[e], 1⟩]) := by
  obtain ⟨hcode, hkey⟩ := scanOf_spec e.code he
  unfold RawKeyEvent.bytes
  cases hext : (scanOf e.code).1 with
  | false =>
    rw [hext] at hkey
    have hbyte := dispatch_scanByte ps2Init hcode e.pressed
    calc fold ps2KeyDispatch ps2Init [scanByte (scanOf e.code).2 e.pressed]
        = (ps2Init, [⟨[⟨ps2Init.kcMap (scanOf e.code).2, e.pressed⟩], 1⟩]) := by
          rw [fold, hbyte]
          rfl
      _ = (ps2Init, [⟨[e], 1⟩]) := by
          rw [show ps2Init.kcMap (scanOf e.code).2 = e.code from hkey]
  | true =>
    rw [hext] at hkey
    have hbyte := dispatch_scanByte { ps2Init with extended := true } hcode e.pressed
    calc fold ps2KeyDispatch ps2Init [0xE0, scanByte (scanOf e.code).2 e.pressed]
        = (ps2Init, [⟨[], 1⟩, ⟨[⟨ps2Init.kcMapExt (scanOf e.code).2, e.pressed⟩], 1⟩]) := by
          rw [fold, fold, show ps2KeyDispatch ps2Init 0xE0 =
            ({ ps2Init with extended := true }, ⟨[], 1⟩) from rfl, hbyte]
          rfl
      _ = (ps2Init, [⟨[], 1⟩, ⟨[e], 1⟩]) := by
          rw [show ps2Init.kcMapExt (scanOf e.code).2 = e.code from hkey]

/-- Keys pressed and released, whichever and in whatever order, are the events that the callback
gets, and every byte ends its interrupt. -/
theorem ps2_round_trip (es : List RawKeyEvent) (hes : ∀ e ∈ es, e.code ≠ .none) :
    (fold ps2KeyDispatch ps2Init (es.flatMap RawKeyEvent.bytes)).1 = ps2Init ∧
      (fold ps2KeyDispatch ps2Init (es.flatMap RawKeyEvent.bytes)).2.flatMap Dispatched.events =
        es ∧
      ∀ d ∈ (fold ps2KeyDispatch ps2Init (es.flatMap RawKeyEvent.bytes)).2, d.eois = 1 := by
  induction es with
  | nil => exact ⟨rfl, rfl, nofun⟩
  | cons e es ih =>
    obtain ⟨hvars, hevents, heois⟩ := ih fun e' he' => hes e' (List.mem_cons_of_mem e he')
    rw [List.flatMap_cons, fold_append, dispatch_bytes e (hes e List.mem_cons_self)]
    refine ⟨hvars, ?_, fun d hd => ?_⟩
    · rw [List.flatMap_append, hevents]
      cases (scanOf e.code).1 <;> rfl
    · rcases List.mem_append.1 hd with hfirst | hrest
      · cases hext : (scanOf e.code).1 <;> rw [hext] at hfirst <;> simp at hfirst
        · rw [hfirst]
        · rcases hfirst with rfl | rfl <;> rfl
      · exact heois d hrest

/-- A letter, and a key with the prefix. -/
theorem ps2_round_trip_two :
    (fold ps2KeyDispatch ps2Init ([⟨.a, true⟩, ⟨.arrowUp, true⟩, ⟨.arrowUp, false⟩].flatMap
        RawKeyEvent.bytes)).2.flatMap Dispatched.events =
      [⟨.a, true⟩, ⟨.arrowUp, true⟩, ⟨.arrowUp, false⟩] :=
  (ps2_round_trip [⟨.a, true⟩, ⟨.arrowUp, true⟩, ⟨.arrowUp, false⟩] (by decide)).2.1

end X86Kernel.Ps2
