import Mathlib.Data.BitVec
import Mathlib.Data.Fin.Basic
import Mathlib.Data.Fintype.Basic
import Mathlib.Data.List.Find
import X86Kernel.Lib.Run

/- The pair of interrupt controllers and its driver (`kernel/arch/i386/drivers/pic/pic.c`).

   The chips are modelled from the commands they understand: the initialisation words, masks, the
   end of an interrupt that names none, and the choice of the register to read. The second chip is
   wired to line 2 of the first. Devices raise lines at any time; the processor takes an interrupt
   between any two actions where interrupts are on, and its gate turns them off until `iret`.

   What is proved: whatever state the chips were in before `setup_pic`, the chips and the driver are
   a set of pending lines and a set of lines that are let through, from which the processor takes
   the one that comes first in `served` (`pic_refines`). The handlers end their interrupt once or
   more, with its vector; `ps2_key_dispatch` ends some twice.

   `io_wait` is left out, and `irq_save`, which keeps the processor from taking an interrupt while
   a mask is changed.

   Correspondence (C ↔ Lean):
     `pic_remap`            ↔ `picRemap`
     `__pic_get_irq_reg`    ↔ `picGetIrqReg`
     `pic_get_irr`, `pic_get_isr` ↔ `picGetIrr`, `picGetIsr`
     `pic_send_eoi_vector`  ↔ `picSendEoiVector`
     `pic_unmask_irq`       ↔ `picUnmaskIrq`
     `vector_to_irq`        ↔ `vectorToIrq`
     `pic_unmask_vector`    ↔ `picUnmaskVector`
     `setup_pic`            ↔ `setupPic` -/
namespace X86Kernel.Pic
open Lib

abbrev Byte := BitVec 8

/-! ## The chips -/

/-- The initialisation word that a chip waits for. -/
inductive Awaits where
  | ready | icw2 | icw3 | icw4
  deriving DecidableEq

structure Chip where
  awaits : Awaits
  icw1 : Byte
  base : Byte
  cascade : Byte
  icw4 : Byte
  irr : Byte
  isr : Byte
  imr : Byte
  readIsr : Bool
  deriving DecidableEq

/-- The line of highest priority in a register. -/
def first (reg : Byte) : Option Nat := (List.range 8).find? fun i => reg.getLsbD i

def bit (i : Nat) : Byte := 1#8 <<< i

/-- The end of an interrupt that names none. -/
def Chip.endFirst (c : Chip) : Chip :=
  match first c.isr with
  | some i => { c with isr := c.isr &&& ~~~bit i }
  | none => c

/-- A byte written to the command port. -/
def Chip.command (c : Chip) (value : Byte) : Chip :=
  if value &&& 0x10 ≠ 0 then
    { c with
      awaits := .icw2, icw1 := value, icw4 := 0
      irr := 0, isr := 0, imr := 0, readIsr := false }
  else if value &&& 0x08 ≠ 0 then
    if value &&& 0x02 ≠ 0 then { c with readIsr := value &&& 0x01 ≠ 0 } else c
  else if value &&& 0xE0 = 0x20 then c.endFirst
  else c

/-- What comes after the third initialisation word, or after the second of a single chip. -/
def Chip.afterIcw3 (c : Chip) : Awaits := if c.icw1 &&& 0x01 ≠ 0 then .icw4 else .ready

/-- A byte written to the data port. -/
def Chip.data (c : Chip) (value : Byte) : Chip :=
  match c.awaits with
  | .icw2 => { c with
      base := value &&& 0xF8
      awaits := if c.icw1 &&& 0x02 ≠ 0 then c.afterIcw3 else .icw3 }
  | .icw3 => { c with cascade := value, awaits := c.afterIcw3 }
  | .icw4 => { c with icw4 := value, awaits := .ready }
  | .ready => { c with imr := value }

/-- The lines that ask, without those of lower priority than one in service. -/
def Chip.asking (c : Chip) (requests : Byte) : Option Nat :=
  match first (requests &&& ~~~c.imr), first c.isr with
  | some i, some j => if i < j then some i else none
  | some i, none => some i
  | none, _ => none

/-- The line goes from requested to in service. -/
def Chip.acknowledge (c : Chip) (i : Nat) : Chip :=
  { c with
    irr := c.irr &&& ~~~bit i
    isr := if c.icw4 &&& 0x02 ≠ 0 then c.isr else c.isr ||| bit i }

structure Board where
  master : Chip
  slave : Chip
  deriving DecidableEq

/-- The line of the first chip that the second one is wired to. -/
def cascadeLine : Nat := 2

/-- The requests at the first chip. -/
def Board.requests (b : Board) : Byte :=
  b.master.irr ||| if (b.slave.asking b.slave.irr).isSome then bit cascadeLine else 0

/-- A device raises line `n`. -/
def Board.raise (b : Board) (n : Nat) : Board :=
  if n < 8 then { b with master := { b.master with irr := b.master.irr ||| bit n } }
  else { b with slave := { b.slave with irr := b.slave.irr ||| bit (n - 8) } }

/-- The processor acknowledges: the vector, from the chip whose line it is. -/
def Board.acknowledge (b : Board) : Option (Board × Byte) :=
  match b.master.asking b.requests with
  | none => none
  | some i =>
    let master := b.master.acknowledge i
    if b.master.cascade &&& bit i ≠ 0 then
      -- nobody answers for a second chip with another number
      if b.slave.cascade &&& 7 ≠ BitVec.ofNat 8 i then some (⟨master, b.slave⟩, 0xFF)
      else
        match b.slave.asking b.slave.irr with
        | some j => some (⟨master, b.slave.acknowledge j⟩, b.slave.base + BitVec.ofNat 8 j)
        | none => some (⟨master, b.slave⟩, b.slave.base + 7)
    else some (⟨master, b.slave⟩, b.master.base + BitVec.ofNat 8 i)

inductive Port where
  | pic1Command | pic1Data | pic2Command | pic2Data
  deriving DecidableEq

def outb (b : Board) : Port → Byte → Board
  | .pic1Command, value => { b with master := b.master.command value }
  | .pic1Data, value => { b with master := b.master.data value }
  | .pic2Command, value => { b with slave := b.slave.command value }
  | .pic2Data, value => { b with slave := b.slave.data value }

/-- What a chip gives at its command port. -/
def Chip.register (c : Chip) : Byte := if c.readIsr then c.isr else c.irr

def inb (b : Board) : Port → Byte
  | .pic1Command => b.master.register
  | .pic1Data => b.master.imr
  | .pic2Command => b.slave.register
  | .pic2Data => b.slave.imr

/-! ## The driver -/

/-- `pic_master_base` and `pic_slave_base` -/
structure PicVars where
  picMasterBase : Byte
  picSlaveBase : Byte
  deriving DecidableEq

/-- `PIC_IRQ_OFFSET` -/
def picIrqOffset : Byte := 0x20

/-- `ICW1_INIT | ICW1_ICW4` -/
def icw1InitIcw4 : Byte := 0x11

/-- `ICW4_8086` -/
def icw48086 : Byte := 0x01

/-- `PIC_EOI` -/
def picEoi : Byte := 0x20

def picRemap (b : Board) (offset1 offset2 : Byte) : Board × PicVars :=
  let b := outb b .pic1Command icw1InitIcw4
  let b := outb b .pic2Command icw1InitIcw4
  let b := outb b .pic1Data offset1
  let b := outb b .pic2Data offset2
  let b := outb b .pic1Data 4
  let b := outb b .pic2Data 2
  let b := outb b .pic1Data icw48086
  let b := outb b .pic2Data icw48086
  let b := outb b .pic1Data 0
  let b := outb b .pic2Data 0
  (b, ⟨offset1, offset2⟩)

def setupPic (b : Board) : Board × PicVars :=
  let (b, vars) := picRemap b picIrqOffset (picIrqOffset + 8)
  let b := outb b .pic1Data (0xFF ^^^ (1 <<< 2))
  let b := outb b .pic2Data 0xFF
  (b, vars)

/-- `__pic_get_irq_reg` -/
def picGetIrqReg (b : Board) (ocw3 : Byte) : Board × BitVec 16 :=
  let b := outb b .pic1Command ocw3
  let b := outb b .pic2Command ocw3
  (b, (inb b .pic2Command).setWidth 16 <<< 8 ||| (inb b .pic1Command).setWidth 16)

/-- `pic_get_irr`, with `PIC_READ_IRR` -/
def picGetIrr (b : Board) : Board × BitVec 16 := picGetIrqReg b 0x0A

/-- `pic_get_isr`, with `PIC_READ_ISR` -/
def picGetIsr (b : Board) : Board × BitVec 16 := picGetIrqReg b 0x0B

def picSendEoiVector (vars : PicVars) (b : Board) (vector : Byte) : Board :=
  let b :=
    if vars.picSlaveBase.toNat ≤ vector.toNat ∧ vector.toNat < vars.picSlaveBase.toNat + 8 then
      outb b .pic2Command picEoi
    else b
  outb b .pic1Command picEoi

/-- `pic_unmask_irq` -/
def picUnmaskIrq (b : Board) (irqLine : Nat) : Board :=
  let port := if irqLine < 8 then .pic1Data else .pic2Data
  let bitNo := if irqLine < 8 then irqLine else irqLine - 8
  outb b port (inb b port &&& ~~~bit bitNo)

/-- `vector_to_irq`; `none` for -1. -/
def vectorToIrq (vars : PicVars) (vector : Byte) : Option Nat :=
  if vars.picMasterBase.toNat ≤ vector.toNat ∧ vector.toNat < vars.picMasterBase.toNat + 8 then
    some (vector.toNat - vars.picMasterBase.toNat)
  else if vars.picSlaveBase.toNat ≤ vector.toNat ∧ vector.toNat < vars.picSlaveBase.toNat + 8 then
    some (8 + (vector.toNat - vars.picSlaveBase.toNat))
  else none

def picUnmaskVector (vars : PicVars) (b : Board) (vector : Byte) : Board :=
  match vectorToIrq vars vector with
  | some irq => picUnmaskIrq b irq
  | none => b

/-! ## The machine -/

/-- The chips and the driver, with the processor: whether it takes interrupts, and the vector it is
in the handler of, if any, with whether that handler has ended it. -/
structure Machine where
  board : Board
  vars : PicVars
  flag : Bool
  handling : Option (Byte × Bool)
  deriving DecidableEq

inductive Action where
  | raise (n : Fin 16)
  | irqEnable
  | irqDisable
  | unmask (vector : Byte)
  | accept
  | eoi
  | iret

/-- One action; the output is the vector of an interrupt that is taken. -/
def step (m : Machine) : Action → Except Unit (Machine × Option Byte)
  | .raise n => .ok ({ m with board := m.board.raise n }, none)
  | .irqEnable => .ok ({ m with flag := true }, none)
  | .irqDisable => .ok ({ m with flag := false }, none)
  | .unmask v => .ok ({ m with board := picUnmaskVector m.vars m.board v }, none)
  | .accept =>
    if m.flag then
      match m.board.acknowledge with
      | some (board, v) =>
        .ok ({ m with board := board, flag := false, handling := some (v, false) }, some v)
      | none => .ok (m, none)
    else .ok (m, none)
  | .eoi =>
    match m.handling with
    | some (v, _) =>
      .ok ({ m with
        board := picSendEoiVector m.vars m.board v
        handling := some (v, true) }, none)
    | none => .error ()
  | .iret =>
    match m.handling with
    | some _ => .ok ({ m with flag := true, handling := none }, none)
    | none => .error ()

/-- After `setup_pic`, whatever the chips were before. -/
def boot (b : Board) : Machine := ⟨(setupPic b).1, (setupPic b).2, false, none⟩

/-- No device is on the line between the chips. A handler leaves interrupts off and does not return
before it has ended its interrupt. -/
def Allowed (m : Machine) : Action → Prop
  | .raise n => n.val ≠ cascadeLine
  | .irqEnable => m.handling = none
  | .eoi => m.handling ≠ none
  | .iret => m.handling.map Prod.snd = some true
  | _ => True

instance (m : Machine) : ∀ i, Decidable (Allowed m i)
  | .raise n => inferInstanceAs (Decidable (n.val ≠ cascadeLine))
  | .irqEnable => inferInstanceAs (Decidable (m.handling = none))
  | .eoi => inferInstanceAs (Decidable (m.handling ≠ none))
  | .iret => inferInstanceAs (Decidable (m.handling.map Prod.snd = some true))
  | .irqDisable => isTrue trivial
  | .unmask _ => isTrue trivial
  | .accept => isTrue trivial

/-! ## The lines -/

/-- What the controllers are for: pending lines, of which the processor takes one at a time. -/
structure Lines where
  pending : Finset (Fin 16)
  unmasked : Finset (Fin 16)
  flag : Bool
  busy : Option (Fin 16 × Bool)
  deriving DecidableEq

/-- The lines by priority. -/
def served : List (Fin 16) := [0, 1, 8, 9, 10, 11, 12, 13, 14, 15, 3, 4, 5, 6, 7]

def Lines.next (a : Lines) : Option (Fin 16) :=
  served.find? fun n => n ∈ a.pending ∧ n ∈ a.unmasked

/-- The vector of a line. -/
def vectorOf (n : Fin 16) : Byte := 0x20 + BitVec.ofNat 8 n

/-- The line of a vector, if it has one. -/
def linesOf (v : Byte) : Finset (Fin 16) := Finset.univ.filter fun n => vectorOf n = v

/-- Only the processor takes a line from the pending ones, and nothing else is ever taken. -/
def astep (a : Lines) : Action → Lines × Option Byte
  | .raise n => ({ a with pending := insert n a.pending }, none)
  | .irqEnable => ({ a with flag := true }, none)
  | .irqDisable => ({ a with flag := false }, none)
  | .unmask v => ({ a with unmasked := a.unmasked ∪ linesOf v }, none)
  | .accept =>
    if a.flag then
      match a.next with
      | some n =>
        ({ a with pending := a.pending.erase n, flag := false, busy := some (n, false) },
          some (vectorOf n))
      | none => (a, none)
    else (a, none)
  | .eoi => ({ a with busy := a.busy.map fun p => (p.1, true) }, none)
  | .iret => ({ a with flag := true, busy := none }, none)

/-- Nothing pending, and no line let through. The line between the chips is, but it is never
pending. -/
def Lines.init : Lines := ⟨∅, {2}, false, none⟩

/-! ## Agreement -/

/-- A chip past its initialisation. -/
structure Chip.Operates (c : Chip) (base cascade : Byte) : Prop where
  awaits : c.awaits = .ready
  base : c.base = base
  cascade : c.cascade = cascade
  icw4 : c.icw4 = icw48086

/-- A line in one of the registers. -/
def Board.line (b : Board) (reg : Chip → Byte) (n : Fin 16) : Bool :=
  if n.val < 8 then (reg b.master).getLsbD n else (reg b.slave).getLsbD (n.val - 8)

/-- The registers for what is in service, for the line of a handler that has not ended it. -/
def inService : Option (Fin 16 × Bool) → Byte × Byte
  | some (n, false) => if n.val < 8 then (bit n, 0) else (bit cascadeLine, bit (n.val - 8))
  | _ => (0, 0)

structure Agrees (m : Machine) (a : Lines) : Prop where
  master : m.board.master.Operates 0x20 4
  slave : m.board.slave.Operates 0x28 2
  vars : m.vars = ⟨0x20, 0x28⟩
  pending : ∀ n, n ∈ a.pending ↔ m.board.line Chip.irr n = true
  unmasked : ∀ n, n ∈ a.unmasked ↔ m.board.line Chip.imr n = false
  /-- The line between the chips is let through, and only the second chip asks for it. -/
  cascade : 2 ∈ a.unmasked ∧ 2 ∉ a.pending
  flag : m.flag = a.flag
  handling : m.handling = a.busy.map fun p => (vectorOf p.1, p.2)
  /-- No interrupt is taken in a handler. -/
  off : a.busy ≠ none → a.flag = false
  isr : (m.board.master.isr, m.board.slave.isr) = inService a.busy

theorem getLsbD_bit {i : Nat} (hi : i < 8) (j : Nat) : (bit i).getLsbD j = decide (i = j) := by
  unfold bit
  rw [Bool.eq_iff_iff]
  simp only [BitVec.getLsbD_shiftLeft, BitVec.getLsbD_one, Bool.and_eq_true, Bool.not_eq_true',
    decide_eq_true_eq, decide_eq_false_iff_not]
  omega

theorem getLsbD_clear (reg : Byte) {i : Nat} (hi : i < 8) (j : Nat) :
    (reg &&& ~~~bit i).getLsbD j = (reg.getLsbD j && decide (i ≠ j)) := by
  rw [BitVec.getLsbD_and, BitVec.getLsbD_not, getLsbD_bit hi]
  by_cases hj : j < 8
  · simp [hj]
  · simp [BitVec.getLsbD_of_ge reg j (by omega)]

theorem first_bit : ∀ i < 8, first (bit i) = some i := by decide

theorem and_bit_of_ne : ∀ i < 8, i ≠ 2 → (4 : Byte) &&& bit i = 0 := by decide

@[simp] theorem first_zero : first 0 = none := by decide

/-- With one line in service, or none, the end of an interrupt leaves none. -/
theorem command_eoi (c : Chip) (hisr : c.isr = 0 ∨ ∃ i < 8, c.isr = bit i) :
    c.command picEoi = { c with isr := 0 } := by
  have hend : c.command picEoi = c.endFirst := rfl
  rw [hend, Chip.endFirst]
  rcases hisr with hzero | ⟨i, hi, hbit⟩
  · rw [hzero, first_zero, ← hzero]
  · rw [hbit, first_bit i hi]
    have hclear : bit i &&& ~~~bit i = 0 := BitVec.and_not_self _
    simp only [hclear]

theorem Chip.Operates.data {c : Chip} {base cascade : Byte} (h : c.Operates base cascade)
    (value : Byte) : c.data value = { c with imr := value } := by
  rw [Chip.data, h.awaits]

theorem find_lines (p : Fin 16 → Bool) (reg : Byte) (line : Nat → Fin 16) (l : List Nat)
    (h : ∀ i ∈ l, p (line i) = reg.getLsbD i) :
    (l.map line).find? p = (l.find? fun i => reg.getLsbD i).map line := by
  rw [List.find?_map]
  congr 1
  exact List.find?_congr h

/-- Line 2 of the first chip stands for all of the second one. -/
theorem find_served (p : Fin 16 → Bool) (x y : Byte)
    (hmaster : ∀ n : Fin 16, n.val < 8 → n ≠ 2 → p n = x.getLsbD n)
    (hslave : ∀ n : Fin 16, 8 ≤ n.val → p n = y.getLsbD (n.val - 8))
    (hline : x.getLsbD 2 = (first y).isSome) :
    served.find? p = (first x).bind fun i =>
      if i = 2 then (first y).map fun j => Fin.ofNat 16 (8 + j) else some (Fin.ofNat 16 i) := by
  have hlines (l : List Nat) (hl : ∀ i ∈ l, i < 8 ∧ i ≠ 2) : (l.map (Fin.ofNat 16)).find? p =
      (l.find? fun i => x.getLsbD i).bind fun i =>
        if i = 2 then (first y).map fun j => Fin.ofNat 16 (8 + j) else some (Fin.ofNat 16 i) := by
    rw [find_lines p x (Fin.ofNat 16) l fun i hi => ?_]
    · cases hfind : l.find? fun i => x.getLsbD i with
      | none => rfl
      | some i => exact (if_neg (hl i (List.mem_of_find?_eq_some hfind)).2).symm
    · obtain ⟨hi8, hi2⟩ := hl i hi
      have hval : (Fin.ofNat 16 i).val = i := Nat.mod_eq_of_lt (by omega)
      rw [hmaster _ (by omega) fun h => hi2 (hval.symm.trans (congrArg Fin.val h)), hval]
  have hsecond : ((List.range 8).map fun j => Fin.ofNat 16 (8 + j)).find? p =
      (first y).map fun j => Fin.ofNat 16 (8 + j) := by
    refine find_lines p y (fun j => Fin.ofNat 16 (8 + j)) (List.range 8) fun j hj => ?_
    have hj8 := List.mem_range.1 hj
    have hval : (Fin.ofNat 16 (8 + j)).val = 8 + j := Nat.mod_eq_of_lt (by omega)
    rw [hslave _ (by omega), hval, Nat.add_sub_cancel_left]
  have hparts : served = [0, 1].map (Fin.ofNat 16) ++ (((List.range 8).map fun j =>
      Fin.ofNat 16 (8 + j)) ++ [3, 4, 5, 6, 7].map (Fin.ofNat 16)) := rfl
  have hrange : first x = (([0, 1].find? fun i => x.getLsbD i).or
      (([2].find? fun i => x.getLsbD i).or ([3, 4, 5, 6, 7].find? fun i => x.getLsbD i))) := by
    rw [← List.find?_append, ← List.find?_append]
    rfl
  rw [hparts, List.find?_append, List.find?_append, hsecond, hlines [0, 1] (by decide),
    hlines [3, 4, 5, 6, 7] (by decide), hrange]
  cases hfind : [0, 1].find? fun i => x.getLsbD i with
  | some i =>
    have hi : i ≠ 2 := fun h => by
      have hmem := List.mem_of_find?_eq_some hfind
      rw [h] at hmem
      exact absurd hmem (by decide)
    simp [hi]
  | none =>
    rw [List.find?_singleton, hline]
    cases first y with
    | none => simp
    | some j => simp

theorem vectorToIrq_vectorOf (n : Fin 16) : vectorToIrq ⟨0x20, 0x28⟩ (vectorOf n) = some n.val := by
  revert n
  decide

theorem vectorToIrq_eq_some {v : Byte} {i : Nat} (h : vectorToIrq ⟨0x20, 0x28⟩ v = some i) :
    ∃ n : Fin 16, n.val = i ∧ vectorOf n = v := by
  have hv : v.toNat = 0x20 + i ∧ i < 16 := by
    have hmaster : (0x20 : Byte).toNat = 0x20 := rfl
    have hslave : (0x28 : Byte).toNat = 0x28 := rfl
    unfold vectorToIrq at h
    simp only [hmaster, hslave] at h
    split_ifs at h <;> have := Option.some.inj h <;> omega
  refine ⟨⟨i, hv.2⟩, rfl, BitVec.eq_of_toNat_eq ?_⟩
  calc (vectorOf ⟨i, hv.2⟩).toNat = (0x20 + i % 2 ^ 8) % 2 ^ 8 := rfl
    _ = v.toNat := by omega

theorem vectorOf_injective : Function.Injective vectorOf := by
  intro n n' h
  have hirq := vectorToIrq_vectorOf n
  rw [h, vectorToIrq_vectorOf] at hirq
  exact Fin.ext (Option.some.inj hirq).symm

theorem mem_linesOf {n k : Fin 16} : k ∈ linesOf (vectorOf n) ↔ k = n := by
  rw [linesOf, Finset.mem_filter, vectorOf_injective.eq_iff]
  exact and_iff_right (Finset.mem_univ k)

/-! ## One action -/

section Step

variable {m : Machine} {a : Lines}

theorem Agrees.raise (h : Agrees m a) {n : Fin 16} (hn : n.val ≠ cascadeLine) :
    Agrees { m with board := m.board.raise n } { a with pending := insert n a.pending } := by
  have hraised : ∀ k, (m.board.raise n).line Chip.irr k =
      (m.board.line Chip.irr k || decide (n = k)) := by
    intro k
    unfold Board.raise
    by_cases hn8 : n.val < 8 <;> by_cases hk8 : k.val < 8
    · simp only [Board.line, if_pos hn8, if_pos hk8, BitVec.getLsbD_or, getLsbD_bit hn8,
        Fin.ext_iff]
    · have hne : n ≠ k := fun heq => hk8 (heq ▸ hn8)
      simp [Board.line, hn8, hk8, hne]
    · have hne : n ≠ k := fun heq => hn8 (heq ▸ hk8)
      simp [Board.line, hn8, hk8, hne]
    · have hn16 := n.isLt
      have hsub : n.val - 8 < 8 := by omega
      have heq : n.val - 8 = k.val - 8 ↔ n = k := by
        rw [Fin.ext_iff]
        omega
      simp only [Board.line, if_neg hn8, if_neg hk8, BitVec.getLsbD_or, getLsbD_bit hsub, heq]
  have hpending : ∀ k, k ∈ insert n a.pending ↔ (m.board.raise n).line Chip.irr k = true := by
    intro k
    rw [hraised, Finset.mem_insert, h.pending, Bool.or_eq_true, decide_eq_true_eq, or_comm,
      @eq_comm _ n k]
  have hcascade : 2 ∉ insert n a.pending := by
    rw [Finset.mem_insert, not_or]
    exact ⟨fun heq => hn (congrArg Fin.val heq).symm, h.cascade.2⟩
  by_cases hn8 : n.val < 8
  · have hboard : m.board.raise n =
        { m.board with master := { m.board.master with irr := m.board.master.irr ||| bit n } } :=
      if_pos hn8
    rw [hboard] at hpending ⊢
    exact { h with
      master := { h.master with }
      pending := hpending
      cascade := ⟨h.cascade.1, hcascade⟩ }
  · have hboard : m.board.raise n =
        { m.board with
          slave := { m.board.slave with irr := m.board.slave.irr ||| bit (n.val - 8) } } :=
      if_neg hn8
    rw [hboard] at hpending ⊢
    exact { h with
      slave := { h.slave with }
      pending := hpending
      cascade := ⟨h.cascade.1, hcascade⟩ }

theorem line_picUnmaskIrq (h : Agrees m a) (n k : Fin 16) :
    (picUnmaskIrq m.board n).line Chip.imr k = (m.board.line Chip.imr k && decide (n ≠ k)) := by
  have hn16 := n.isLt
  unfold picUnmaskIrq Board.line
  by_cases hn8 : n.val < 8 <;> by_cases hk8 : k.val < 8
  · simp only [if_pos hn8, if_pos hk8, outb, inb, h.master.data, getLsbD_clear _ hn8, ne_eq,
      Fin.ext_iff]
  · have hne : n ≠ k := fun heq => hk8 (heq ▸ hn8)
    simp [if_pos hn8, if_neg hk8, outb, hne]
  · have hne : n ≠ k := fun heq => hn8 (heq ▸ hk8)
    simp [if_neg hn8, if_pos hk8, outb, hne]
  · have hsub : n.val - 8 < 8 := by omega
    have heq : n.val - 8 = k.val - 8 ↔ n = k := by
      rw [Fin.ext_iff]
      omega
    simp only [if_neg hn8, if_neg hk8, outb, inb, h.slave.data, getLsbD_clear _ hsub, ne_eq, heq]

theorem Agrees.unmask (h : Agrees m a) (v : Byte) :
    Agrees { m with board := picUnmaskVector m.vars m.board v }
      { a with unmasked := a.unmasked ∪ linesOf v } := by
  unfold picUnmaskVector
  rw [h.vars]
  cases hirq : vectorToIrq ⟨0x20, 0x28⟩ v with
  | none =>
    have hnone : linesOf v = ∅ := by
      refine Finset.filter_eq_empty_iff.2 fun n _ hn => ?_
      rw [← hn, vectorToIrq_vectorOf] at hirq
      cases hirq
    rw [hnone, Finset.union_empty]
    exact { h with vars := rfl }
  | some i =>
    obtain ⟨n, rfl, rfl⟩ := vectorToIrq_eq_some hirq
    have hunmasked : ∀ k, k ∈ a.unmasked ∪ linesOf (vectorOf n) ↔
        (picUnmaskIrq m.board n).line Chip.imr k = false := by
      intro k
      rw [line_picUnmaskIrq h, Finset.mem_union, h.unmasked, mem_linesOf, Bool.and_eq_false_iff,
        decide_eq_false_iff_not, not_not, @eq_comm _ n k]
    have hopen : 2 ∈ a.unmasked ∪ linesOf (vectorOf n) := Finset.mem_union_left _ h.cascade.1
    unfold picUnmaskIrq at hunmasked ⊢
    by_cases hn8 : n.val < 8
    · simp only [if_pos hn8, outb, inb, h.master.data] at hunmasked ⊢
      exact { h with
        master := { h.master with }
        vars := rfl
        unmasked := hunmasked
        cascade := ⟨hopen, h.cascade.2⟩ }
    · simp only [if_neg hn8, outb, inb, h.slave.data] at hunmasked ⊢
      exact { h with
        slave := { h.slave with }
        vars := rfl
        unmasked := hunmasked
        cascade := ⟨hopen, h.cascade.2⟩ }

/-- There is one line in service in a chip at most, and none in the second chip for a line of the
first. -/
theorem inService_one (n : Fin 16) (ended : Bool) :
    ((inService (some (n, ended))).1 = 0 ∨ ∃ i < 8, (inService (some (n, ended))).1 = bit i) ∧
      ((inService (some (n, ended))).2 = 0 ∨ ∃ i < 8, (inService (some (n, ended))).2 = bit i) ∧
      (n.val < 8 → (inService (some (n, ended))).2 = 0) := by
  have hn16 := n.isLt
  cases ended with
  | true => exact ⟨.inl rfl, .inl rfl, fun _ => rfl⟩
  | false =>
    by_cases hn8 : n.val < 8
    · have hregs : inService (some (n, false)) = (bit n, 0) := if_pos hn8
      rw [hregs]
      exact ⟨.inr ⟨n, hn8, rfl⟩, .inl rfl, fun _ => rfl⟩
    · have hregs : inService (some (n, false)) = (bit cascadeLine, bit (n.val - 8)) := if_neg hn8
      rw [hregs]
      exact ⟨.inr ⟨cascadeLine, by decide, rfl⟩, .inr ⟨n - 8, by omega, rfl⟩, fun h => absurd h hn8⟩

theorem Agrees.eoi (h : Agrees m a) {n : Fin 16} {ended : Bool} (hbusy : a.busy = some (n, ended)) :
    Agrees { m with
        board := picSendEoiVector m.vars m.board (vectorOf n)
        handling := some (vectorOf n, true) }
      { a with busy := some (n, true) } := by
  have hn16 := n.isLt
  have hvector : (vectorOf n).toNat = 0x20 + n.val := by
    calc (vectorOf n).toNat = (0x20 + n.val % 2 ^ 8) % 2 ^ 8 := rfl
      _ = 0x20 + n.val := by omega
  have hbase : (0x28 : Byte).toNat = 0x28 := rfl
  obtain ⟨hmaster, hslave⟩ := Prod.mk.inj (h.isr.trans (congrArg inService hbusy))
  obtain ⟨hone, hother, hnone⟩ := inService_one n ended
  have hmasterEnd : m.board.master.command picEoi = { m.board.master with isr := 0 } :=
    command_eoi _ (hmaster ▸ hone)
  have hslaveEnd : m.board.slave.command picEoi = { m.board.slave with isr := 0 } :=
    command_eoi _ (hslave ▸ hother)
  unfold picSendEoiVector
  rw [h.vars]
  simp only [hvector, hbase, outb]
  by_cases hn8 : n.val < 8
  · have hbelow : ¬(0x28 ≤ 0x20 + n.val ∧ 0x20 + n.val < 0x28 + 8) := by omega
    simp only [if_neg hbelow, hmasterEnd]
    exact { h with
      master := { h.master with }
      vars := rfl
      handling := rfl
      off := fun _ => h.off (by rw [hbusy]; exact Option.some_ne_none _)
      isr := congrArg (Prod.mk 0) (hslave.trans (hnone hn8)) }
  · have habove : 0x28 ≤ 0x20 + n.val ∧ 0x20 + n.val < 0x28 + 8 := by omega
    simp only [if_pos habove, hmasterEnd, hslaveEnd]
    exact { h with
      master := { h.master with }
      slave := { h.slave with }
      vars := rfl
      handling := rfl
      off := fun _ => h.off (by rw [hbusy]; exact Option.some_ne_none _)
      isr := rfl }

theorem asking_of_idle {c : Chip} (hisr : c.isr = 0) (requests : Byte) :
    c.asking requests = first (requests &&& ~~~c.imr) := by
  unfold Chip.asking
  rw [hisr, first_zero]
  cases first (requests &&& ~~~c.imr) with
  | none => rfl
  | some i => rfl

theorem first_lt {reg : Byte} {i : Nat} (h : first reg = some i) : i < 8 :=
  List.mem_range.1 (List.mem_of_find?_eq_some h)

theorem asking_of_some {c : Chip} {requests : Byte} {i : Nat} (h : c.asking requests = some i) :
    i < 8 ∧ (requests &&& ~~~c.imr).getLsbD i = true := by
  have hfirst : first (requests &&& ~~~c.imr) = some i := by
    unfold Chip.asking at h
    cases hr : first (requests &&& ~~~c.imr) with
    | none => rw [hr] at h; cases h
    | some i' =>
      rw [hr] at h
      cases hs : first c.isr with
      | none => rw [hs] at h; exact h
      | some j =>
        rw [hs] at h
        simp only at h
        split_ifs at h
        exact h
  exact ⟨first_lt hfirst, List.find?_some hfirst⟩

theorem Agrees.irr_two (h : Agrees m a) : m.board.master.irr.getLsbD 2 = false := by
  have hnot := h.cascade.2
  rw [h.pending, Bool.not_eq_true] at hnot
  exact hnot

theorem Agrees.requests_two (h : Agrees m a) :
    m.board.requests.getLsbD 2 = (m.board.slave.asking m.board.slave.irr).isSome := by
  unfold Board.requests
  rw [BitVec.getLsbD_or, h.irr_two, Bool.false_or]
  cases (m.board.slave.asking m.board.slave.irr).isSome with
  | false => rfl
  | true => rfl

theorem Agrees.next_eq (h : Agrees m a) (hidle : a.busy = none) :
    a.next = (m.board.master.asking m.board.requests).bind fun i =>
      if i = 2 then (m.board.slave.asking m.board.slave.irr).map fun j => Fin.ofNat 16 (8 + j)
      else some (Fin.ofNat 16 i) := by
  obtain ⟨hmaster, hslave⟩ := Prod.mk.inj (h.isr.trans (congrArg inService hidle))
  rw [asking_of_idle hmaster, asking_of_idle hslave]
  have hline (n : Fin 16) : decide (n ∈ a.pending ∧ n ∈ a.unmasked) =
      (m.board.line Chip.irr n && !m.board.line Chip.imr n) := by
    rw [Bool.eq_iff_iff, decide_eq_true_eq, h.pending, h.unmasked, Bool.and_eq_true,
      Bool.not_eq_true']
  have hmask (requests imr : Byte) {i : Nat} (hi : i < 8) :
      (requests &&& ~~~imr).getLsbD i = (requests.getLsbD i && !imr.getLsbD i) := by
    rw [BitVec.getLsbD_and, BitVec.getLsbD_not, decide_eq_true hi, Bool.true_and]
  have hrequests {i : Nat} (hi : i < 8) (hi2 : i ≠ 2) :
      m.board.requests.getLsbD i = m.board.master.irr.getLsbD i := by
    unfold Board.requests
    rw [BitVec.getLsbD_or]
    split_ifs
    · have hne : cascadeLine ≠ i := Ne.symm hi2
      rw [getLsbD_bit (by decide), decide_eq_false hne, Bool.or_false]
    · have hzero : (0 : Byte).getLsbD i = false := BitVec.getLsbD_zero
      rw [hzero, Bool.or_false]
  refine find_served _ _ _ (fun n hn8 hn2 => ?_) (fun n hn8 => ?_) ?_
  · have hn : n.val ≠ 2 := fun heq => hn2 (Fin.ext heq)
    rw [hline, hmask _ _ hn8, hrequests hn8 hn]
    simp only [Board.line, if_pos hn8]
  · have hn16 := n.isLt
    rw [hline, hmask _ _ (by omega)]
    simp only [Board.line, if_neg (Nat.not_lt.2 hn8)]
  · have hopen : m.board.master.imr.getLsbD 2 = false := (h.unmasked 2).1 h.cascade.1
    rw [hmask _ _ (by decide), hopen, h.requests_two, Bool.not_false, Bool.and_true,
      asking_of_idle hslave]

theorem acknowledge_eq {c : Chip} {base cascade : Byte} (h : c.Operates base cascade)
    (hisr : c.isr = 0) (i : Nat) :
    c.acknowledge i = { c with irr := c.irr &&& ~~~bit i, isr := bit i } := by
  have hauto : ¬icw48086 &&& 0x02 ≠ 0 := by decide
  unfold Chip.acknowledge
  rw [h.icw4, if_neg hauto, hisr, ← h.icw4]
  congr 1
  exact BitVec.zero_or

theorem Agrees.take_master (h : Agrees m a) (hidle : a.busy = none) {n : Fin 16}
    (hn8 : n.val < 8) :
    Agrees { m with
        board := ⟨m.board.master.acknowledge n, m.board.slave⟩
        flag := false
        handling := some (vectorOf n, false) }
      { a with pending := a.pending.erase n, flag := false, busy := some (n, false) } := by
  obtain ⟨hmaster, hslave⟩ := Prod.mk.inj (h.isr.trans (congrArg inService hidle))
  rw [acknowledge_eq h.master hmaster]
  refine { h with
    master := { h.master with }
    pending := fun k => ?_
    cascade := ⟨h.cascade.1, fun hmem => h.cascade.2 (Finset.mem_of_mem_erase hmem)⟩
    flag := rfl
    handling := rfl
    off := fun _ => rfl
    isr := ?_ }
  · rw [Finset.mem_erase, h.pending]
    unfold Board.line
    by_cases hk8 : k.val < 8
    · simp only [if_pos hk8, getLsbD_clear _ hn8, Bool.and_eq_true, decide_eq_true_eq, ne_eq,
        Fin.ext_iff]
      exact and_comm.trans (and_congr_right fun _ => not_congr eq_comm)
    · have hne : k ≠ n := fun heq => hk8 (heq ▸ hn8)
      simp only [if_neg hk8]
      exact and_iff_right hne
  · have hregs : inService (some (n, false)) = (bit n, 0) := if_pos hn8
    rw [hregs]
    exact congrArg (Prod.mk _) hslave

theorem Agrees.take_slave (h : Agrees m a) (hidle : a.busy = none) {n : Fin 16}
    (hn8 : 8 ≤ n.val) :
    Agrees { m with
        board := ⟨m.board.master.acknowledge 2, m.board.slave.acknowledge (n.val - 8)⟩
        flag := false
        handling := some (vectorOf n, false) }
      { a with pending := a.pending.erase n, flag := false, busy := some (n, false) } := by
  obtain ⟨hmaster, hslave⟩ := Prod.mk.inj (h.isr.trans (congrArg inService hidle))
  rw [acknowledge_eq h.master hmaster, acknowledge_eq h.slave hslave]
  have hn16 := n.isLt
  refine { h with
    master := { h.master with }
    slave := { h.slave with }
    pending := fun k => ?_
    cascade := ⟨h.cascade.1, fun hmem => h.cascade.2 (Finset.mem_of_mem_erase hmem)⟩
    flag := rfl
    handling := rfl
    off := fun _ => rfl
    isr := (if_neg (Nat.not_lt.2 hn8)).symm }
  rw [Finset.mem_erase, h.pending]
  unfold Board.line
  by_cases hk8 : k.val < 8
  · have hne : k ≠ n := fun heq => by omega
    have hkept : (m.board.master.irr &&& ~~~bit 2).getLsbD k = m.board.master.irr.getLsbD k := by
      rw [getLsbD_clear _ (by decide)]
      by_cases hk2 : k = 2
      · have hval : (2 : Fin 16).val = 2 := rfl
        rw [hk2, hval, h.irr_two, Bool.false_and]
      · have hne2 : 2 ≠ k.val := fun heq => hk2 (Fin.ext heq.symm)
        rw [decide_eq_true hne2, Bool.and_true]
    simp only [if_pos hk8, hkept]
    exact and_iff_right hne
  · have hsub : n.val - 8 < 8 := by omega
    have heq : n.val - 8 = k.val - 8 ↔ k = n := by
      rw [Fin.ext_iff]
      omega
    simp only [if_neg hk8, getLsbD_clear _ hsub, Bool.and_eq_true, decide_eq_true_eq, ne_eq, heq]
    exact and_comm

theorem Agrees.acknowledge (h : Agrees m a) (hidle : a.busy = none) :
    match a.next with
    | some n => ∃ board, m.board.acknowledge = some (board, vectorOf n) ∧
        Agrees { m with board := board, flag := false, handling := some (vectorOf n, false) }
          { a with pending := a.pending.erase n, flag := false, busy := some (n, false) }
    | none => m.board.acknowledge = none := by
  obtain ⟨hmasterIsr, hslaveIsr⟩ := Prod.mk.inj (h.isr.trans (congrArg inService hidle))
  rw [h.next_eq hidle]
  unfold Board.acknowledge
  cases hmaster : m.board.master.asking m.board.requests with
  | none => rfl
  | some i =>
    obtain ⟨hi8, hbit⟩ := asking_of_some hmaster
    rw [Option.bind_some, h.master.cascade, h.slave.cascade, h.master.base, h.slave.base]
    by_cases hi2 : i = 2
    · subst hi2
      have hslaveAsks : (m.board.slave.asking m.board.slave.irr).isSome = true := by
        rw [← h.requests_two]
        rw [BitVec.getLsbD_and, Bool.and_eq_true] at hbit
        exact hbit.1
      obtain ⟨j, hslave⟩ := Option.isSome_iff_exists.1 hslaveAsks
      obtain ⟨hj8, -⟩ := asking_of_some hslave
      have hval : (Fin.ofNat 16 (8 + j)).val = 8 + j := Nat.mod_eq_of_lt (by omega)
      have hcascade : (4 : Byte) &&& bit 2 ≠ 0 := by decide
      have hid : ¬(2 : Byte) &&& 7 ≠ BitVec.ofNat 8 2 := by decide
      have hvector : (0x28 : Byte) + BitVec.ofNat 8 j = vectorOf (Fin.ofNat 16 (8 + j)) := by
        rw [vectorOf, hval, BitVec.ofNat_add, ← BitVec.add_assoc]
        rfl
      have htaken := h.take_slave hidle (n := Fin.ofNat 16 (8 + j)) (by omega)
      rw [hval, Nat.add_sub_cancel_left] at htaken
      simp only [hslave, if_pos hcascade, if_neg hid, hvector, if_true, Option.map_some]
      exact ⟨_, rfl, htaken⟩
    · have hval : (Fin.ofNat 16 i).val = i := Nat.mod_eq_of_lt (by omega)
      have hcascade : ¬(4 : Byte) &&& bit i ≠ 0 := not_not.2 (and_bit_of_ne i hi8 hi2)
      have hvector : (0x20 : Byte) + BitVec.ofNat 8 i = vectorOf (Fin.ofNat 16 i) := by
        rw [vectorOf, hval]
      have htaken := h.take_master hidle (n := Fin.ofNat 16 i) (by omega)
      rw [hval] at htaken
      simp only [if_neg hcascade, hvector, if_neg hi2]
      exact ⟨_, rfl, htaken⟩

/-- What a machine does that agrees with the lines. -/
theorem step_simulates (m : Machine) (a : Lines) (i : Action) (h : Agrees m a) (hi : Allowed m i) :
    ∃ m', step m i = .ok (m', (astep a i).2) ∧ Agrees m' (astep a i).1 := by
  cases i with
  | raise n => exact ⟨_, rfl, h.raise hi⟩
  | irqEnable =>
    have hidle : a.busy = none := by
      have hhandling := h.handling
      rw [show m.handling = none from hi] at hhandling
      exact Option.map_eq_none_iff.1 hhandling.symm
    exact ⟨_, rfl, { h with flag := rfl, off := fun hbusy => absurd hidle hbusy }⟩
  | irqDisable => exact ⟨_, rfl, { h with flag := rfl, off := fun _ => rfl }⟩
  | unmask v => exact ⟨_, rfl, h.unmask v⟩
  | accept =>
    unfold step astep
    rw [h.flag]
    cases hflag : a.flag with
    | false => exact ⟨m, rfl, h⟩
    | true =>
      have hidle : a.busy = none := by
        by_contra hbusy
        rw [h.off hbusy] at hflag
        cases hflag
      have hack := h.acknowledge hidle
      cases hnext : a.next with
      | none =>
        rw [hnext] at hack
        simp only [hack, if_true]
        exact ⟨m, rfl, h⟩
      | some n =>
        rw [hnext] at hack
        obtain ⟨board, hboard, hagrees⟩ := hack
        simp only [hboard, if_true]
        exact ⟨_, rfl, hagrees⟩
  | eoi =>
    cases hbusy : a.busy with
    | none => exact absurd (h.handling.trans (by rw [hbusy]; rfl)) hi
    | some p =>
      have hhandling : m.handling = some (vectorOf p.1, p.2) := by
        rw [h.handling, hbusy]
        rfl
      unfold step astep
      rw [hhandling, hbusy]
      exact ⟨_, rfl, h.eoi hbusy⟩
  | iret =>
    have hended : m.handling.map Prod.snd = some true := hi
    rw [h.handling, Option.map_map] at hended
    cases hbusy : a.busy with
    | none =>
      rw [hbusy] at hended
      cases hended
    | some p =>
      rw [hbusy] at hended
      have hhandling : m.handling = some (vectorOf p.1, p.2) := by
        rw [h.handling, hbusy]
        rfl
      have hdone : p = (p.1, true) := Prod.ext rfl (Option.some.inj hended)
      have hisr := h.isr.trans (congrArg inService (hbusy.trans (congrArg some hdone)))
      unfold step astep
      rw [hhandling]
      exact ⟨_, rfl, { h with flag := rfl, handling := rfl, off := nofun, isr := hisr }⟩

end Step

theorem initialised (c : Chip) (offset id mask : Byte) :
    (((((c.command icw1InitIcw4).data offset).data id).data icw48086).data 0).data mask =
      ⟨.ready, icw1InitIcw4, offset &&& 0xF8, id, icw48086, 0, 0, mask, false⟩ := by
  have hcommand : c.command icw1InitIcw4 =
      ⟨.icw2, icw1InitIcw4, c.base, c.cascade, 0, 0, 0, 0, false⟩ := if_pos (by decide)
  have hsingle : ¬icw1InitIcw4 &&& 0x02 ≠ 0 := by decide
  have hicw4 : icw1InitIcw4 &&& 0x01 ≠ 0 := by decide
  simp only [hcommand, Chip.data, Chip.afterIcw3, if_neg hsingle, if_pos hicw4]

/-- After `setup_pic` nothing is pending and nothing let through. -/
theorem agrees_boot (b : Board) : Agrees (boot b) Lines.init := by
  have hboard : (setupPic b).1 =
      ⟨⟨.ready, icw1InitIcw4, 0x20, 4, icw48086, 0, 0, 0xFB, false⟩,
        ⟨.ready, icw1InitIcw4, 0x28, 2, icw48086, 0, 0, 0xFF, false⟩⟩ :=
    congrArg₂ Board.mk (initialised b.master picIrqOffset 4 0xFB)
      (initialised b.slave (picIrqOffset + 8) 2 0xFF)
  have hvars : (setupPic b).2 = ⟨0x20, 0x28⟩ := rfl
  unfold boot
  rw [hboard, hvars]
  exact {
    master := ⟨rfl, rfl, rfl, rfl⟩
    slave := ⟨rfl, rfl, rfl, rfl⟩
    vars := rfl
    pending := by decide
    unmasked := by decide
    cascade := by decide
    flag := rfl
    handling := rfl
    off := fun h => absurd rfl h
    isr := rfl }

/-- Whatever the chips were before `setup_pic`, and in whatever order devices raise lines, the
driver lets lines through and the processor takes interrupts, no interrupt is lost, none comes
twice, and the one that comes is the first one pending that is let through. -/
theorem pic_refines (b : Board) (is : List Action) (h : Meets step Allowed (boot b) is) :
    ∃ m, run step (boot b) is = .ok (m, (fold astep Lines.init is).2) ∧
      Agrees m (fold astep Lines.init is).1 :=
  run_simulates step_simulates is (boot b) Lines.init (agrees_boot b) h

theorem getLsbD_registers (b : Board) (reg : Chip → Byte) (n : Fin 16) :
    ((reg b.slave).setWidth 16 <<< 8 ||| (reg b.master).setWidth 16).getLsbD n = b.line reg n := by
  have hn16 := n.isLt
  unfold Board.line
  rw [BitVec.getLsbD_or, BitVec.getLsbD_shiftLeft, BitVec.getLsbD_setWidth, BitVec.getLsbD_setWidth]
  by_cases hn8 : n.val < 8
  · simp [hn8]
  · have hhigh : (reg b.master).getLsbD n = false := BitVec.getLsbD_of_ge _ _ (by omega)
    have hlow : n.val - 8 < 16 := by omega
    simp [hn8, hhigh, hlow]

theorem Agrees.picGetIrr {m : Machine} {a : Lines} (h : Agrees m a) (n : Fin 16) :
    (picGetIrr m.board).2.getLsbD n = decide (n ∈ a.pending) := by
  have hread : (Pic.picGetIrr m.board).2 =
      m.board.slave.irr.setWidth 16 <<< 8 ||| m.board.master.irr.setWidth 16 := rfl
  rw [hread, getLsbD_registers m.board Chip.irr, Bool.eq_iff_iff, decide_eq_true_eq, h.pending]

theorem Agrees.picGetIsr {m : Machine} {a : Lines} (h : Agrees m a) :
    (picGetIsr m.board).2 =
      (inService a.busy).2.setWidth 16 <<< 8 ||| (inService a.busy).1.setWidth 16 := by
  rw [← h.isr]
  rfl

/-- The keyboard and a disk: the disk's interrupt waits until the handler of the other returns,
which has ended its own twice. -/
def keyboardAndDisk : List Action :=
  [.unmask 0x21, .unmask 0x2E, .raise 14, .irqEnable, .raise 1, .accept, .eoi, .accept, .eoi, .iret,
    .accept, .eoi, .iret, .accept]

theorem pic_refines_keyboardAndDisk :
    ∃ m, run step (boot ⟨⟨.ready, 0, 0, 0, 0, 0, 0, 0, false⟩, ⟨.icw3, 0, 8, 0, 0, 1, 1, 0, true⟩⟩)
        keyboardAndDisk = .ok (m, (fold astep Lines.init keyboardAndDisk).2) ∧
      Agrees m (fold astep Lines.init keyboardAndDisk).1 :=
  pic_refines _ keyboardAndDisk (by decide)

example : (fold astep Lines.init keyboardAndDisk).2.filterMap id = [0x21, 0x2E] := by decide

end X86Kernel.Pic
