import Mathlib.Logic.Function.Basic
import X86Kernel.Firmware.Pci
import X86Kernel.Lib.Run

/- Reads and writes of the PCI configuration space (`arch/i386/firmware/pci/pci_ops.c`), and the
   command that enables DMA in `init_ide`.

   The address goes to one port, and the register of 32 bits is read and written through another
   one. A byte or a word is written by reading the register and writing it back as a whole. The
   abstract level has an array of bits for each function, and a write touches the bits of its byte
   or word only. Bits of a register can be read-only, and there are bits that a one clears, as the
   status register has behind the command register: those are lost when they are written back.

   What is proved: in any sequence of reads and writes where no such bit is set next to what is
   written, the ports give what the arrays of bits give (`run_refines`); a write leaves everything
   else as it is exactly if there is none (`write_frame_iff`). `init_ide` enables DMA by writing
   the command register back with the status register, whose errors are cleared by this
   (`enableDma_bits`).

   Correspondence (C ↔ Lean):
     `outl`, `inl` at `PCI_CONFIG_ADDR` and `PCI_CONFIG_DATA` ↔ `Ports`
     `pci_write_address` ↔ `pciWriteAddress`
     `pci_config_read_byte`, `pci_config_read_word`, `pci_config_read_dword`
                         ↔ `Ports.step`, with the value that they return
     `pci_config_write_byte`, `pci_config_write_word`, `pci_config_write_dword`
                         ↔ `pciConfigWriteByte`, `pciConfigWriteWord`, `pciConfigWriteDword`
     `init_ide`, up to `init_ide_channels` ↔ `enableDma` -/
namespace X86Kernel.Pci
open X86Kernel.Lib

/-- The bits of a register that take what is written, and those that a one clears. -/
structure Kind where
  stored : UInt32
  clearable : UInt32
  disjoint : stored &&& clearable = 0

/-- What a register has after a write. -/
def Kind.settle (kind : Kind) (old data : UInt32) : UInt32 :=
  (old &&& ~~~(kind.stored ||| (kind.clearable &&& data))) ||| (data &&& kind.stored)

/-- The address that was written last, and the registers. -/
structure Ports where
  address : UInt32
  config : ConfigSpace

def pciWriteAddress (s : Ports) (bus slot func offset : UInt8) : Ports :=
  { s with address := pciAddress bus slot func offset }

def Ports.inData (s : Ports) : UInt32 := s.config s.address

def Ports.outData (kinds : UInt32 → Kind) (s : Ports) (data : UInt32) : Ports :=
  let old := s.config s.address
  { s with config := Function.update s.config s.address ((kinds s.address).settle old data) }

section Writes

variable (kinds : UInt32 → Kind) (s : Ports) (bus slot func offset : UInt8)

def pciConfigWriteByte (data : UInt8) : Ports :=
  let s := pciWriteAddress s bus slot func offset
  let val := s.inData
  let shift := ((offset &&& 3) * 8).toUInt32
  let val := val &&& ~~~((0xFF : UInt32) <<< shift)
  let val := val ||| data.toUInt32 <<< shift
  s.outData kinds val

def pciConfigWriteWord (data : UInt16) : Ports :=
  let s := pciWriteAddress s bus slot func offset
  let val := s.inData
  let shift := ((offset &&& 2) * 8).toUInt32
  let val := val &&& ~~~((0xFFFF : UInt32) <<< shift)
  let val := val ||| data.toUInt32 <<< shift
  s.outData kinds val

def pciConfigWriteDword (data : UInt32) : Ports :=
  let s := pciWriteAddress s bus slot func offset
  s.outData kinds data

end Writes

/-- `PCI_CMD_DMA_BIT` -/
def pciCmdDmaBit : UInt32 := 4

/-- `PCI_CMD_OFF` -/
def pciCmdOff : UInt8 := 4

/-- The beginning of `init_ide`. -/
def enableDma (kinds : UInt32 → Kind) (s : Ports) (bus slot func : UInt8) : Ports :=
  let s := pciWriteAddress s bus slot func pciCmdOff
  let cmd := s.inData
  if cmd &&& pciCmdDmaBit = 0 then
    pciConfigWriteDword kinds s bus slot func pciCmdOff (cmd ||| pciCmdDmaBit)
  else s

/-! ## Arrays of bits -/

/-- A function of a device. -/
structure Fn where
  bus : UInt8
  slot : UInt8
  func : UInt8
  slot_lt : slot.toNat < 32
  func_lt : func.toNat < 8
  deriving DecidableEq

inductive Width where
  | byte | word | dword
  deriving DecidableEq

def Width.bytes : Width → Nat
  | .byte => 1
  | .word => 2
  | .dword => 4

inductive Access where
  | read (width : Width) (fn : Fn) (offset : UInt8)
  | write (width : Width) (fn : Fn) (offset : UInt8) (data : UInt32)

/-- An access by the ports; a write is given the lower bits of its data. -/
def Ports.step (kinds : UInt32 → Kind) (s : Ports) : Access → Ports × Option UInt32
  | .read width fn offset =>
    (pciWriteAddress s fn.bus fn.slot fn.func offset, some (match width with
      | .byte => (pciConfigReadByte s.config fn.bus fn.slot fn.func offset).toUInt32
      | .word => (pciConfigReadWord s.config fn.bus fn.slot fn.func offset).toUInt32
      | .dword => pciConfigReadDword s.config fn.bus fn.slot fn.func offset))
  | .write .byte fn offset data =>
    (pciConfigWriteByte kinds s fn.bus fn.slot fn.func offset data.toUInt8, none)
  | .write .word fn offset data =>
    (pciConfigWriteWord kinds s fn.bus fn.slot fn.func offset data.toUInt16, none)
  | .write .dword fn offset data =>
    (pciConfigWriteDword kinds s fn.bus fn.slot fn.func offset data, none)

/-- The bits of each function. -/
abbrev Bits := Fn → Fin 2048 → Bool

def Fn.register (fn : Fn) (k : Fin 2048) : UInt32 :=
  pciAddress fn.bus fn.slot fn.func (UInt8.ofNat (k.val / 32 * 4))

def bitsOf (cfg : ConfigSpace) : Bits := fun fn k =>
  (cfg (fn.register k)).toBitVec.getLsbD (k.val % 32)

/-- The first bit of a byte, a word or a dword. -/
def Width.first (width : Width) (offset : UInt8) : Nat :=
  offset.toNat / width.bytes * width.bytes * 8

/-- The bit is in the byte, the word or the dword at the offset. -/
def Width.Covers (width : Width) (offset : UInt8) (k : Fin 2048) : Prop :=
  width.first offset ≤ k.val ∧ k.val < width.first offset + width.bytes * 8

instance (width : Width) (offset : UInt8) (k : Fin 2048) : Decidable (width.Covers offset k) :=
  inferInstanceAs (Decidable (_ ∧ _))

def storedBits (kinds : UInt32 → Kind) : Bits := bitsOf fun address => (kinds address).stored

def clearableBits (kinds : UInt32 → Kind) : Bits := bitsOf fun address => (kinds address).clearable

/-- What a bit is after a write. -/
def settleBit (stored clearable old data : Bool) : Bool :=
  if stored then data else old && !(clearable && data)

/-- An access to the bits of its byte, word or dword and no others; a read gives bits. -/
def Bits.step (kinds : UInt32 → Kind) (b : Bits) : Access → Bits × Option (Nat → Bool)
  | .read width fn offset => (b, some fun i => if h : i < width.bytes * 8 ∧
      width.first offset + i < 2048 then b fn ⟨width.first offset + i, h.2⟩ else false)
  | .write width fn offset data => (fun fn' k =>
      if fn' = fn ∧ width.Covers offset k then
        settleBit (storedBits kinds fn k) (clearableBits kinds fn k) (b fn k)
          (data.toBitVec.getLsbD (k.val - width.first offset))
      else b fn' k, none)

/-- No bit next to the bits written that a one would clear is set. -/
def Quiet (kinds : UInt32 → Kind) (b : Bits) : Access → Prop
  | .read _ _ _ => True
  | .write width fn offset _ => ∀ k : Fin 2048, k.val / 32 = offset.toNat / 4 →
      ¬ width.Covers offset k → clearableBits kinds fn k = true → b fn k = false

/-! ## Addresses -/

theorem toNat_shiftLeft_field (a : UInt8) {shift : UInt32} {n : Nat} (hn : shift.toNat = n)
    (hle : n ≤ 24) : (a.toUInt32 <<< shift).toNat = 2 ^ n * a.toNat := by
  have hlt : 2 ^ n * a.toNat < 2 ^ 32 :=
    calc 2 ^ n * a.toNat
        < 2 ^ n * 2 ^ 8 := Nat.mul_lt_mul_of_pos_left a.toNat_lt (Nat.two_pow_pos n)
      _ ≤ 2 ^ 24 * 2 ^ 8 := Nat.mul_le_mul_right _ (Nat.pow_le_pow_right (by decide) hle)
      _ = 2 ^ 32 := rfl
  have hshift : n % 32 = n := Nat.mod_eq_of_lt (by omega)
  rw [UInt32.toNat_shiftLeft, UInt8.toNat_toUInt32, hn, hshift, Nat.shiftLeft_eq, Nat.mul_comm,
    Nat.mod_eq_of_lt hlt]

theorem pciAddress_toNat {bus slot func offset : UInt8} (hslot : slot.toNat < 32)
    (hfunc : func.toNat < 8) : (pciAddress bus slot func offset).toNat =
      2 ^ 31 + (bus.toNat * 2 ^ 16 + (slot.toNat * 2 ^ 11 + (func.toNat * 2 ^ 8 +
        offset.toNat / 4 * 4))) := by
  have hmask : ∀ n < 256, n &&& 252 = n / 4 * 4 := by decide +kernel
  have hbus := bus.toNat_lt
  have hoffset := offset.toNat_lt
  have hlow : (offset &&& 0xFC).toUInt32.toNat = offset.toNat / 4 * 4 := hmask _ hoffset
  have hone : ((1 : UInt32) <<< 31).toNat = 2 ^ 31 * 1 := rfl
  have hbus' := toNat_shiftLeft_field bus (show (16 : UInt32).toNat = 16 from rfl) (by decide)
  have hslot' := toNat_shiftLeft_field slot (show (11 : UInt32).toNat = 11 from rfl) (by decide)
  have hfunc' := toNat_shiftLeft_field func (show (8 : UInt32).toNat = 8 from rfl) (by decide)
  simp only [pciAddress, UInt32.toNat_or, hone, hbus', hslot', hfunc', hlow, Nat.or_assoc]
  -- the fields do not overlap
  rw [← Nat.two_pow_add_eq_or_of_lt (i := 8) (by omega),
    ← Nat.two_pow_add_eq_or_of_lt (i := 11) (by omega),
    ← Nat.two_pow_add_eq_or_of_lt (i := 16) (by omega),
    ← Nat.two_pow_add_eq_or_of_lt (i := 31) (by omega)]
  omega

theorem pciAddress_eq_iff (fn fn' : Fn) (offset offset' : UInt8) :
    pciAddress fn.bus fn.slot fn.func offset = pciAddress fn'.bus fn'.slot fn'.func offset' ↔
      fn = fn' ∧ offset.toNat / 4 = offset'.toNat / 4 := by
  have hnat := @pciAddress_toNat fn.bus fn.slot fn.func offset fn.slot_lt fn.func_lt
  have hnat' := @pciAddress_toNat fn'.bus fn'.slot fn'.func offset' fn'.slot_lt fn'.func_lt
  have hslot := fn.slot_lt
  have hfunc := fn.func_lt
  have hslot' := fn'.slot_lt
  have hfunc' := fn'.func_lt
  have hbus := fn.bus.toNat_lt
  have hbus' := fn'.bus.toNat_lt
  have hoffset := offset.toNat_lt
  have hoffset' := offset'.toNat_lt
  constructor
  · intro heq
    have heq := congrArg UInt32.toNat heq
    rw [hnat, hnat'] at heq
    obtain ⟨bus, slot, func, _, _⟩ := fn
    obtain ⟨bus', slot', func', _, _⟩ := fn'
    dsimp only at *
    refine ⟨?_, by omega⟩
    congr 1
    · exact UInt8.toNat_inj.1 (by omega)
    · exact UInt8.toNat_inj.1 (by omega)
    · exact UInt8.toNat_inj.1 (by omega)
  · rintro ⟨rfl, hsame⟩
    apply UInt32.toNat_inj.1
    rw [hnat, hnat', hsame]

/-! ## The bits of a register -/

theorem getLsbD_settle (kind : Kind) (old data : UInt32) {i : Nat} (hi : i < 32) :
    (kind.settle old data).toBitVec.getLsbD i =
      settleBit (kind.stored.toBitVec.getLsbD i) (kind.clearable.toBitVec.getLsbD i)
        (old.toBitVec.getLsbD i) (data.toBitVec.getLsbD i) := by
  simp only [Kind.settle, settleBit, UInt32.toBitVec_or, UInt32.toBitVec_and, UInt32.toBitVec_not,
    BitVec.getLsbD_or, BitVec.getLsbD_and, BitVec.getLsbD_not, hi, decide_true, Bool.true_and]
  cases kind.stored.toBitVec.getLsbD i <;> simp

theorem toBitVec_shiftLeft {shift : UInt32} {n : Nat} (hn : shift.toNat = n) (hlt : n < 32)
    (a : UInt32) : (a <<< shift).toBitVec = a.toBitVec <<< n := by
  rw [UInt32.toBitVec_shiftLeft, BitVec.shiftLeft_eq', BitVec.toNat_umod]
  show a.toBitVec <<< (shift.toNat % 32) = _
  rw [hn, Nat.mod_eq_of_lt hlt]

theorem toBitVec_shiftRight {shift : UInt32} {n : Nat} (hn : shift.toNat = n) (hlt : n < 32)
    (a : UInt32) : (a >>> shift).toBitVec = a.toBitVec >>> n := by
  rw [UInt32.toBitVec_shiftRight, BitVec.ushiftRight_eq', BitVec.toNat_umod]
  show a.toBitVec >>> (shift.toNat % 32) = _
  rw [hn, Nat.mod_eq_of_lt hlt]

theorem getLsbD_splice {val data mask shift : UInt32} {n w : Nat} (hn : shift.toNat = n)
    (hlt : n < 32) (hmask : ∀ i < 32, mask.toBitVec.getLsbD i = decide (i < w))
    (hdata : ∀ i, w ≤ i → data.toBitVec.getLsbD i = false) {i : Nat} (hi : i < 32) :
    (val &&& ~~~(mask <<< shift) ||| data <<< shift).toBitVec.getLsbD i =
      if n ≤ i ∧ i < n + w then data.toBitVec.getLsbD (i - n) else val.toBitVec.getLsbD i := by
  have hmask' := hmask (i - n) (by omega)
  simp only [UInt32.toBitVec_or, UInt32.toBitVec_and, UInt32.toBitVec_not, BitVec.getLsbD_or,
    BitVec.getLsbD_and, BitVec.getLsbD_not, toBitVec_shiftLeft hn hlt, BitVec.getLsbD_shiftLeft, hi,
    decide_true, Bool.true_and, hmask']
  by_cases hlow : i < n
  · rw [if_neg (by omega)]
    simp [hlow]
  · by_cases hin : i - n < w
    · rw [if_pos (by omega)]
      simp [hlow, hin]
    · rw [if_neg (by omega), hdata (i - n) (by omega)]
      simp [hin]

theorem getLsbD_toUInt8 (a : UInt32) (i : Nat) :
    a.toUInt8.toUInt32.toBitVec.getLsbD i = (decide (i < 8) && a.toBitVec.getLsbD i) := by
  rw [UInt8.toBitVec_toUInt32, UInt32.toBitVec_toUInt8, BitVec.getLsbD_setWidth,
    BitVec.getLsbD_setWidth]
  by_cases hi : i < 8
  · simp [hi, show i < 32 by omega]
  · simp [hi]

theorem getLsbD_toUInt16 (a : UInt32) (i : Nat) :
    a.toUInt16.toUInt32.toBitVec.getLsbD i = (decide (i < 16) && a.toBitVec.getLsbD i) := by
  rw [UInt16.toBitVec_toUInt32, UInt32.toBitVec_toUInt16, BitVec.getLsbD_setWidth,
    BitVec.getLsbD_setWidth]
  by_cases hi : i < 16
  · simp [hi, show i < 32 by omega]
  · simp [hi]

/-! ## Offsets -/

/-- Where the bits of an access are in the register. -/
def Width.shift (width : Width) (offset : UInt8) : Nat := width.first offset % 32

theorem Width.first_eq (width : Width) (offset : UInt8) :
    width.first offset = offset.toNat / 4 * 32 + width.shift offset ∧
      width.shift offset + width.bytes * 8 ≤ 32 := by
  cases width <;> simp only [shift, first, bytes] <;> omega

theorem Width.shift_lt (width : Width) (offset : UInt8) : width.shift offset < 32 :=
  Nat.mod_lt _ (by decide)

theorem byte_shift (offset : UInt8) :
    ((offset &&& 3) * 8).toUInt32.toNat = Width.byte.shift offset := by
  have hand : (offset &&& 3).toNat = offset.toNat % 4 := Nat.and_two_pow_sub_one_eq_mod _ 2
  rw [UInt8.toNat_toUInt32, UInt8.toNat_mul, hand]
  show offset.toNat % 4 * 8 % 256 = _
  simp only [Width.shift, Width.first, Width.bytes]
  omega

theorem word_shift (offset : UInt8) :
    ((offset &&& 2) * 8).toUInt32.toNat = Width.word.shift offset := by
  have hmask : ∀ n < 256, n &&& 2 = n % 4 / 2 * 2 := by decide +kernel
  have hand : (offset &&& 2).toNat = offset.toNat % 4 / 2 * 2 := hmask _ offset.toNat_lt
  rw [UInt8.toNat_toUInt32, UInt8.toNat_mul, hand]
  show offset.toNat % 4 / 2 * 2 * 8 % 256 = _
  simp only [Width.shift, Width.first, Width.bytes]
  omega

theorem Width.covers_iff (width : Width) (offset : UInt8) (k : Fin 2048) :
    width.Covers offset k ↔ k.val / 32 = offset.toNat / 4 ∧ width.shift offset ≤ k.val % 32 ∧
      k.val % 32 < width.shift offset + width.bytes * 8 := by
  obtain ⟨hfirst, hle⟩ := width.first_eq offset
  unfold Covers
  omega

theorem register_eq_iff (fn fn' : Fn) (offset : UInt8) (k : Fin 2048) :
    fn'.register k = pciAddress fn.bus fn.slot fn.func offset ↔
      fn' = fn ∧ k.val / 32 = offset.toNat / 4 := by
  have hk := k.isLt
  have hoffset : (UInt8.ofNat (k.val / 32 * 4)).toNat = k.val / 32 * 4 := by
    rw [UInt8.toNat_ofNat']
    omega
  rw [Fn.register, pciAddress_eq_iff, hoffset, Nat.mul_div_cancel _ (by decide)]

/-! ## One access -/

section Accesses

variable (kinds : UInt32 → Kind) (s : Ports) (fn : Fn) (offset : UInt8)

theorem inData_bits {k : Fin 2048} (hk : k.val / 32 = offset.toNat / 4) :
    (pciWriteAddress s fn.bus fn.slot fn.func offset).inData.toBitVec.getLsbD (k.val % 32) =
      bitsOf s.config fn k := by
  rw [bitsOf, (register_eq_iff fn fn offset k).2 ⟨rfl, hk⟩]
  rfl

theorem outData_bits (data : UInt32) (fn' : Fn) (k : Fin 2048) :
    bitsOf ((pciWriteAddress s fn.bus fn.slot fn.func offset).outData kinds data).config fn' k =
      if fn' = fn ∧ k.val / 32 = offset.toNat / 4 then
        settleBit (storedBits kinds fn k) (clearableBits kinds fn k) (bitsOf s.config fn k)
          (data.toBitVec.getLsbD (k.val % 32))
      else bitsOf s.config fn' k := by
  have hmod : k.val % 32 < 32 := Nat.mod_lt _ (by decide)
  have hconfig : ((pciWriteAddress s fn.bus fn.slot fn.func offset).outData kinds data).config =
      Function.update s.config (pciAddress fn.bus fn.slot fn.func offset)
        ((kinds (pciAddress fn.bus fn.slot fn.func offset)).settle
          (s.config (pciAddress fn.bus fn.slot fn.func offset)) data) := rfl
  unfold storedBits clearableBits bitsOf
  rw [hconfig]
  by_cases hsame : fn' = fn ∧ k.val / 32 = offset.toNat / 4
  · have hregister := (register_eq_iff fn fn' offset k).2 hsame
    rw [if_pos hsame, ← hsame.1, hregister, ← hsame.1, Function.update_self,
      getLsbD_settle _ _ _ hmod]
  · rw [if_neg hsame, Function.update_of_ne]
    exact fun h => hsame ((register_eq_iff fn fn' offset k).1 h)

/-- What is written into the register: the bits of the access from its data, and the others as
they were read. -/
theorem write_eq (width : Width) (data : UInt32) : ∃ val : UInt32,
    (s.step kinds (.write width fn offset data)).1 =
      (pciWriteAddress s fn.bus fn.slot fn.func offset).outData kinds val ∧
    ∀ k : Fin 2048, k.val / 32 = offset.toNat / 4 → val.toBitVec.getLsbD (k.val % 32) =
      if width.Covers offset k then data.toBitVec.getLsbD (k.val - width.first offset)
      else bitsOf s.config fn k := by
  obtain ⟨hfirst, hle⟩ := width.first_eq offset
  have hsplice : ∀ {mask shift part : UInt32}, shift.toNat = width.shift offset →
      (∀ i < 32, mask.toBitVec.getLsbD i = decide (i < width.bytes * 8)) →
      (∀ i, part.toBitVec.getLsbD i = (decide (i < width.bytes * 8) && data.toBitVec.getLsbD i)) →
      ∀ k : Fin 2048, k.val / 32 = offset.toNat / 4 →
        ((pciWriteAddress s fn.bus fn.slot fn.func offset).inData &&& ~~~(mask <<< shift) |||
          part <<< shift).toBitVec.getLsbD (k.val % 32) =
            if width.Covers offset k then data.toBitVec.getLsbD (k.val - width.first offset)
            else bitsOf s.config fn k := by
    intro mask shift part hshift hmask hpart k hk
    rw [getLsbD_splice hshift (width.shift_lt offset) hmask (fun i hi => by rw [hpart]; simp [hi])
      (Nat.mod_lt _ (by decide)), inData_bits s fn offset hk, hpart]
    by_cases hin : width.Covers offset k
    · have hcovers := (width.covers_iff offset k).1 hin
      have hindex : k.val % 32 - width.shift offset = k.val - width.first offset := by omega
      rw [if_pos hcovers.2, if_pos hin, hindex, decide_eq_true (by omega), Bool.true_and]
    · have hcovers := mt (width.covers_iff offset k).2 hin
      rw [if_neg (fun h => hcovers ⟨hk, h⟩), if_neg hin]
  cases width with
  | byte => exact ⟨_, rfl, hsplice (byte_shift offset) (by decide) (getLsbD_toUInt8 data)⟩
  | word => exact ⟨_, rfl, hsplice (word_shift offset) (by decide) (getLsbD_toUInt16 data)⟩
  | dword =>
    refine ⟨data, rfl, fun k hk => ?_⟩
    have hcovers : Width.dword.Covers offset k := by
      simp only [Width.Covers, Width.first, Width.bytes]
      omega
    have hindex : k.val % 32 = k.val - Width.dword.first offset := by
      simp only [Width.first, Width.bytes]
      omega
    rw [if_pos hcovers, hindex]

end Accesses

theorem stored_of_clearable (kinds : UInt32 → Kind) (fn : Fn) (k : Fin 2048)
    (h : clearableBits kinds fn k = true) : storedBits kinds fn k = false := by
  have hzero := congrArg (fun a : UInt32 => a.toBitVec.getLsbD (k.val % 32))
    (kinds (fn.register k)).disjoint
  simp only [UInt32.toBitVec_and, BitVec.getLsbD_and] at hzero
  unfold clearableBits bitsOf at h
  rw [h, Bool.and_true] at hzero
  exact hzero.trans (BitVec.getLsbD_zero)

theorem settleBit_same {stored clearable : Bool} (h : clearable = true → stored = false)
    (old : Bool) : settleBit stored clearable old old = (old && !clearable) := by
  cases clearable with
  | false => cases stored <;> cases old <;> rfl
  | true =>
    rw [h rfl]
    cases old <;> rfl

section Accesses

variable (kinds : UInt32 → Kind) (s : Ports) (width : Width) (fn : Fn) (offset : UInt8)

theorem write_bits (data : UInt32) (fn' : Fn) (k : Fin 2048) :
    bitsOf (s.step kinds (.write width fn offset data)).1.config fn' k =
      if fn' = fn ∧ width.Covers offset k then
        settleBit (storedBits kinds fn k) (clearableBits kinds fn k) (bitsOf s.config fn k)
          (data.toBitVec.getLsbD (k.val - width.first offset))
      else if fn' = fn ∧ k.val / 32 = offset.toNat / 4 then
        bitsOf s.config fn k && !clearableBits kinds fn k
      else bitsOf s.config fn' k := by
  obtain ⟨val, hstep, hval⟩ := write_eq kinds s fn offset width data
  rw [hstep, outData_bits]
  by_cases hsame : fn' = fn ∧ k.val / 32 = offset.toNat / 4
  · obtain ⟨rfl, hk⟩ := hsame
    rw [if_pos ⟨rfl, hk⟩, hval k hk]
    by_cases hin : width.Covers offset k
    · rw [if_pos hin, if_pos ⟨rfl, hin⟩]
    · rw [if_neg hin, if_neg (fun h => hin h.2), if_pos ⟨rfl, hk⟩,
        settleBit_same (stored_of_clearable kinds fn' k)]
  · have hout : ¬ (fn' = fn ∧ width.Covers offset k) :=
      fun h => hsame ⟨h.1, ((width.covers_iff offset k).1 h.2).1⟩
    rw [if_neg hsame, if_neg hout, if_neg hsame]

theorem read_bits : ∃ val, s.step kinds (.read width fn offset) =
      (pciWriteAddress s fn.bus fn.slot fn.func offset, some val) ∧
    val.toBitVec.getLsbD = fun i => if h : i < width.bytes * 8 ∧ width.first offset + i < 2048 then
      bitsOf s.config fn ⟨width.first offset + i, h.2⟩ else false := by
  obtain ⟨hfirst, hle⟩ := width.first_eq offset
  have hoffset := offset.toNat_lt
  have hin : ∀ i, (h : i < width.bytes * 8 ∧ width.first offset + i < 2048) →
      bitsOf s.config fn ⟨width.first offset + i, h.2⟩ =
        (s.config (pciAddress fn.bus fn.slot fn.func offset)).toBitVec.getLsbD
          (width.shift offset + i) := by
    intro i h
    have hk : (width.first offset + i) / 32 = offset.toNat / 4 := by omega
    have hindex : (width.first offset + i) % 32 = width.shift offset + i := by omega
    rw [← hindex]
    exact (inData_bits (k := ⟨width.first offset + i, h.2⟩) s fn offset hk).symm
  -- the bits of the value, if it is the register moved and cut
  have hcut : ∀ {val : UInt32}, (∀ i, val.toBitVec.getLsbD i = (decide (i < width.bytes * 8) &&
      (s.config (pciAddress fn.bus fn.slot fn.func offset)).toBitVec.getLsbD
        (width.shift offset + i))) →
      val.toBitVec.getLsbD = fun i =>
        if h : i < width.bytes * 8 ∧ width.first offset + i < 2048 then
          bitsOf s.config fn ⟨width.first offset + i, h.2⟩ else false := by
    intro val hval
    funext i
    rw [hval]
    by_cases hi : i < width.bytes * 8
    · have h : i < width.bytes * 8 ∧ width.first offset + i < 2048 := ⟨hi, by omega⟩
      rw [dif_pos h, hin i h, decide_eq_true hi, Bool.true_and]
    · rw [dif_neg (fun h => hi h.1), decide_eq_false hi, Bool.false_and]
  cases width with
  | byte =>
    refine ⟨_, rfl, hcut fun i => ?_⟩
    rw [pciConfigReadByte, getLsbD_toUInt8,
      toBitVec_shiftRight (byte_shift offset) (Width.byte.shift_lt offset),
      BitVec.getLsbD_ushiftRight]
    rfl
  | word =>
    refine ⟨_, rfl, hcut fun i => ?_⟩
    rw [pciConfigReadWord, getLsbD_toUInt16,
      toBitVec_shiftRight (word_shift offset) (Width.word.shift_lt offset),
      BitVec.getLsbD_ushiftRight]
    rfl
  | dword =>
    refine ⟨_, rfl, hcut fun i => ?_⟩
    have hshift : Width.dword.shift offset = 0 := by
      simp only [Width.shift, Width.first, Width.bytes]
      omega
    rw [hshift, Nat.zero_add]
    by_cases hi : i < 32
    · simp [pciConfigReadDword, Width.bytes, hi]
    · rw [BitVec.getLsbD_of_ge _ _ (by omega), BitVec.getLsbD_of_ge _ _ (by omega), Bool.and_false]

/-- A write leaves all other bits as they are exactly if none of those that a one clears is set
next to what is written. -/
theorem write_frame_iff (data : UInt32) :
    (∀ fn' k, ¬ (fn' = fn ∧ width.Covers offset k) →
      bitsOf (s.step kinds (.write width fn offset data)).1.config fn' k = bitsOf s.config fn' k) ↔
    Quiet kinds (bitsOf s.config) (.write width fn offset data) := by
  constructor
  · intro h k hk hout hclearable
    have hsame := h fn k (fun h => hout h.2)
    rw [write_bits, if_neg (fun h => hout h.2), if_pos ⟨rfl, hk⟩, hclearable] at hsame
    simpa using hsame.symm
  · intro h fn' k hout
    rw [write_bits, if_neg hout]
    split_ifs with hsame
    · obtain ⟨rfl, hk⟩ := hsame
      cases hclearable : clearableBits kinds fn' k with
      | false => simp
      | true => rw [h k hk (fun hin => hout ⟨rfl, hin⟩) hclearable, Bool.false_and]
    · rfl

end Accesses

/-! ## Runs -/

/-- No write of the run finds a bit next to it that a one would clear. -/
def QuietRun (kinds : UInt32 → Kind) (b : Bits) : List Access → Prop
  | [] => True
  | a :: accesses => Quiet kinds b a ∧ QuietRun kinds (b.step kinds a).1 accesses

theorem step_refines (kinds : UInt32 → Kind) (s : Ports) (a : Access)
    (h : Quiet kinds (bitsOf s.config) a) :
    bitsOf (s.step kinds a).1.config = (Bits.step kinds (bitsOf s.config) a).1 ∧
      (s.step kinds a).2.map (fun val => val.toBitVec.getLsbD) =
        (Bits.step kinds (bitsOf s.config) a).2 := by
  cases a with
  | read width fn offset =>
    obtain ⟨val, hstep, hval⟩ := read_bits kinds s width fn offset
    rw [hstep]
    exact ⟨rfl, congrArg some hval⟩
  | write width fn offset data =>
    refine ⟨?_, by cases width <;> rfl⟩
    have hframe := (write_frame_iff kinds s width fn offset data).2 h
    funext fn' k
    by_cases hin : fn' = fn ∧ width.Covers offset k
    · rw [write_bits, if_pos hin]
      exact (if_pos hin).symm
    · rw [hframe fn' k hin]
      exact (if_neg hin).symm

/-- In a run whose writes find no such bit, the ports give what the arrays of bits give, and what
is written goes where it belongs and nowhere else. -/
theorem run_refines (kinds : UInt32 → Kind) : ∀ (accesses : List Access) (s : Ports),
    QuietRun kinds (bitsOf s.config) accesses →
      bitsOf (fold (Ports.step kinds) s accesses).1.config =
        (fold (Bits.step kinds) (bitsOf s.config) accesses).1 ∧
      (fold (Ports.step kinds) s accesses).2.map
          (Option.map fun val => val.toBitVec.getLsbD) =
        (fold (Bits.step kinds) (bitsOf s.config) accesses).2 := by
  intro accesses
  induction accesses with
  | nil => exact fun s _ => ⟨rfl, rfl⟩
  | cons a accesses ih =>
    rintro s ⟨hquiet, hrest⟩
    obtain ⟨hbits, hanswer⟩ := step_refines kinds s a hquiet
    rw [← hbits] at hrest
    obtain ⟨hbits', hanswers⟩ := ih (s.step kinds a).1 hrest
    simp only [fold, List.map_cons]
    rw [hbits', hanswer, hanswers, hbits]
    exact ⟨rfl, rfl⟩

/-- A device whose command register is stored, and whose status register is cleared by ones. -/
def commandAndStatus : UInt32 → Kind := fun _ => ⟨0xFFFF, 0xFFFF0000, rfl⟩

def firstFn : Fn := ⟨0, 1, 1, by decide, by decide⟩

/-- A byte of the command register is written, and the word is read. -/
theorem run_refines_command :
    (fold (Ports.step commandAndStatus) ⟨0, fun _ => 0x101⟩
        [.write .byte firstFn 4 6, .read .word firstFn 4]).2.map
          (Option.map fun val => val.toBitVec.getLsbD) =
      (fold (Bits.step commandAndStatus) (bitsOf fun _ => 0x101)
        [.write .byte firstFn 4 6, .read .word firstFn 4]).2 := by
  refine (run_refines commandAndStatus [.write .byte firstFn 4 6, .read .word firstFn 4]
    ⟨0, fun _ => 0x101⟩ ⟨?_, trivial, trivial⟩).2
  have hbits : ∀ i < 32, (commandAndStatus 0).clearable.toBitVec.getLsbD i = true →
      (0x101 : UInt32).toBitVec.getLsbD i = false := by
    decide
  intro k _ _ hclearable
  exact hbits _ (Nat.mod_lt _ (by decide)) hclearable

/-! ## The command register of the IDE controller -/

theorem getLsbD_dmaBit : ∀ i < 32, pciCmdDmaBit.toBitVec.getLsbD i = decide (i = 2) := by
  decide

theorem dmaBit_iff (cmd : UInt32) :
    cmd &&& pciCmdDmaBit = 0 ↔ cmd.toBitVec.getLsbD 2 = false := by
  constructor
  · intro h
    have h := congrArg (fun a : UInt32 => a.toBitVec.getLsbD 2) h
    rw [UInt32.toBitVec_and, BitVec.getLsbD_and, getLsbD_dmaBit 2 (by decide), decide_eq_true rfl,
      Bool.and_true] at h
    exact h.trans BitVec.getLsbD_zero
  · intro h
    apply UInt32.toBitVec_inj.1
    apply BitVec.eq_of_getLsbD_eq
    intro i hi
    rw [UInt32.toBitVec_and, BitVec.getLsbD_and, getLsbD_dmaBit i hi]
    by_cases htwo : i = 2
    · rw [htwo, h]
      rfl
    · rw [decide_eq_false htwo, Bool.and_false]
      exact BitVec.getLsbD_zero.symm

/-- What `init_ide` does to the configuration space: where DMA was off, the bit is set if it can
be, and every bit that a one clears is gone from the command and status registers. -/
theorem enableDma_bits (kinds : UInt32 → Kind) (s : Ports) (fn fn' : Fn) (k : Fin 2048) :
    bitsOf (enableDma kinds s fn.bus fn.slot fn.func).config fn' k =
      if fn' = fn ∧ k.val / 32 = 1 ∧ bitsOf s.config fn 34 = false then
        if k.val = 34 then storedBits kinds fn k
        else bitsOf s.config fn k && !clearableBits kinds fn k
      else bitsOf s.config fn' k := by
  have hdma := dmaBit_iff (pciWriteAddress s fn.bus fn.slot fn.func pciCmdOff).inData
  have hfirst : (pciWriteAddress s fn.bus fn.slot fn.func pciCmdOff).inData.toBitVec.getLsbD 2 =
      bitsOf s.config fn 34 := inData_bits (k := 34) s fn pciCmdOff rfl
  rw [hfirst] at hdma
  by_cases hoff : bitsOf s.config fn 34 = false
  · have hrun : enableDma kinds s fn.bus fn.slot fn.func =
        (pciWriteAddress s fn.bus fn.slot fn.func pciCmdOff).outData kinds
          ((pciWriteAddress s fn.bus fn.slot fn.func pciCmdOff).inData ||| pciCmdDmaBit) :=
      if_pos (hdma.2 hoff)
    have hoffset : pciCmdOff.toNat / 4 = 1 := rfl
    rw [hrun, outData_bits, hoffset, hoff]
    by_cases hin : fn' = fn ∧ k.val / 32 = 1
    · rw [if_pos hin, if_pos ⟨hin.1, hin.2, rfl⟩, UInt32.toBitVec_or, BitVec.getLsbD_or,
        inData_bits s fn pciCmdOff hin.2, getLsbD_dmaBit _ (Nat.mod_lt _ (by decide))]
      by_cases hk : k.val = 34
      · have hsame : k = 34 := Fin.ext hk
        rw [if_pos hk, hsame, hoff]
        cases storedBits kinds fn 34 <;> rfl
      · rw [if_neg hk, decide_eq_false (by omega), Bool.or_false,
          settleBit_same (stored_of_clearable kinds fn k)]
    · rw [if_neg hin, if_neg (fun h => hin ⟨h.1, h.2.1⟩)]
  · have hrun : enableDma kinds s fn.bus fn.slot fn.func =
        pciWriteAddress s fn.bus fn.slot fn.func pciCmdOff :=
      if_neg (mt hdma.1 hoff)
    rw [hrun, if_neg (fun h => hoff h.2.2)]
    rfl

end X86Kernel.Pci
