import Mathlib.Tactic.Ring
import X86Kernel.Block.Ide.Prdt

/- The drive's side of a command: what the registers that `ide_set_lba28` and `ide_set_lba48`
   write mean to it, against the table that `fill_prdt` made for the same request.

   A sector count and a sector address of 48 bits go through registers of a byte each, which
   keep the value before the last one; the parameters on the way are a `u32` and a `u8` (28-bit
   commands) or a `u16`.

   What is proved: the drive transfers the sectors of the request, and as many bytes as the
   table has, exactly if the address and the count fit the command (`registers_agree_iff`).
   Neither the driver nor the block layer above checks that they do.

   Correspondence (ATA ↔ Lean):
     count and address registers ↔ `Fifo`, `TaskFile`
     28-bit and 48-bit commands  ↔ `TaskFile.transfer28`, `TaskFile.transfer48` -/
namespace X86Kernel.Ide.Ports
open X86Kernel.Lib X86Kernel.Ide.Prdt

/-! ## The drive -/

/-- A register that is written twice for a 48-bit command. -/
structure Fifo where
  cur : Nat
  prev : Nat

def Fifo.push (f : Fifo) (value : Nat) : Fifo := ⟨value, f.cur⟩

structure TaskFile where
  seccount : Fifo
  lba0 : Fifo
  lba1 : Fifo
  lba2 : Fifo
  device : Nat

/-- The first sector and the number of sectors. -/
structure Transfer where
  lba : Nat
  sectors : Nat
  deriving DecidableEq, Repr

/-- A 28-bit command; count 0 is 256. -/
def TaskFile.transfer28 (t : TaskFile) : Transfer where
  lba := t.device % 16 * 2 ^ 24 + t.lba2.cur * 2 ^ 16 + t.lba1.cur * 2 ^ 8 + t.lba0.cur
  sectors := if t.seccount.cur = 0 then 256 else t.seccount.cur

/-- A 48-bit command; count 0 is 65536. -/
def TaskFile.transfer48 (t : TaskFile) : Transfer where
  lba := t.lba2.prev * 2 ^ 40 + t.lba1.prev * 2 ^ 32 + t.lba0.prev * 2 ^ 24 +
    t.lba2.cur * 2 ^ 16 + t.lba1.cur * 2 ^ 8 + t.lba0.cur
  sectors :=
    if t.seccount.prev * 2 ^ 8 + t.seccount.cur = 0 then 65536
    else t.seccount.prev * 2 ^ 8 + t.seccount.cur

/-- The registers, and the transfer of the last command. -/
structure DriveState where
  file : TaskFile
  started : Option Transfer

/-- The DMA commands, by their opcodes. -/
def TaskFile.start (t : TaskFile) (cmd : Nat) : Option Transfer :=
  if cmd = 0xC8 ∨ cmd = 0xCA then some t.transfer28
  else if cmd = 0x25 ∨ cmd = 0x35 then some t.transfer48
  else none

/-- A drive on the channel sees a write. -/
def DriveState.write (channel : Channel) (d : DriveState) (w : PortWrite) : DriveState :=
  if w.channel ≠ channel then d
  else
    match w.reg with
    | .seccount0 => { d with file := { d.file with seccount := d.file.seccount.push w.value } }
    | .lba0 => { d with file := { d.file with lba0 := d.file.lba0.push w.value } }
    | .lba1 => { d with file := { d.file with lba1 := d.file.lba1.push w.value } }
    | .lba2 => { d with file := { d.file with lba2 := d.file.lba2.push w.value } }
    | .hddevsel => { d with file := { d.file with device := w.value } }
    | .command => { d with started := d.file.start w.value }
    | .bmCmd | .bmStatus | .bmPrdt => d

/-! ## What a command comes to -/

/-- The transfer that reaches the drive: the address and the count are cut to the command. -/
def cutTransfer (sizeType : SizeType) (lba sectors : Nat) : Transfer :=
  match sizeType with
  | .lba48 => ⟨lba % 2 ^ 48, if sectors % 2 ^ 16 = 0 then 65536 else sectors % 2 ^ 16⟩
  | .lba28 | .chs => ⟨lba % 2 ^ 28, if sectors % 2 ^ 8 = 0 then 256 else sectors % 2 ^ 8⟩

theorem select_low (slave : Bool) (high : Nat) :
    (0xE0 ||| (if slave then 0x10 else 0x00) ||| (high &&& 0x0F)) % 16 = high % 16 := by
  have hnibble : high &&& 0x0F = high % 16 := Nat.and_two_pow_sub_one_eq_mod high 4
  have hor : ∀ a b : Nat, (a ||| b) % 16 = a % 16 ||| b % 16 := fun a b => @Nat.or_mod_two_pow a b 4
  rw [hnibble, hor, Nat.mod_mod]
  cases slave with
  | false => rw [if_neg (by decide), show (0xE0 ||| 0x00) % 16 = 0 by decide, Nat.zero_or]
  | true => rw [if_pos rfl, show (0xE0 ||| 0x10) % 16 = 0 by decide, Nat.zero_or]

theorem byte_eq (x : Nat) : x &&& 0xFF = x % 2 ^ 8 := Nat.and_two_pow_sub_one_eq_mod x 8

theorem setLba28_file (channel : Channel) (d : DriveState) (slave : Bool) (lba sectors : Nat) :
    ((ideSetLba28 channel slave lba sectors).foldl (DriveState.write channel) d).file =
      ⟨d.file.seccount.push (sectors % 2 ^ 8), d.file.lba0.push (lba % 2 ^ 32 &&& 0xFF),
        d.file.lba1.push ((lba % 2 ^ 32) >>> 8 &&& 0xFF),
        d.file.lba2.push ((lba % 2 ^ 32) >>> 16 &&& 0xFF),
        0xE0 ||| (if slave then 0x10 else 0x00) ||| ((lba % 2 ^ 32) >>> 24 &&& 0x0F &&& 0x0F)⟩ := by
  simp only [ideSetLba28, ideSelect, List.cons_append, List.nil_append, List.foldl_cons,
    List.foldl_nil, DriveState.write, ne_eq, not_true_eq_false, if_false]

theorem setLba48_file (channel : Channel) (d : DriveState) (slave : Bool) (lba sectors : Nat) :
    ((ideSetLba48 channel slave lba sectors).foldl (DriveState.write channel) d).file =
      ⟨⟨sectors % 2 ^ 16 &&& 0xFF, (sectors % 2 ^ 16) >>> 8 &&& 0xFF⟩,
        ⟨lba &&& 0xFF, lba >>> 24 &&& 0xFF⟩, ⟨lba >>> 8 &&& 0xFF, lba >>> 32 &&& 0xFF⟩,
        ⟨lba >>> 16 &&& 0xFF, lba >>> 40 &&& 0xFF⟩,
        0xE0 ||| (if slave then 0x10 else 0x00) ||| (lba >>> 24 &&& 0x0F &&& 0x0F)⟩ := by
  simp only [ideSetLba48, ideSelect, List.cons_append, List.nil_append, List.foldl_cons,
    List.foldl_nil, DriveState.write, ne_eq, not_true_eq_false, if_false, Fifo.push]

theorem setLba28_transfer (channel : Channel) (d : DriveState) (slave : Bool) (lba sectors : Nat) :
    ((ideSetLba28 channel slave lba sectors).foldl (DriveState.write channel) d).file.transfer28 =
      cutTransfer .lba28 lba sectors := by
  have hnibble : ∀ x : Nat, (x &&& 0x0F) % 16 = x % 16 := fun x => by
    rw [show x &&& 0x0F = x % 2 ^ 4 from Nat.and_two_pow_sub_one_eq_mod x 4]
    omega
  rw [setLba28_file]
  unfold TaskFile.transfer28 cutTransfer
  simp only [Fifo.push, select_low, byte_eq, hnibble, Nat.shiftRight_eq_div_pow]
  congr 1
  omega

theorem three_bytes (x : Nat) :
    x / 2 ^ 16 % 2 ^ 8 * 2 ^ 16 + x / 2 ^ 8 % 2 ^ 8 * 2 ^ 8 + x % 2 ^ 8 = x % 2 ^ 24 := by
  omega

theorem setLba48_transfer (channel : Channel) (d : DriveState) (slave : Bool) (lba sectors : Nat) :
    ((ideSetLba48 channel slave lba sectors).foldl (DriveState.write channel) d).file.transfer48 =
      cutTransfer .lba48 lba sectors := by
  have hcount : sectors % 2 ^ 16 / 2 ^ 8 % 2 ^ 8 * 2 ^ 8 + sectors % 2 ^ 16 % 2 ^ 8 =
      sectors % 2 ^ 16 := by omega
  have hlow := three_bytes lba
  have hhigh := three_bytes (lba / 2 ^ 24)
  rw [Nat.div_div_eq_div_mul, Nat.div_div_eq_div_mul, show 2 ^ 24 * 2 ^ 16 = 2 ^ 40 from rfl,
    show 2 ^ 24 * 2 ^ 8 = 2 ^ 32 from rfl] at hhigh
  have hsplit : lba % 2 ^ 48 = lba % 2 ^ 24 + 2 ^ 24 * (lba / 2 ^ 24 % 2 ^ 24) :=
    @Nat.mod_mul (2 ^ 24) (2 ^ 24) lba
  have hlba : lba / 2 ^ 40 % 2 ^ 8 * 2 ^ 40 + lba / 2 ^ 32 % 2 ^ 8 * 2 ^ 32 +
      lba / 2 ^ 24 % 2 ^ 8 * 2 ^ 24 + lba / 2 ^ 16 % 2 ^ 8 * 2 ^ 16 + lba / 2 ^ 8 % 2 ^ 8 * 2 ^ 8 +
      lba % 2 ^ 8 = lba % 2 ^ 48 := by
    rw [hsplit, ← hlow, ← hhigh]
    ring
  rw [setLba48_file]
  unfold TaskFile.transfer48 cutTransfer
  simp only [byte_eq, Nat.shiftRight_eq_div_pow, hcount, hlba]

theorem commandWrites_started (d : DriveState) (cmd : Command) (hsize : cmd.sizeType ≠ .chs) :
    ((commandWrites cmd).foldl (DriveState.write cmd.channel) d).started =
      some (cutTransfer cmd.sizeType cmd.lba cmd.sectors) := by
  have hstart : ∀ (d : DriveState) (opcode bm : Nat),
      ((d.write cmd.channel ⟨cmd.channel, .command, opcode⟩).write cmd.channel
        ⟨cmd.channel, .bmCmd, bm⟩).started = d.file.start opcode := by
    intro d opcode bm
    simp only [DriveState.write, ne_eq, not_true_eq_false, if_false]
  unfold commandWrites ideSendCmd
  rw [List.foldl_append, List.foldl_append, List.foldl_cons, List.foldl_nil, List.foldl_cons,
    List.foldl_nil, hstart]
  cases hs : cmd.sizeType with
  | chs => exact absurd hs hsize
  | lba28 =>
    have hopcode : dmaCommand cmd.action .lba28 = 0xC8 ∨ dmaCommand cmd.action .lba28 = 0xCA := by
      cases cmd.action <;> decide
    dsimp only
    rw [TaskFile.start, if_pos hopcode, List.foldl_cons, List.foldl_cons, setLba28_transfer]
  | lba48 =>
    have hopcode : dmaCommand cmd.action .lba48 = 0x25 ∨ dmaCommand cmd.action .lba48 = 0x35 := by
      cases cmd.action <;> decide
    have hother : ¬ (dmaCommand cmd.action .lba48 = 0xC8 ∨
        dmaCommand cmd.action .lba48 = 0xCA) := by
      cases cmd.action <;> decide
    dsimp only
    rw [TaskFile.start, if_neg hother, if_pos hopcode, List.foldl_cons, setLba48_transfer]

/-! ## The registers and the table -/

/-- `ide_read_sectors_async` or `ide_write_sectors_async`. -/
def sectorsAsync (ctl : Controller) (prdt : Channel → Nat) : Action → Nat → Nat →
    List (Nat × Nat) → Kernel (List PortWrite)
  | .read => ideReadSectorsAsync ctl prdt
  | .write => ideWriteSectorsAsync ctl prdt

theorem sectorsAsync_ok {ctl : Controller} {prdt : Channel → Nat} {action : Action}
    {device lba : Nat} {chunks : List (Nat × Nat)} {ws : List PortWrite}
    (h : sectorsAsync ctl prdt action device lba chunks = .ok ws) :
    ∃ n, Ide.fillPrdt chunks = .ok n ∧ (ctl.devices device).sizeType ≠ .chs ∧
      ws = tableWrites prdt chunks (ctl.devices device).channel ++
        commandWrites ⟨(ctl.devices device).channel, (ctl.devices device).slave,
          (ctl.devices device).sizeType, action, lba, n⟩ := by
  have hcommand : ∃ n cmd, Ide.fillPrdt chunks = .ok n ∧
      ideProgram ctl device action lba n = .ok cmd ∧
      ws = tableWrites prdt chunks cmd.channel ++ commandWrites cmd := by
    cases action with
    | read =>
      change ideReadSectorsAsync ctl prdt device lba chunks = .ok ws at h
      unfold ideReadSectorsAsync at h
      split at h
      · cases h
      · have hiff := @transfer_eq_ok_iff ctl device prdt chunks lba .read (fun _ => .ok ()) ws
        simp only [ok_bind, true_and] at hiff
        obtain ⟨n, cmd, hn, hcmd, hws⟩ := hiff.1 h
        exact ⟨n, cmd, hn, hcmd, hws⟩
    | write =>
      change ideWriteSectorsAsync ctl prdt device lba chunks = .ok ws at h
      unfold ideWriteSectorsAsync at h
      split at h
      · cases h
      · obtain ⟨n, cmd, hn, -, hcmd, hws⟩ := (@transfer_eq_ok_iff ctl device prdt chunks lba .write
          (fun n => assert (n != 0)) ws).1 h
        exact ⟨n, cmd, hn, hcmd, hws⟩
  obtain ⟨n, cmd, hn, hcmd, hws⟩ := hcommand
  have hprog := programmable_of_ideProgram hcmd
  rw [ideProgram_eq hprog] at hcmd
  obtain rfl := Except.ok.inj hcmd
  exact ⟨n, hn, hprog.2, hws⟩

theorem tableWrites_started (prdt : Channel → Nat) (chunks : List (Nat × Nat)) (channel : Channel)
    (d : DriveState) :
    (tableWrites prdt chunks channel).foldl (DriveState.write channel) d = d := by
  unfold tableWrites
  split
  · simp only [List.foldl_cons, List.foldl_nil, DriveState.write, ne_eq, not_true_eq_false,
      if_false]
  · rfl

/-- What a command can carry. -/
def Fits (sizeType : SizeType) (lba sectors : Nat) : Prop :=
  match sizeType with
  | .lba48 => lba < 2 ^ 48 ∧ sectors ≤ 65536
  | .lba28 | .chs => lba < 2 ^ 28 ∧ sectors ≤ 256

theorem cutTransfer_eq_iff {sizeType : SizeType} {lba sectors : Nat} (hpos : 1 ≤ sectors) :
    cutTransfer sizeType lba sectors = ⟨lba, sectors⟩ ↔ Fits sizeType lba sectors := by
  unfold cutTransfer Fits
  cases sizeType with
  | lba48 =>
    rw [Transfer.mk.injEq]
    dsimp only
    split <;> omega
  | lba28 =>
    rw [Transfer.mk.injEq]
    dsimp only
    split <;> omega
  | chs =>
    rw [Transfer.mk.injEq]
    dsimp only
    split <;> omega

/-- The drive is told to transfer these sectors, and the table has as many bytes. -/
def Agrees (channel : Channel) (d : DriveState) (ws : List PortWrite) (es : List PrdEntry)
    (lba sectors : Nat) : Prop :=
  (ws.foldl (DriveState.write channel) d).started = some ⟨lba, sectors⟩ ∧
    (es.map PrdEntry.size).sum = sectors * sectorSize

/-- The registers and the table agree exactly if the address and the count fit the command. -/
theorem registers_agree_iff {krealloc : List PrdEntry → Nat → Option (List PrdEntry)}
    (hk : Reallocates krealloc) {dma dma' : DmaVars} (hready : dma.Ready)
    {chunks : List (Nat × Nat)} {entries sectors : Nat}
    (hfill : Prdt.fillPrdt krealloc dma chunks = .ok (dma', entries, sectors))
    (hsum : (chunks.map Prod.snd).sum < 2 ^ 64) (hpos : 1 ≤ sectors)
    {ctl : Controller} {prdt : Channel → Nat} {action : Action} {device lba : Nat}
    {ws : List PortWrite} (hrun : sectorsAsync ctl prdt action device lba chunks = .ok ws)
    (d : DriveState) :
    Agrees (ctl.devices device).channel d ws (dma'.prdt.take entries) lba sectors ↔
      Fits (ctl.devices device).sizeType lba sectors := by
  obtain ⟨n, hn, hsize, rfl⟩ := sectorsAsync_ok hrun
  have haligned := aligned_of_fillPrdt hn
  -- the count on both sides is that of the chunks
  obtain ⟨n', hn', hcount⟩ := fillPrdt_count hfill
  have hchunks := Ide.fillPrdt_ok haligned
  rw [Nat.mod_eq_of_lt hsum] at hchunks
  obtain rfl : (chunks.map Prod.snd).sum = n := Except.ok.inj (hchunks.symm.trans hn)
  obtain rfl : (chunks.map Prod.snd).sum = n' := Except.ok.inj (hchunks.symm.trans hn')
  rw [Nat.mod_eq_of_lt hsum] at hcount
  dsimp only at hcount
  subst hcount
  have hstarted := commandWrites_started d ⟨(ctl.devices device).channel,
    (ctl.devices device).slave, (ctl.devices device).sizeType, action, lba,
    (chunks.map Prod.snd).sum⟩ hsize
  unfold Agrees
  rw [List.foldl_append, tableWrites_started, hstarted, Option.some.injEq, cutTransfer_eq_iff hpos,
    and_iff_left_iff_imp]
  intro hfits
  have hsmall : (chunks.map Prod.snd).sum ≤ 65536 := by
    unfold Fits at hfits
    split at hfits <;> omega
  obtain ⟨-, hbytes⟩ := chunks_bytes (show (chunks.map Prod.snd).sum * sectorSize < 2 ^ 32 by
    unfold sectorSize
    omega)
  have hlt : (chunks.map fun c => u32 (c.2 * sectorSize)).sum < 2 ^ 32 := by
    rw [hbytes]
    unfold sectorSize
    omega
  obtain ⟨es, hholds, hlen, -, htotal, -⟩ := (Prdt.fillPrdt_ok hk hready haligned hlt).of_ok hfill
  dsimp only at hholds hlen
  have htake : dma'.prdt.take entries = es := by
    rw [← hlen]
    exact (List.prefix_iff_eq_take.1 hholds.entries).symm
  rw [htake, htotal, hbytes]

/-- A disk of 28-bit sectors as the master of the primary channel. -/
def smallDisk : Controller :=
  controllerOf dmaChannels fun i => if i = 0 then some ⟨.lba28, true⟩ else none

def idleDrive : DriveState := ⟨⟨⟨0, 0⟩, ⟨0, 0⟩, ⟨0, 0⟩, ⟨0, 0⟩, 0⟩, none⟩

theorem oneChunk_filled {pa sectors : Nat} (haligned : pa % sectorSize = 0)
    (hbytes : sectors * sectorSize < 2 ^ 32) : ∃ dma' entries,
      Prdt.fillPrdt reallocFresh firstTable [(pa, sectors)] = .ok (dma', entries, sectors) := by
  have hchunk : ∀ c ∈ [(pa, sectors)], c.1 % sectorSize = 0 := by
    intro c hc
    obtain rfl := List.mem_singleton.1 hc
    exact haligned
  have hsum : ([(pa, sectors)].map Prod.snd).sum = sectors := List.sum_singleton
  obtain ⟨-, htotal⟩ := @chunks_bytes [(pa, sectors)] (by rw [hsum]; exact hbytes)
  have hok := Prdt.fillPrdt_ok reallocFresh_reallocates firstTable_ready hchunk
    (by rw [htotal, hsum]; exact hbytes)
  cases hfill : Prdt.fillPrdt reallocFresh firstTable [(pa, sectors)] with
  | error e =>
    obtain ⟨-, _, _, -, -, hnone⟩ := hok.of_error hfill
    cases hnone
  | ok r =>
    obtain ⟨dma', entries, count⟩ := r
    obtain ⟨n, hn, hcount⟩ := fillPrdt_count hfill
    have hchunks := Ide.fillPrdt_ok hchunk
    rw [hn, hsum] at hchunks
    have hlt : sectors < 2 ^ 64 := by
      unfold sectorSize at hbytes
      omega
    rw [Except.ok.inj hchunks, Nat.mod_mod, Nat.mod_eq_of_lt hlt] at hcount
    dsimp only at hcount
    subst hcount
    exact ⟨dma', entries, rfl⟩

/-- One sector. -/
theorem oneSector_agrees : ∃ dma' entries ws,
    Prdt.fillPrdt reallocFresh firstTable [(0x100000, 1)] = .ok (dma', entries, 1) ∧
    sectorsAsync smallDisk (fun _ => 0x2000) .read 0 5 [(0x100000, 1)] = .ok ws ∧
    Agrees .primary idleDrive ws (dma'.prdt.take entries) 5 1 := by
  obtain ⟨dma', entries, hfill⟩ := @oneChunk_filled 0x100000 1 (by decide) (by decide)
  have hrun : ∃ ws, sectorsAsync smallDisk (fun _ => 0x2000) .read 0 5 [(0x100000, 1)] = .ok ws :=
    ⟨_, rfl⟩
  obtain ⟨ws, hws⟩ := hrun
  exact ⟨dma', entries, ws, hfill, hws, (registers_agree_iff reallocFresh_reallocates
    firstTable_ready hfill (by decide) (by decide) hws idleDrive).2 ⟨by decide, by decide⟩⟩

/-- 257 sectors: the count register holds 1, and the table has entries for all of them. -/
theorem count_cut_off : ∃ dma' entries ws,
    Prdt.fillPrdt reallocFresh firstTable [(0x100000, 257)] = .ok (dma', entries, 257) ∧
    sectorsAsync smallDisk (fun _ => 0x2000) .read 0 5 [(0x100000, 257)] = .ok ws ∧
    ¬ Agrees .primary idleDrive ws (dma'.prdt.take entries) 5 257 := by
  obtain ⟨dma', entries, hfill⟩ := @oneChunk_filled 0x100000 257 (by decide) (by decide)
  have hrun : ∃ ws,
      sectorsAsync smallDisk (fun _ => 0x2000) .read 0 5 [(0x100000, 257)] = .ok ws ∧
      (ws.foldl (DriveState.write .primary) idleDrive).started = some ⟨5, 1⟩ := ⟨_, rfl, rfl⟩
  obtain ⟨ws, hws, hstarted⟩ := hrun
  refine ⟨dma', entries, ws, hfill, hws, fun hagrees => ?_⟩
  have htransfer := hstarted.symm.trans hagrees.1
  cases htransfer

end X86Kernel.Ide.Ports
