import X86Kernel.Block.Ide

/- The port writes of the IDE driver (`kernel/arch/i386/drivers/pci/ide.c`): the table of
   drives as `init_ide_devices` fills it, and every write of `make_request` to the registers
   of a channel.

   What is proved: the writes are those of the command that `Ide.lean` represents them by
   (`makeRequest_writes`), so a request is carried out by the drive that command names. With
   `make_request` passing the channel where a drive's index is expected, this is the drive
   the request is for exactly if that is the master of the primary channel
   (`reaches_drive_iff`).

   A write names its channel and register: the port is `ide.channels[channel].base` or
   `.bus_master` plus the register's offset. `io_wait` and the entries that `fill_prdt` puts
   into the PRD table are not modelled; the address of that table is the parameter `prdt`.

   Correspondence (C ↔ Lean):
     `init_ide_device`, `init_ide_devices` ↔ `initIdeDevice`, `initIdeDevices`
     `ide_select`              ↔ `ideSelect`
     `ide_set_lba28`           ↔ `ideSetLba28`
     `ide_set_lba48`           ↔ `ideSetLba48`
     `ide_send_cmd`            ↔ `ideSendCmd`
     `send_bm_cmd`             ↔ `sendBmCmd`
     `send_bm_status`          ↔ `sendBmStatus`
     `set_prdt_addr`           ↔ `setPrdtAddr`
     `fill_prdt`               ↔ `fillPrdt` (its count is in `Ide.lean`)
     `ide_read_sectors_async`  ↔ `ideReadSectorsAsync`
     `ide_write_sectors_async` ↔ `ideWriteSectorsAsync`
     `make_request`            ↔ `makeRequest` -/
namespace X86Kernel.Ide.Ports

/-! ## The drives -/

/-- What IDENTIFY tells about a drive. -/
structure Drive where
  sizeType : SizeType
  supportsDma : Bool

/-- `init_ide_device`. Without an answer to IDENTIFY only `slave` is set; the other fields
stay zero. -/
def initIdeDevice (drive : Option Drive) (channel : Channel) (driveSelect : Nat) : IdeDevice :=
  match drive with
  | none =>
    { present := false, slave := decide (driveSelect = 1), sizeType := .chs, channel := .primary }
  | some d =>
    { present := true, slave := decide (driveSelect = 1), sizeType := d.sizeType, channel }

/-- `init_ide_devices`: two drives to a channel. -/
def initIdeDevices (drives : Nat → Option Drive) (deviceIndex : Nat) : IdeDevice :=
  initIdeDevice (drives deviceIndex) (if deviceIndex / 2 = 1 then .secondary else .primary)
    (deviceIndex % 2)

/-- The controller with these drives. -/
def controllerOf (channels : Channel → IdeChannel) (drives : Nat → Option Drive) : Controller where
  channels := channels
  devices := initIdeDevices drives
  wired := by
    intro i
    unfold initIdeDevices initIdeDevice
    cases drives i with
    | none => simp
    | some d => simp

/-! ## Registers -/

inductive Reg where
  | seccount0
  | lba0
  | lba1
  | lba2
  | hddevsel
  | command
  | bmCmd
  | bmStatus
  | bmPrdt
  deriving DecidableEq, Repr

/-- `outb` or `outl` to a register of a channel. -/
structure PortWrite where
  channel : Channel
  reg : Reg
  value : Nat
  deriving DecidableEq, Repr

def ideSelect (channel : Channel) (slave : Bool) (lbaHigh4 : Nat) : List PortWrite :=
  [⟨channel, .hddevsel, 0xE0 ||| (if slave then 0x10 else 0x00) ||| (lbaHigh4 &&& 0x0F)⟩]

def ideSendCmd (channel : Channel) (cmd : Nat) : List PortWrite := [⟨channel, .command, cmd⟩]

/-- `ide_set_lba28`: the sector is cut to 32 bits, the count to 8. -/
def ideSetLba28 (channel : Channel) (slave : Bool) (lba sectorCount : Nat) : List PortWrite :=
  let lba := lba % 2 ^ 32
  ideSelect channel slave (lba >>> 24 &&& 0x0F) ++
    [⟨channel, .seccount0, sectorCount % 2 ^ 8⟩, ⟨channel, .lba0, lba &&& 0xFF⟩,
     ⟨channel, .lba1, lba >>> 8 &&& 0xFF⟩, ⟨channel, .lba2, lba >>> 16 &&& 0xFF⟩]

/-- `ide_set_lba48`: the count is cut to 16 bits; high-order bytes first. -/
def ideSetLba48 (channel : Channel) (slave : Bool) (lba sectorCount : Nat) : List PortWrite :=
  let sectorCount := sectorCount % 2 ^ 16
  ideSelect channel slave (lba >>> 24 &&& 0x0F) ++
    [⟨channel, .seccount0, sectorCount >>> 8 &&& 0xFF⟩, ⟨channel, .lba0, lba >>> 24 &&& 0xFF⟩,
     ⟨channel, .lba1, lba >>> 32 &&& 0xFF⟩, ⟨channel, .lba2, lba >>> 40 &&& 0xFF⟩,
     ⟨channel, .seccount0, sectorCount &&& 0xFF⟩, ⟨channel, .lba0, lba &&& 0xFF⟩,
     ⟨channel, .lba1, lba >>> 8 &&& 0xFF⟩, ⟨channel, .lba2, lba >>> 16 &&& 0xFF⟩]

/-- A register of the bus master; only port I/O is supported. -/
def busMaster (ctl : Controller) (channel : Channel) (reg : Reg) (value : Nat) :
    Kernel (List PortWrite) :=
  if (ctl.channels channel).dmaIo then .ok [⟨channel, reg, value⟩] else .error .abort

def sendBmCmd (ctl : Controller) (channel : Channel) (cmd : Nat) : Kernel (List PortWrite) :=
  busMaster ctl channel .bmCmd cmd

def sendBmStatus (ctl : Controller) (channel : Channel) (status : Nat) :
    Kernel (List PortWrite) :=
  busMaster ctl channel .bmStatus status

def setPrdtAddr (ctl : Controller) (channel : Channel) (prdtPhysAddr : Nat) :
    Kernel (List PortWrite) :=
  busMaster ctl channel .bmPrdt prdtPhysAddr

/-- A chunk has bytes, in 32 bits: `fill_prdt` makes entries for it. -/
def hasEntries (chunks : List (Nat × Nat)) : Bool := chunks.any fun c => u32 (c.2 * 512) != 0

/-- `fill_prdt`: the sectors, and the write of the table's address if it has entries. -/
def fillPrdt (ctl : Controller) (prdt : Channel → Nat) (channel : Channel)
    (chunks : List (Nat × Nat)) : Kernel (Nat × List PortWrite) := do
  let totalSectors ← Ide.fillPrdt chunks
  if hasEntries chunks then
    let ws ← setPrdtAddr ctl channel (prdt channel)
    return (totalSectors, ws)
  else return (totalSectors, [])

/-- The writes both transfers end with. -/
def program (ctl : Controller) (device lba sectorCount cmd28 cmd48 bmCmd : Nat) :
    Kernel (List PortWrite) := do
  let dev := ctl.devices device
  let status ← sendBmStatus ctl dev.channel 0x03
  match dev.sizeType with
  | .lba48 =>
    let start ← sendBmCmd ctl dev.channel bmCmd
    return status ++ ideSetLba48 dev.channel dev.slave lba sectorCount ++
      ideSendCmd dev.channel cmd48 ++ start
  | .lba28 =>
    let start ← sendBmCmd ctl dev.channel bmCmd
    return status ++ ⟨dev.channel, .seccount0, 0x00⟩ ::
      ideSetLba28 dev.channel dev.slave lba sectorCount ++ ideSendCmd dev.channel cmd28 ++ start
  | .chs => .error .abort

def ideReadSectorsAsync (ctl : Controller) (prdt : Channel → Nat) (device lba : Nat)
    (chunks : List (Nat × Nat)) : Kernel (List PortWrite) :=
  if !(ctl.channels (ctl.devices device).channel).hasDma then .error .abort
  else do
    let (sectorCount, table) ← fillPrdt ctl prdt (ctl.devices device).channel chunks
    let ws ← program ctl device lba sectorCount 0xC8 0x25 0x09
    return table ++ ws

/-- `ide_write_sectors_async`; unlike the read it refuses to write nothing. -/
def ideWriteSectorsAsync (ctl : Controller) (prdt : Channel → Nat) (device lba : Nat)
    (chunks : List (Nat × Nat)) : Kernel (List PortWrite) :=
  if !(ctl.channels (ctl.devices device).channel).hasDma then .error .abort
  else do
    let (sectorCount, table) ← fillPrdt ctl prdt (ctl.devices device).channel chunks
    assert (sectorCount != 0)
    let ws ← program ctl device lba sectorCount 0xCA 0x35 0x01
    return table ++ ws

/-- `make_request`: the channel of the request's drive is passed as the device. -/
def makeRequest (ctl : Controller) (prdt : Channel → Nat) (r : StorRequest) :
    Kernel (List PortWrite) :=
  match r.action with
  | .read => ideReadSectorsAsync ctl prdt (r.channel ctl).index r.lba r.chunkList
  | .write => ideWriteSectorsAsync ctl prdt (r.channel ctl).index r.lba r.chunkList

/-! ## The command behind the writes -/

/-- The DMA command for an action and a size. -/
def dmaCommand : Action → SizeType → Nat
  | .read, .lba48 => 0x25
  | .write, .lba48 => 0x35
  | .read, _ => 0xC8
  | .write, _ => 0xCA

/-- The write of the table's address, if the table has entries. -/
def tableWrites (prdt : Channel → Nat) (chunks : List (Nat × Nat)) (channel : Channel) :
    List PortWrite :=
  if hasEntries chunks then [⟨channel, .bmPrdt, prdt channel⟩] else []

/-- The writes of a command from the status register on. -/
def commandWrites (cmd : Command) : List PortWrite :=
  ⟨cmd.channel, .bmStatus, 0x03⟩ ::
    (match cmd.sizeType with
      | .lba48 => ideSetLba48 cmd.channel cmd.slave cmd.lba cmd.sectors
      | _ => ⟨cmd.channel, .seccount0, 0x00⟩ ::
        ideSetLba28 cmd.channel cmd.slave cmd.lba cmd.sectors) ++
    ideSendCmd cmd.channel (dmaCommand cmd.action cmd.sizeType) ++
    [⟨cmd.channel, .bmCmd, match cmd.action with | .read => 0x09 | .write => 0x01⟩]

/-- Port I/O and a size in sectors: what `ideProgram` asks of a device. -/
def Programmable (ctl : Controller) (device : Nat) : Prop :=
  (ctl.channels (ctl.devices device).channel).dmaIo = true ∧ (ctl.devices device).sizeType ≠ .chs

section Writes

variable {ctl : Controller} {device : Nat}

theorem ideProgram_eq (h : Programmable ctl device) (action : Action) (lba sectors : Nat) :
    ideProgram ctl device action lba sectors = .ok ⟨(ctl.devices device).channel,
      (ctl.devices device).slave, (ctl.devices device).sizeType, action, lba, sectors⟩ := by
  simp [ideProgram, h.1, h.2]

theorem programmable_of_ideProgram {action : Action} {lba sectors : Nat} {cmd : Command}
    (h : ideProgram ctl device action lba sectors = .ok cmd) : Programmable ctl device := by
  simp only [ideProgram] at h
  split at h
  · cases h
  · rename_i hio
    split at h
    · cases h
    · rename_i hsize
      exact ⟨by simpa using hio, hsize⟩

theorem programmable_of_program {lba sectorCount cmd28 cmd48 bmCmd : Nat} {ws : List PortWrite}
    (h : program ctl device lba sectorCount cmd28 cmd48 bmCmd = .ok ws) :
    Programmable ctl device := by
  obtain ⟨status, hstatus, h⟩ := exists_of_bind_eq_ok h
  constructor
  · unfold sendBmStatus busMaster at hstatus
    split at hstatus
    · rename_i hio
      exact hio
    · cases hstatus
  · intro hsize
    simp only [hsize] at h
    cases h

theorem program_eq (h : Programmable ctl device) (lba sectors : Nat) (action : Action) :
    program ctl device lba sectors (dmaCommand action .lba28) (dmaCommand action .lba48)
        (match action with | .read => 0x09 | .write => 0x01) =
      .ok (commandWrites ⟨(ctl.devices device).channel, (ctl.devices device).slave,
        (ctl.devices device).sizeType, action, lba, sectors⟩) := by
  obtain ⟨hio, hsize⟩ := h
  cases hs : (ctl.devices device).sizeType with
  | chs => exact absurd hs hsize
  | lba28 =>
    cases action <;>
      simp [program, hs, sendBmStatus, sendBmCmd, busMaster, hio, commandWrites, dmaCommand]
  | lba48 =>
    cases action <;>
      simp [program, hs, sendBmStatus, sendBmCmd, busMaster, hio, commandWrites, dmaCommand]

theorem fillPrdt_eq (h : Programmable ctl device) (prdt : Channel → Nat)
    (chunks : List (Nat × Nat)) :
    fillPrdt ctl prdt (ctl.devices device).channel chunks = (do
      let n ← Ide.fillPrdt chunks
      return (n, tableWrites prdt chunks (ctl.devices device).channel)) := by
  unfold fillPrdt setPrdtAddr busMaster tableWrites
  rw [if_pos h.1]
  congr 1
  funext n
  split <;> rfl

theorem transfer_eq_ok_iff (prdt : Channel → Nat) (chunks : List (Nat × Nat)) (lba : Nat)
    (action : Action) (check : Nat → Kernel Unit) {ws : List PortWrite} :
    (do
      let (n, table) ← fillPrdt ctl prdt (ctl.devices device).channel chunks
      check n
      let ws ← program ctl device lba n (dmaCommand action .lba28) (dmaCommand action .lba48)
        (match action with | .read => 0x09 | .write => 0x01)
      return table ++ ws) = .ok ws ↔
    ∃ n cmd, Ide.fillPrdt chunks = .ok n ∧ check n = .ok () ∧
      ideProgram ctl device action lba n = .ok cmd ∧
      ws = tableWrites prdt chunks cmd.channel ++ commandWrites cmd := by
  constructor
  · intro h
    obtain ⟨⟨n, table⟩, hfill, hrest⟩ := exists_of_bind_eq_ok h
    obtain ⟨u, hcheck, hwrites⟩ := exists_of_bind_eq_ok hrest
    obtain ⟨ws', hws', hall⟩ := exists_of_bind_eq_ok hwrites
    have hprog := programmable_of_program hws'
    rw [fillPrdt_eq hprog] at hfill
    obtain ⟨n', hn', hfill⟩ := exists_of_bind_eq_ok hfill
    obtain ⟨rfl, rfl⟩ := Prod.mk.inj (Except.ok.inj hfill)
    rw [program_eq hprog] at hws'
    refine ⟨n', _, hn', hcheck, ideProgram_eq hprog action lba n', ?_⟩
    rw [← Except.ok.inj hall, Except.ok.inj hws']
  · intro h
    obtain ⟨n, cmd, hfill, hcheck, hcmd, rfl⟩ := h
    have hprog := programmable_of_ideProgram hcmd
    rw [ideProgram_eq hprog] at hcmd
    obtain rfl := Except.ok.inj hcmd
    rw [fillPrdt_eq hprog, hfill]
    simp only [ok_bind, pure_eq_ok, hcheck, program_eq hprog]

end Writes

theorem makeRequest_writes {ctl : Controller} {r : StorRequest} {ws : List PortWrite}
    (prdt : Channel → Nat) : makeRequest ctl prdt r = .ok ws ↔
      ∃ cmd, command ctl r = .ok cmd ∧
        ws = tableWrites prdt r.chunkList cmd.channel ++ commandWrites cmd := by
  unfold makeRequest command
  generalize (r.channel ctl).index = device
  cases haction : r.action with
  | read =>
    simp only [ideReadSectorsAsync, Ide.ideReadSectorsAsync]
    by_cases hdma : (ctl.channels (ctl.devices device).channel).hasDma = true
    · have h := @transfer_eq_ok_iff ctl device prdt r.chunkList r.lba .read (fun _ => .ok ()) ws
      simp only [ok_bind, true_and] at h
      simp only [hdma, Bool.not_true, Bool.false_eq_true, if_false]
      refine h.trans ?_
      cases Ide.fillPrdt r.chunkList with
      | error e => simp
      | ok n => simp
    · simp [hdma]
  | write =>
    simp only [ideWriteSectorsAsync, Ide.ideWriteSectorsAsync]
    by_cases hdma : (ctl.channels (ctl.devices device).channel).hasDma = true
    · have h := @transfer_eq_ok_iff ctl device prdt r.chunkList r.lba .write
        (fun n => assert (n != 0)) ws
      simp only [hdma, Bool.not_true, Bool.false_eq_true, if_false]
      refine h.trans ?_
      cases Ide.fillPrdt r.chunkList with
      | error e => simp
      | ok n =>
        by_cases hn : n = 0
        · simp [assert, hn]
        · simp [assert, hn]
    · simp [hdma]

/-! ## The drive that is reached -/

/-- The writes are made to the channel of the drive, select the drive with its master/slave
bit, give the DMA command for its size, and start the bus master. -/
structure Reaches (dev : IdeDevice) (action : Action) (ws : List PortWrite) : Prop where
  channel : ∀ w ∈ ws, w.channel = dev.channel
  select : (∃ w ∈ ws, w.reg = .hddevsel) ∧
    ∀ w ∈ ws, w.reg = .hddevsel → w.value.testBit 4 = dev.slave
  command : (∃ w ∈ ws, w.reg = .command) ∧
    ∀ w ∈ ws, w.reg = .command → w.value = dmaCommand action dev.sizeType
  start : ∃ w ∈ ws, w.reg = .bmCmd

theorem testBit_select (slave : Bool) (high : Nat) :
    (0xE0 ||| (if slave then 0x10 else 0x00) ||| (high &&& 0x0F)).testBit 4 = slave := by
  have hlow : Nat.testBit 0x0F 4 = false := by decide
  rw [Nat.testBit_or, Nat.testBit_and, hlow, Bool.and_false, Bool.or_false]
  cases slave with
  | false => decide
  | true => decide

theorem reaches_writes (prdt : Channel → Nat) (chunks : List (Nat × Nat)) {cmd : Command}
    {dev : IdeDevice} (hchannel : cmd.channel = dev.channel) (hslave : cmd.slave = dev.slave)
    (hsize : cmd.sizeType = dev.sizeType) :
    Reaches dev cmd.action (tableWrites prdt chunks cmd.channel ++ commandWrites cmd) := by
  have htable : ∀ w ∈ tableWrites prdt chunks cmd.channel, w.channel = cmd.channel ∧
      w.reg = .bmPrdt := by
    intro w hw
    unfold tableWrites at hw
    split at hw
    · obtain rfl := List.mem_singleton.1 hw
      exact ⟨rfl, rfl⟩
    · cases hw
  have hcommand : (∀ w ∈ commandWrites cmd, w.channel = cmd.channel) ∧
      (∀ w ∈ commandWrites cmd, w.reg = .hddevsel → w.value.testBit 4 = cmd.slave) ∧
      ∀ w ∈ commandWrites cmd, w.reg = .command →
        w.value = dmaCommand cmd.action cmd.sizeType := by
    unfold commandWrites ideSendCmd ideSetLba28 ideSetLba48 ideSelect
    cases cmd.sizeType <;> simp [-Nat.testBit_or, testBit_select]
  have hexists : (∃ w ∈ commandWrites cmd, w.reg = .hddevsel) ∧
      (∃ w ∈ commandWrites cmd, w.reg = .command) ∧ ∃ w ∈ commandWrites cmd, w.reg = .bmCmd := by
    unfold commandWrites ideSendCmd
    cases cmd.sizeType <;> simp [ideSetLba28, ideSetLba48, ideSelect]
  obtain ⟨hselect, hcmd, hstart⟩ := hexists
  have hmem {reg : Reg} (h : ∃ w ∈ commandWrites cmd, w.reg = reg) :
      ∃ w ∈ tableWrites prdt chunks cmd.channel ++ commandWrites cmd, w.reg = reg := by
    obtain ⟨w, hw, hreg⟩ := h
    exact ⟨w, List.mem_append_right _ hw, hreg⟩
  refine ⟨fun w hw => ?_, ⟨hmem hselect, fun w hw hreg => ?_⟩, ⟨hmem hcmd, fun w hw hreg => ?_⟩,
    hmem hstart⟩
  · rw [← hchannel]
    cases List.mem_append.1 hw with
    | inl hw => exact (htable w hw).1
    | inr hw => exact hcommand.1 w hw
  · rw [← hslave]
    cases List.mem_append.1 hw with
    | inl hw => exact absurd ((htable w hw).2.symm.trans hreg) (by decide)
    | inr hw => exact hcommand.2.1 w hw hreg
  · rw [← hsize]
    cases List.mem_append.1 hw with
    | inl hw => exact absurd ((htable w hw).2.symm.trans hreg) (by decide)
    | inr hw => exact hcommand.2.2 w hw hreg

/-- A drive that is there and supports DMA and sector addresses, on channels that have DMA by
port I/O; a request for it that the transfer functions do not refuse. -/
structure Valid (channels : Channel → IdeChannel) (drives : Nat → Option Drive)
    (r : StorRequest) : Prop where
  dma : ∀ c, (channels c).hasDma = true ∧ (channels c).dmaIo = true
  drive : ∃ d, drives r.device = some d ∧ d.supportsDma = true ∧ d.sizeType ≠ .chs
  index : r.device < 4
  chunks : ∃ n, Ide.fillPrdt r.chunkList = .ok n ∧ (r.action = .write → n ≠ 0)

/-- `make_request` returns, and its writes reach the request's drive. -/
def RequestReaches (ctl : Controller) (prdt : Channel → Nat) (r : StorRequest) : Prop :=
  ∃ ws, makeRequest ctl prdt r = .ok ws ∧ Reaches (ctl.devices r.device) r.action ws

theorem command_eq {ctl : Controller} {r : StorRequest} {cmd : Command}
    (h : command ctl r = .ok cmd) :
    cmd.channel = (ctl.devices (r.channel ctl).index).channel ∧
      cmd.slave = (ctl.devices (r.channel ctl).index).slave ∧
      cmd.sizeType = (ctl.devices (r.channel ctl).index).sizeType ∧ cmd.action = r.action := by
  have hprogram : ∃ n, ideProgram ctl (r.channel ctl).index r.action r.lba n = .ok cmd := by
    unfold command Ide.ideReadSectorsAsync Ide.ideWriteSectorsAsync at h
    repeat' split at h
    all_goals first
      | cases h
      | simp only [*]
        exact ⟨_, h⟩
  obtain ⟨n, hn⟩ := hprogram
  rw [ideProgram_eq (programmable_of_ideProgram hn)] at hn
  obtain rfl := Except.ok.inj hn
  exact ⟨rfl, rfl, rfl, rfl⟩

/-- The channel and the master/slave bit are visible in the writes. -/
theorem Reaches.unique {dev dev' : IdeDevice} {action action' : Action} {ws : List PortWrite}
    (h : Reaches dev action ws) (h' : Reaches dev' action' ws) :
    dev.channel = dev'.channel ∧ dev.slave = dev'.slave := by
  obtain ⟨w, hw, hreg⟩ := h.select.1
  constructor
  · rw [← h.channel w hw, h'.channel w hw]
  · rw [← h.select.2 w hw hreg, h'.select.2 w hw hreg]

theorem controllerOf_devices {channels : Channel → IdeChannel} {drives : Nat → Option Drive}
    {i : Nat} {d : Drive} (h : drives i = some d) :
    (controllerOf channels drives).devices i = ⟨true, decide (i % 2 = 1), d.sizeType,
      if i / 2 = 1 then .secondary else .primary⟩ := by
  simp [controllerOf, initIdeDevices, initIdeDevice, h]

theorem controllerOf_primary (channels : Channel → IdeChannel) (drives : Nat → Option Drive)
    {i : Nat} (hi : i < 2) : ((controllerOf channels drives).devices i).channel = .primary ∧
      ((controllerOf channels drives).devices i).slave = decide (i = 1) := by
  have hmod : i % 2 = i := Nat.mod_eq_of_lt hi
  have hdiv : i / 2 ≠ 1 := by omega
  cases h : drives i with
  | none => simp [controllerOf, initIdeDevices, initIdeDevice, h, hmod]
  | some d => simp [controllerOf, initIdeDevices, initIdeDevice, h, hmod, hdiv]

theorem command_of_valid {channels : Channel → IdeChannel} {drives : Nat → Option Drive}
    {r : StorRequest} (h : Valid channels drives r) (hzero : r.device = 0) :
    ∃ cmd, command (controllerOf channels drives) r = .ok cmd := by
  obtain ⟨d, hd, -, hsize⟩ := h.drive
  obtain ⟨n, hn, hwrite⟩ := h.chunks
  rw [hzero] at hd
  have hdev := @controllerOf_devices channels drives 0 d hd
  have hindex : (r.channel (controllerOf channels drives)).index = 0 := by
    rw [StorRequest.channel, hzero, hdev]
    rfl
  have hprog : Programmable (controllerOf channels drives) 0 := by
    refine ⟨(h.dma _).2, ?_⟩
    rw [hdev]
    exact hsize
  have hdma : ((controllerOf channels drives).channels
      ((controllerOf channels drives).devices 0).channel).hasDma = true := (h.dma _).1
  cases haction : r.action with
  | read =>
    simp only [command, haction, Ide.ideReadSectorsAsync, hindex, hdma, hn, ideProgram_eq hprog]
    exact ⟨_, rfl⟩
  | write =>
    have hne : (n != 0) = true := by simpa using hwrite haction
    simp only [command, haction, Ide.ideWriteSectorsAsync, hindex, hdma, hn, hne, assert,
      ideProgram_eq hprog]
    exact ⟨_, rfl⟩

/-- Over all configurations of drives: the request reaches its drive exactly if that is the
master of the primary channel. -/
theorem reaches_drive_iff (channels : Channel → IdeChannel) (drives : Nat → Option Drive)
    (prdt : Channel → Nat) {r : StorRequest} (h : Valid channels drives r) :
    RequestReaches (controllerOf channels drives) prdt r ↔ r.device = 0 := by
  obtain ⟨d, hd, -, -⟩ := h.drive
  have hindex := h.index
  have hdev := @controllerOf_devices channels drives r.device d hd
  constructor
  · intro hreaches
    obtain ⟨ws, hws, hown⟩ := hreaches
    obtain ⟨cmd, hcmd, rfl⟩ := (makeRequest_writes prdt).1 hws
    obtain ⟨hchannel, hslave, hsize, -⟩ := command_eq hcmd
    obtain ⟨hsameChannel, hsameSlave⟩ :=
      hown.unique (reaches_writes prdt r.chunkList hchannel hslave hsize)
    -- the entry that was programmed is one of the first two
    have hprimary := controllerOf_primary channels drives
      (show (r.channel (controllerOf channels drives)).index < 2 by
        cases r.channel (controllerOf channels drives) <;> decide)
    rw [hprimary.1] at hsameChannel
    rw [hprimary.2, StorRequest.channel, hsameChannel, hdev] at hsameSlave
    rw [hdev] at hsameChannel
    have hmaster : ¬ r.device % 2 = 1 := by simpa [Channel.index] using hsameSlave
    have hlow : ¬ r.device / 2 = 1 := by
      intro hone
      simp [hone] at hsameChannel
    omega
  · intro hzero
    obtain ⟨cmd, hcmd⟩ := command_of_valid h hzero
    obtain ⟨hchannel, hslave, hsize, haction⟩ := command_eq hcmd
    have hsame : (r.channel (controllerOf channels drives)).index = r.device := by
      rw [StorRequest.channel, hdev, hzero]
      rfl
    rw [hsame] at hchannel hslave hsize
    refine ⟨_, (makeRequest_writes prdt).2 ⟨cmd, hcmd, rfl⟩, ?_⟩
    rw [← haction]
    exact reaches_writes prdt r.chunkList hchannel hslave hsize

/-- A large master and a small slave on the primary channel. -/
def masterAndSlave : Nat → Option Drive
  | 0 => some ⟨.lba48, true⟩
  | 1 => some ⟨.lba28, true⟩
  | _ => none

def dmaChannels : Channel → IdeChannel := fun _ => ⟨true, true⟩

/-- Read one sector into the page at 0x1000. -/
def readSector (device : Nat) : StorRequest := ⟨16, device, 5, [(0x1000, 1)], .read, true⟩

theorem readSector_valid {device : Nat} (h : device < 2) :
    Valid dmaChannels masterAndSlave (readSector device) where
  dma := fun _ => ⟨rfl, rfl⟩
  drive := by
    match device, h with
    | 0, _ => exact ⟨_, rfl, rfl, by decide⟩
    | 1, _ => exact ⟨_, rfl, rfl, by decide⟩
  index := by
    show device < 4
    omega
  chunks := ⟨1, rfl, nofun⟩

theorem master_reached : Valid dmaChannels masterAndSlave (readSector 0) ∧
    RequestReaches (controllerOf dmaChannels masterAndSlave) (fun _ => 0x2000) (readSector 0) := by
  have h := readSector_valid (show 0 < 2 by decide)
  exact ⟨h, (reaches_drive_iff dmaChannels masterAndSlave (fun _ => 0x2000) h).2 rfl⟩

/-- A read of the slave is given to the master, as a 48-bit command. -/
theorem slave_read_goes_to_master : Valid dmaChannels masterAndSlave (readSector 1) ∧
    (∃ ws, makeRequest (controllerOf dmaChannels masterAndSlave) (fun _ => 0x2000)
        (readSector 1) = .ok ws ∧
      ⟨.primary, .hddevsel, 0xE0⟩ ∈ ws ∧ ⟨.primary, .command, 0x25⟩ ∈ ws) ∧
    ¬ RequestReaches (controllerOf dmaChannels masterAndSlave) (fun _ => 0x2000)
      (readSector 1) := by
  have hrun : ∃ ws, makeRequest (controllerOf dmaChannels masterAndSlave) (fun _ => 0x2000)
        (readSector 1) = .ok ws ∧
      ⟨.primary, .hddevsel, 0xE0⟩ ∈ ws ∧ ⟨.primary, .command, 0x25⟩ ∈ ws := by
    decide +kernel
  refine ⟨readSector_valid (by decide), hrun, fun hreaches => ?_⟩
  obtain ⟨ws, hws, hmaster, -⟩ := hrun
  obtain ⟨ws', hws', hown⟩ := hreaches
  obtain rfl : ws = ws' := Except.ok.inj (hws.symm.trans hws')
  exact absurd (hown.select.2 _ hmaster rfl) (by decide)

end X86Kernel.Ide.Ports
