import X86Kernel.Block.Ide

/- The status registers under the two interrupt handlers (`primary_irq`, `secondary_irq`,
   `send_bm_cmd`, `recv_bm_status` and `send_bm_status` in
   `kernel/arch/i386/drivers/pci/ide.c`). `Ide.lean` gives a handler the two values it reads;
   here they are read from the registers, in the order of the source.

   A handler stops the bus master, clears IRQ and ERR by writing ones to them, and reads the
   status register after that. What is proved: the request is told of an error exactly if the
   drive reports one, so an error of the bus master reaches the callback only together with one
   of the drive (`dma_error_reported_iff`).

   What a write to the bus master does to the rest of its status is not fixed: `BusMaster` may
   be any device whose IRQ and ERR bits are cleared by ones.

   Correspondence (C ↔ Lean):
     `send_bm_cmd`, `send_bm_status`  ↔ `sendBmCmd`, `sendBmStatus`
     `recv_bm_status`                 ↔ `recvBmStatus`
     `ide_get_status`                 ↔ `ChannelRegs.drvStatus`
     `primary_irq`, `secondary_irq`   ↔ `primaryIrqAt`, `secondaryIrqAt` -/
namespace X86Kernel.Ide.Status

variable {σ : Type}

/-- `ATA_BM_STATUS_IRQ | ATA_BM_STATUS_ERR`. -/
def bmStatusIrqErr : Nat := 0x02 ||| 0x01

/-- What the status register holds after a write to it, and to the command register. -/
structure BusMaster where
  writeStatus : Nat → Nat → Nat
  writeCmd : Nat → Nat → Nat

/-- IRQ and ERR are cleared by writing 1. -/
structure BusMaster.ClearsOnes (bm : BusMaster) : Prop where
  irq : ∀ status v, (bm.writeStatus status v).testBit 1 = (status.testBit 1 && !v.testBit 1)
  err : ∀ status v, (bm.writeStatus status v).testBit 0 = (status.testBit 0 && !v.testBit 0)

/-- The status registers of the bus master and of the drive. -/
structure ChannelRegs where
  bmStatus : Nat
  drvStatus : Nat

section Handlers

variable (bm : BusMaster) (ctl : Controller)

def sendBmCmd (c : Channel) (regs : ChannelRegs) (cmd : Nat) : Kernel ChannelRegs :=
  if (ctl.channels c).dmaIo then .ok { regs with bmStatus := bm.writeCmd regs.bmStatus cmd }
  else .error .abort

def recvBmStatus (c : Channel) (regs : ChannelRegs) : Kernel Nat :=
  if (ctl.channels c).dmaIo then .ok regs.bmStatus else .error .abort

def sendBmStatus (c : Channel) (regs : ChannelRegs) (status : Nat) : Kernel ChannelRegs :=
  if (ctl.channels c).dmaIo then .ok { regs with bmStatus := bm.writeStatus regs.bmStatus status }
  else .error .abort

/-- `primary_irq`. The registers are not looked at again once the callback runs. -/
def primaryIrqAt (callback : StorRequest → Int → IdeVars σ → Kernel (IdeVars σ))
    (regs : ChannelRegs) (s : IdeVars σ) : Kernel (IdeVars σ) :=
  match idePopQueue s .primary with
  | none => do
    let regs ← sendBmCmd bm ctl .primary regs 0
    let _ ← sendBmStatus bm ctl .primary regs bmStatusIrqErr
    return s
  | some (item, s) => do
    let regs ← sendBmCmd bm ctl .primary regs 0
    let regs ← sendBmStatus bm ctl .primary regs bmStatusIrqErr
    let bmStatus ← recvBmStatus ctl .primary regs
    let drvStatus := regs.drvStatus
    let result := irqResult bmStatus drvStatus
    let s ← if item.callback then callback item result (s.note (.called item result)) else .ok s
    irqIssueNext ctl s .primary

/-- `secondary_irq` calls the callback without testing the pointer. -/
def secondaryIrqAt (callback : StorRequest → Int → IdeVars σ → Kernel (IdeVars σ))
    (regs : ChannelRegs) (s : IdeVars σ) : Kernel (IdeVars σ) :=
  match idePopQueue s .secondary with
  | none => do
    let regs ← sendBmCmd bm ctl .secondary regs 0
    let _ ← sendBmStatus bm ctl .secondary regs bmStatusIrqErr
    return s
  | some (item, s) => do
    let regs ← sendBmCmd bm ctl .secondary regs 0
    let regs ← sendBmStatus bm ctl .secondary regs bmStatusIrqErr
    let bmStatus ← recvBmStatus ctl .secondary regs
    let drvStatus := regs.drvStatus
    let result := irqResult bmStatus drvStatus
    let s ← if item.callback then callback item result (s.note (.called item result))
      else .error .nullDeref
    irqIssueNext ctl s .secondary

/-- The handler of a channel. -/
def irqAt : Channel → (StorRequest → Int → IdeVars σ → Kernel (IdeVars σ)) → ChannelRegs →
    IdeVars σ → Kernel (IdeVars σ)
  | .primary => primaryIrqAt bm ctl
  | .secondary => secondaryIrqAt bm ctl

end Handlers

/-- The status a handler reads. -/
def clearedStatus (bm : BusMaster) (regs : ChannelRegs) : Nat :=
  bm.writeStatus (bm.writeCmd regs.bmStatus 0) bmStatusIrqErr

/-- A handler is the one of `Ide.lean` with the status as it is after the writes. -/
theorem irqAt_eq (bm : BusMaster) (ctl : Controller) (c : Channel)
    (callback : StorRequest → Int → IdeVars σ → Kernel (IdeVars σ)) (regs : ChannelRegs)
    (s : IdeVars σ) :
    irqAt bm ctl c callback regs s =
      irq ctl callback c (clearedStatus bm regs) regs.drvStatus s := by
  cases c with
  | primary =>
    show primaryIrqAt bm ctl callback regs s = primaryIrq ctl callback _ _ s
    unfold primaryIrqAt primaryIrq sendBmCmd sendBmStatus recvBmStatus
    by_cases hio : (ctl.channels .primary).dmaIo = true
    · cases hpop : idePopQueue s .primary with
      | none => simp only [hio, if_true, ok_bind, Bool.not_true, Bool.false_eq_true, if_false]; rfl
      | some p =>
        simp only [hio, if_true, ok_bind, Bool.not_true, Bool.false_eq_true, if_false]
        unfold clearedStatus
        generalize callback p.1 _ _ = r
        cases p.1.callback <;> cases r <;> rfl
    · cases hpop : idePopQueue s .primary <;> simp [hio] <;> rfl
  | secondary =>
    show secondaryIrqAt bm ctl callback regs s = secondaryIrq ctl callback _ _ s
    unfold secondaryIrqAt secondaryIrq sendBmCmd sendBmStatus recvBmStatus
    by_cases hio : (ctl.channels .secondary).dmaIo = true
    · cases hpop : idePopQueue s .secondary with
      | none => simp only [hio, if_true, ok_bind, Bool.not_true, Bool.false_eq_true, if_false]; rfl
      | some p =>
        simp only [hio, if_true, ok_bind, Bool.not_true, Bool.false_eq_true, if_false]
        unfold clearedStatus
        generalize callback p.1 _ _ = r
        cases p.1.callback <;> cases r <;> rfl
    · cases hpop : idePopQueue s .secondary <;> simp [hio] <;> rfl

/-- The bits the handlers test. -/
def ChannelRegs.BmErr (regs : ChannelRegs) : Prop := regs.bmStatus.testBit 0 = true

def ChannelRegs.DrvErr (regs : ChannelRegs) : Prop := regs.drvStatus.testBit 0 = true

theorem and_one_ne_zero (n : Nat) : n &&& 1 ≠ 0 ↔ n.testBit 0 = true := by
  rw [Nat.and_one_is_mod, Nat.testBit_zero, decide_eq_true_eq]
  omega

theorem irqResult_cleared {bm : BusMaster} (hbm : bm.ClearsOnes) (regs : ChannelRegs) :
    irqResult (clearedStatus bm regs) regs.drvStatus = -1 ↔ regs.DrvErr := by
  have hclear : (clearedStatus bm regs).testBit 0 = false := by
    rw [clearedStatus, hbm.err, show bmStatusIrqErr.testBit 0 = true by decide, Bool.not_true,
      Bool.and_false]
  have hbmZero : ¬ (clearedStatus bm regs &&& 1 ≠ 0) := by
    rw [and_one_ne_zero, hclear]
    exact Bool.false_ne_true
  unfold irqResult ChannelRegs.DrvErr
  rw [← and_one_ne_zero]
  by_cases hdrv : regs.drvStatus &&& 1 ≠ 0
  · rw [if_pos (.inr hdrv)]
    exact ⟨fun _ => hdrv, fun _ => rfl⟩
  · rw [if_neg fun h => h.elim hbmZero hdrv]
    exact ⟨(fun h => by cases h), fun h => absurd h hdrv⟩

/-- The handler calls the callback of the request with this result, whatever the callback does,
and looks at the queue after it. -/
def CallsWith (bm : BusMaster) (ctl : Controller) (c : Channel) (regs : ChannelRegs)
    (s : IdeVars σ) (item : StorRequest) (rest : List StorRequest) (result : Int) : Prop :=
  ∀ callback : StorRequest → Int → IdeVars σ → Kernel (IdeVars σ),
    irqAt bm ctl c callback regs s = (do
      let s ← callback item result (((s.setQueue c rest).note (.popped item)).note
        (.called item result))
      irqIssueNext ctl s c)

theorem irq_callsWith (bm : BusMaster) {ctl : Controller} {c : Channel} {s : IdeVars σ}
    {item : StorRequest} {rest : List StorRequest} (hport : (ctl.channels c).dmaIo = true)
    (hqueue : s.queue c = item :: rest) (hcallback : item.callback = true) (regs : ChannelRegs) :
    CallsWith bm ctl c regs s item rest (irqResult (clearedStatus bm regs) regs.drvStatus) := by
  intro callback
  have hpop : idePopQueue s c = some (item, (s.setQueue c rest).note (.popped item)) := by
    rw [idePopQueue, hqueue]
  rw [irqAt_eq]
  cases c with
  | primary =>
    rw [irq, primaryIrq, hport, hpop]
    simp only [hcallback, Bool.not_true, Bool.false_eq_true, if_false, if_true]
    generalize callback item _ _ = r
    cases r <;> rfl
  | secondary =>
    rw [irq, secondaryIrq, hport, hpop]
    simp only [hcallback, Bool.not_true, Bool.false_eq_true, if_false, if_true]
    generalize callback item _ _ = r
    cases r <;> rfl

/-- On both channels: a completion with a queued request calls its callback with a result, and
that result says whether there was an error exactly if the bus master had none or the drive
reports one too. -/
theorem dma_error_reported_iff {bm : BusMaster} (hbm : bm.ClearsOnes) {ctl : Controller}
    {c : Channel} {s : IdeVars σ} {item : StorRequest} {rest : List StorRequest}
    (hport : (ctl.channels c).dmaIo = true) (hqueue : s.queue c = item :: rest)
    (hcallback : item.callback = true) (regs : ChannelRegs) :
    ∃ result, CallsWith bm ctl c regs s item rest result ∧
      ((result = -1 ↔ regs.BmErr ∨ regs.DrvErr) ↔ (regs.BmErr → regs.DrvErr)) := by
  refine ⟨_, irq_callsWith bm hport hqueue hcallback regs, ?_⟩
  rw [irqResult_cleared hbm]
  tauto

/-- A status register with nothing but the two bits and whatever else is written. -/
def plainBusMaster : BusMaster where
  writeStatus status v := status &&& (0xFF ^^^ (v &&& 0x03))
  writeCmd status _ := status

theorem plainBusMaster_clears : plainBusMaster.ClearsOnes where
  irq status v := by
    show (status &&& (0xFF ^^^ (v &&& 0x03))).testBit 1 = _
    rw [Nat.testBit_and, Nat.testBit_xor, Nat.testBit_and, show Nat.testBit 0xFF 1 = true by decide,
      show Nat.testBit 0x03 1 = true by decide, Bool.and_true, Bool.true_xor]
  err status v := by
    show (status &&& (0xFF ^^^ (v &&& 0x03))).testBit 0 = _
    rw [Nat.testBit_and, Nat.testBit_xor, Nat.testBit_and, show Nat.testBit 0xFF 0 = true by decide,
      show Nat.testBit 0x03 0 = true by decide, Bool.and_true, Bool.true_xor]

/-- One read is out on the primary channel. -/
def oneReadOut : IdeVars Unit := (IdeVars.init ()).setQueue .primary [readSector 0 0]

/-- Both report an error. -/
theorem bothErrors_reported : ∃ result,
    CallsWith plainBusMaster twoChannels .primary ⟨0x03, 0x51⟩ oneReadOut (readSector 0 0) []
      result ∧
      ((result = -1 ↔ ChannelRegs.BmErr ⟨0x03, 0x51⟩ ∨ ChannelRegs.DrvErr ⟨0x03, 0x51⟩) ↔
        (ChannelRegs.BmErr ⟨0x03, 0x51⟩ → ChannelRegs.DrvErr ⟨0x03, 0x51⟩)) :=
  dma_error_reported_iff plainBusMaster_clears rfl rfl rfl ⟨0x03, 0x51⟩

/-- The bus master alone does: the callback is told of success. -/
theorem busMasterError_lost : ChannelRegs.BmErr ⟨0x03, 0x50⟩ ∧
    CallsWith plainBusMaster twoChannels .primary ⟨0x03, 0x50⟩ oneReadOut (readSector 0 0) [] 1 :=
  ⟨rfl, irq_callsWith plainBusMaster rfl rfl rfl ⟨0x03, 0x50⟩⟩

end X86Kernel.Ide.Status
