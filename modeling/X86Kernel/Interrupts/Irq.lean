import X86Kernel.Core
import X86Kernel.Interrupts.Stubs

/- The interrupt descriptor table and the table of callbacks
   (`kernel/arch/i386/interrupts/irq.c`).

   What is proved: an interrupt below 48 calls the callback that was registered last for its
   vector, with a frame that says what the interrupt was, and the interrupted code goes on with its
   registers (`interrupt_dispatched`). A vector that no interrupt descriptor table has is written
   past the table of callbacks, which is a fault here.

   Addresses of code are taken as the linker gives them. `lidt` is left out, and what the callback
   for page faults prints; it ends in `abort`.

   Correspondence (C ↔ Lean):
     `idt_entry_t`           ↔ `IdtEntry`
     `set_idt_entry`         ↔ `setIdtEntry`
     `init_irq`              ↔ `initIrq`
     `irq_register_handler`  ↔ `irqRegisterHandler`
     `idt_c_handler`         ↔ `idtCHandler` -/
namespace X86Kernel.Irq
open Lib

/-- `idt_entry_t` -/
structure IdtEntry where
  offsetLow : BitVec 16
  segmentSelector : BitVec 16
  zero : BitVec 8
  typeAttr : BitVec 8
  offsetHigh : BitVec 16
  deriving DecidableEq

/-- `IDT_ENTRIES` -/
def idtEntries : Nat := 256

/-- `SEGMENT_SELECTOR_CODE_DPL0` -/
def segmentSelectorCodeDpl0 : BitVec 16 := 0x08

/-- `IDT_FLAGS` -/
def idtFlags (type dpl : BitVec 8) : BitVec 8 := 0x80 ||| ((dpl &&& 3) <<< 5) ||| (type &&& 0xF)

/-- `IDT_INTERRUPT_32_DPL0` -/
def idtInterrupt32Dpl0 : BitVec 8 := idtFlags 0xE 0

/-- `IDT_TRAP_32_PL0` -/
def idtTrap32Pl0 : BitVec 8 := idtFlags 0xF 0

def setIdtEntry (handlerAddr : Word) (selector : BitVec 16) (typeAttr : BitVec 8) : IdtEntry where
  zero := 0
  offsetLow := (handlerAddr &&& 0xFFFF).setWidth 16
  offsetHigh := ((handlerAddr >>> 16) &&& 0xFFFF).setWidth 16
  segmentSelector := selector
  typeAttr := typeAttr

/-- What the processor reads from a gate. -/
def IdtEntry.offset (e : IdtEntry) : Word := e.offsetHigh ++ e.offsetLow

/-- A trap gate leaves interrupts on. -/
def IdtEntry.trap (e : IdtEntry) : Bool := e.typeAttr &&& 0xF == 0xF

/-- `interrupt_callback_entries[v]`, with the arguments on the stack. -/
abbrev Callback := Cpu → Cpu

structure IrqVars where
  idtEntries : Nat → IdtEntry
  interruptCallbackEntries : Nat → Option Callback

/-- The vectors with a trap gate. -/
def trapVectors : List Nat := [0x01, 0x03, 0x04]

/-- The calls of `set_idt_entry` for `isr0` to `isr47`. -/
def isrGates (isrAddr : Nat → Word) : List (Nat × IdtEntry) :=
  (List.range 0x30).map fun v =>
    (v, setIdtEntry (isrAddr v) segmentSelectorCodeDpl0
      (if v ∈ trapVectors then idtTrap32Pl0 else idtInterrupt32Dpl0))

/-- `IRQ_VECTOR_PAGE_FAULT` -/
def irqVectorPageFault : Nat := 14

def irqRegisterHandler (vars : IrqVars) (vector : Nat) (handle : Callback) : Kernel IrqVars :=
  if vector < idtEntries then
    .ok { vars with
      interruptCallbackEntries :=
        Function.update vars.interruptCallbackEntries vector (some handle) }
  else .error .outOfBounds

/-- `init_irq`: every gate halts, then the stubs. -/
def initIrq (isrAddr : Nat → Word) (cpuHalt : Word) (interruptPageFault : Callback) :
    Kernel IrqVars :=
  let gates : Nat → IdtEntry := fun _ =>
    setIdtEntry cpuHalt segmentSelectorCodeDpl0 idtInterrupt32Dpl0
  let gates := (isrGates isrAddr).foldl (fun gates g => Function.update gates g.1 g.2) gates
  irqRegisterHandler ⟨gates, fun _ => none⟩ irqVectorPageFault interruptPageFault

/-- `idt_c_handler`; the address of the frame is its argument. -/
def idtCHandler (vars : IrqVars) (c : Cpu) : Cpu :=
  let frame := readFrame c.mem (c.mem c.esp)
  match vars.interruptCallbackEntries frame.irqIndex.toNat with
  | some callback => callback c
  | none => c

/-! ## Delivery -/

/-- What is at an address that a gate names. -/
inductive Code where
  | stub (v : Nat)
  | cpuHalt
  deriving DecidableEq

/-- An interrupt with vector `v`; `none` where the processor stops. -/
def interrupt (codeAt : Word → Code) (vars : IrqVars) (c : Cpu) (v : Nat) (err : Option Word) :
    Option Cpu :=
  let gate := vars.idtEntries v
  match codeAt gate.offset with
  | .stub w => some (Cpu.exec (idtCHandler vars) (isr w)
      (c.deliver gate.offset (gate.segmentSelector.setWidth 32) gate.trap err))
  | .cpuHalt => none

/-- The stubs and `cpu_halt` are where the linker put them. -/
structure Linked (codeAt : Word → Code) (isrAddr : Nat → Word) (cpuHalt : Word) : Prop where
  stub : ∀ v < 0x30, codeAt (isrAddr v) = .stub v
  halt : codeAt cpuHalt = .cpuHalt

/-- The calls of `irq_register_handler` one after another. -/
def registerAll (vars : IrqVars) (regs : List (Nat × Callback)) : Kernel IrqVars :=
  regs.foldlM (fun vars r => irqRegisterHandler vars r.1 r.2) vars

/-- The callback registered last for a vector. -/
def lastRegistered (regs : List (Nat × Callback)) (v : Nat) : Option Callback :=
  (regs.reverse.find? fun r => r.1 == v).map (·.2)

theorem toNat_low (addr : Word) : ((addr &&& 0xFFFF).setWidth 16).toNat = addr.toNat % 2 ^ 16 := by
  have hmask : (addr &&& 0xFFFF).toNat = addr.toNat % 2 ^ 16 :=
    Nat.and_two_pow_sub_one_eq_mod addr.toNat 16
  rw [BitVec.toNat_setWidth, hmask, Nat.mod_mod]

theorem setIdtEntry_offset (addr : Word) (selector : BitVec 16) (attr : BitVec 8) :
    (setIdtEntry addr selector attr).offset = addr := by
  have hlow := toNat_low addr
  have hhigh := toNat_low (addr >>> 16)
  rw [BitVec.toNat_ushiftRight, Nat.shiftRight_eq_div_pow] at hhigh
  apply BitVec.eq_of_toNat_eq
  calc (setIdtEntry addr selector attr).offset.toNat
      = ((addr >>> 16 &&& 0xFFFF).setWidth 16).toNat <<< 16 |||
          ((addr &&& 0xFFFF).setWidth 16).toNat := BitVec.toNat_append _ _
    _ = addr.toNat / 2 ^ 16 % 2 ^ 16 * 2 ^ 16 + addr.toNat % 2 ^ 16 := by
        rw [← Nat.shiftLeft_add_eq_or_of_lt (BitVec.isLt _), Nat.shiftLeft_eq, hlow, hhigh]
    _ = addr.toNat := by
        have := addr.isLt
        omega

theorem setIdtEntry_trap (addr : Word) (selector : BitVec 16) (v : Nat) :
    (setIdtEntry addr selector (if v ∈ trapVectors then idtTrap32Pl0
      else idtInterrupt32Dpl0)).trap = decide (v ∈ trapVectors) := by
  unfold IdtEntry.trap setIdtEntry
  split_ifs with hv
  · simp [hv]
    decide
  · simp [hv]
    decide

theorem irqRegisterHandler_eq_ok {vars vars' : IrqVars} {v : Nat} {handle : Callback}
    (h : irqRegisterHandler vars v handle = .ok vars') :
    vars' = { vars with
      interruptCallbackEntries :=
        Function.update vars.interruptCallbackEntries v (some handle) } := by
  unfold irqRegisterHandler at h
  split_ifs at h
  exact (Except.ok.inj h).symm

/-- Registrations change no gate, and the last one for a vector stands. -/
theorem registerAll_eq_ok (regs : List (Nat × Callback)) {vars vars' : IrqVars}
    (h : registerAll vars regs = .ok vars') :
    vars'.idtEntries = vars.idtEntries ∧ ∀ v, vars'.interruptCallbackEntries v =
      (lastRegistered regs v).or (vars.interruptCallbackEntries v) := by
  induction regs generalizing vars with
  | nil =>
    cases h
    exact ⟨rfl, fun _ => rfl⟩
  | cons r regs ih =>
    obtain ⟨vars₁, hfirst, hrest⟩ := exists_of_bind_eq_ok h
    obtain ⟨hgates, hcallbacks⟩ := ih hrest
    rw [irqRegisterHandler_eq_ok hfirst] at hgates hcallbacks
    refine ⟨hgates, fun v => (hcallbacks v).trans ?_⟩
    unfold lastRegistered
    rw [List.reverse_cons, List.find?_append]
    by_cases hv : r.1 = v
    · subst hv
      simp
    · simp [hv, Ne.symm hv]

theorem foldl_update_range {α : Type} (f : Nat → α) (n : Nat) (t : Nat → α) (v : Nat) :
    ((List.range n).map fun i => (i, f i)).foldl (fun t g => Function.update t g.1 g.2) t v =
      if v < n then f v else t v := by
  induction n with
  | zero => rfl
  | succ n ih =>
    rw [List.range_succ, List.map_append, List.foldl_append]
    simp only [List.map_cons, List.map_nil, List.foldl_cons, List.foldl_nil]
    rw [Function.update_apply, ih]
    rcases Nat.lt_trichotomy v n with hlt | heq | hgt
    · rw [if_neg (by omega), if_pos hlt, if_pos (by omega)]
    · rw [if_pos heq, if_pos (by omega), heq]
    · rw [if_neg (by omega), if_neg (by omega), if_neg (by omega)]

theorem initIrq_eq_ok {isrAddr : Nat → Word} {cpuHalt : Word} {interruptPageFault : Callback}
    {vars : IrqVars} (h : initIrq isrAddr cpuHalt interruptPageFault = .ok vars) :
    (∀ v, vars.idtEntries v =
      if v < 0x30 then setIdtEntry (isrAddr v) segmentSelectorCodeDpl0
        (if v ∈ trapVectors then idtTrap32Pl0 else idtInterrupt32Dpl0)
      else setIdtEntry cpuHalt segmentSelectorCodeDpl0 idtInterrupt32Dpl0) ∧
      ∀ v, vars.interruptCallbackEntries v =
        if v = irqVectorPageFault then some interruptPageFault else none := by
  rw [irqRegisterHandler_eq_ok h]
  refine ⟨fun v => ?_, fun v => Function.update_apply _ irqVectorPageFault _ v⟩
  dsimp only
  rw [isrGates, foldl_update_range]

section Dispatch

variable {codeAt : Word → Code} {isrAddr : Nat → Word} {cpuHalt : Word}
  {interruptPageFault : Callback} {vars₀ vars : IrqVars} {regs : List (Nat × Callback)} {c : Cpu}
  {v : Nat} {err : Option Word} {bottom top : Word} {data : Set Word}

/-- What is called for a vector. -/
def handlerOf (interruptPageFault : Callback) (regs : List (Nat × Callback)) (v : Nat) : Callback :=
  ((lastRegistered regs v).or
    (if v = irqVectorPageFault then some interruptPageFault else none)).getD id

/-- The state in which the stub of a vector calls `idt_c_handler`. -/
def Cpu.dispatched (c : Cpu) (isr : Word) (v : Nat) (err : Option Word) : Cpu :=
  c.called isr 8 (v ∈ trapVectors) v err

theorem idtCHandler_eq (hinit : initIrq isrAddr cpuHalt interruptPageFault = .ok vars₀)
    (hregs : registerAll vars₀ regs = .ok vars) {d : Cpu}
    (hd : (readFrame d.mem (d.mem d.esp)).irqIndex.toNat = v) :
    idtCHandler vars d = handlerOf interruptPageFault regs v d := by
  obtain ⟨-, hcallbacks⟩ := registerAll_eq_ok regs hregs
  have hv := hcallbacks v
  rw [(initIrq_eq_ok hinit).2] at hv
  unfold idtCHandler handlerOf
  simp only [hd, hv]
  cases (lastRegistered regs v).or
      (if v = irqVectorPageFault then some interruptPageFault else none) with
  | none => rfl
  | some callback => rfl

variable (data) in
/-- An interrupt calls the callback registered last for its vector (before that, the one for page
faults), with a frame that says what the interrupt was, and interrupts off unless the gate is a
trap gate. If the callback keeps to the calling convention, the interrupted code goes on with its
registers. A vector that no stub is for stops the processor. -/
theorem interrupt_dispatched (hlinked : Linked codeAt isrAddr cpuHalt)
    (hinit : initIrq isrAddr cpuHalt interruptPageFault = .ok vars₀)
    (hregs : registerAll vars₀ regs = .ok vars) (hdeep : Deep bottom top c)
    (herr : err.isSome = hasErrorCode v) :
    (v < 0x30 →
      readFrame (c.dispatched (isrAddr v) v err).mem
          ((c.dispatched (isrAddr v) v err).mem (c.dispatched (isrAddr v) v err).esp) =
        frameOf c v err ∧
      (v ∉ trapVectors → (c.dispatched (isrAddr v) v err).eflags.getLsbD 9 = false) ∧
      (Callee top data (handlerOf interruptPageFault regs v) (c.dispatched (isrAddr v) v err) →
        interrupt codeAt vars c v err = some { c with
          mem := (handlerOf interruptPageFault regs v (c.dispatched (isrAddr v) v err)).mem })) ∧
    (0x30 ≤ v → interrupt codeAt vars c v err = none) := by
  obtain ⟨hgates, -⟩ := registerAll_eq_ok regs hregs
  have hgate := (initIrq_eq_ok hinit).1 v
  rw [← hgates] at hgate
  refine ⟨fun hv => ?_, fun hv => ?_⟩
  · rw [if_pos hv] at hgate
    have hoffset : (vars.idtEntries v).offset = isrAddr v := by
      rw [hgate, setIdtEntry_offset]
    have htrap : (vars.idtEntries v).trap = decide (v ∈ trapVectors) := by
      rw [hgate, setIdtEntry_trap]
    have hselector : (vars.idtEntries v).segmentSelector.setWidth 32 = (8 : Word) := by
      rw [hgate]
      rfl
    obtain ⟨hptr, hframe⟩ := called_frame c (isrAddr v) 8 (v ∈ trapVectors) v err rfl
    refine ⟨?_, fun hgated => ?_, fun hcallee => ?_⟩
    · exact (congrArg (readFrame _) hptr).trans hframe
    · rw [Cpu.dispatched, called_eflags, decide_eq_false hgated]
      simp
    · have hindex : (readFrame (c.dispatched (isrAddr v) v err).mem
          ((c.dispatched (isrAddr v) v err).mem
            (c.dispatched (isrAddr v) v err).esp)).irqIndex.toNat = v := by
        rw [Cpu.dispatched, hptr, hframe]
        exact Nat.mod_eq_of_lt (Nat.lt_trans hv (by decide))
      have hcall := idtCHandler_eq hinit hregs hindex
      have hreturns := interrupt_returns (idtCHandler vars) hdeep herr (hcallee.congr hcall)
      unfold interrupt
      simp only [hoffset, hselector, htrap, hlinked.stub v hv]
      rw [hreturns]
      exact congrArg (fun d : Cpu => some { c with mem := d.mem }) hcall
  · rw [if_neg (by omega)] at hgate
    unfold interrupt
    simp only [hgate, setIdtEntry_offset, hlinked.halt]

end Dispatch

/-- The stubs at every 16th byte, and `cpu_halt` at 0. -/
def isrAt (v : Nat) : Word := BitVec.ofNat 32 (0x1000 + 16 * v)

def codeAtAddress (a : Word) : Code :=
  if a = 0 then .cpuHalt else .stub ((a.toNat - 0x1000) / 16)

/-- A key is pressed while code is running: its handler stores to one dword. -/
theorem keyboard_dispatched :
    ∃ vars₀ vars, initIrq isrAt 0 id = .ok vars₀ ∧
      registerAll vars₀ [(0x21, storing 16 1)] = .ok vars ∧
      readFrame (resting.dispatched (isrAt 0x21) 0x21 none).mem
          ((resting.dispatched (isrAt 0x21) 0x21 none).mem
            (resting.dispatched (isrAt 0x21) 0x21 none).esp) =
        frameOf resting 0x21 none ∧
      ∃ mem, interrupt codeAtAddress vars resting 0x21 none = some { resting with mem } ∧
        mem 16 = 1 := by
  obtain ⟨vars₀, vars, hinit, hregs⟩ : ∃ vars₀ vars, initIrq isrAt 0 id = .ok vars₀ ∧
      registerAll vars₀ [(0x21, storing 16 1)] = .ok vars := ⟨_, _, rfl, rfl⟩
  have hlinked : Linked codeAtAddress isrAt 0 := ⟨by decide, rfl⟩
  have hdeep : Deep 0x1000 0x2000 resting := ⟨by decide, by decide, by decide⟩
  have herr : (none : Option Word).isSome = hasErrorCode 0x21 := rfl
  have hcallee : Callee 0x2000 ∅ (handlerOf id [(0x21, storing 16 1)] 0x21)
      (resting.dispatched (isrAt 0x21) 0x21 none) := by
    refine callee_storing 1 ?_ (Set.notMem_empty _)
    rw [Cpu.dispatched, called_esp]
    unfold Within
    decide
  obtain ⟨hframe, -, hreturns⟩ :=
    (interrupt_dispatched ∅ hlinked hinit hregs hdeep herr).1 (by decide)
  exact ⟨vars₀, vars, hinit, hregs, hframe, _, hreturns hcallee, rfl⟩

end X86Kernel.Irq
