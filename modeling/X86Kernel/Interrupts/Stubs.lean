import Mathlib.Data.BitVec
import X86Kernel.Lib.Run
import X86Kernel.Lib.Stack

/- The interrupt stubs (`kernel/arch/i386/interrupts/irq_defs.asm`): what the processor pushes when
   an interrupt is delivered, what a stub pushes for the handler in C, and the way back.

   What is proved: the handler finds the vector, the error code and the registers of the
   interrupted code where `irq_frame_t` says (`called_frame`), but not the state of the
   processor, which is there in the order that the processor pushes it in; and wherever
   interrupts come in, in handlers too, the interrupted code runs as if there were none
   (`interrupts_transparent`). The stubs for the time before paging, which no code installs, pass
   their two arguments the wrong way round where the processor pushes no error code
   (`early_stub_arguments`).

   Memory is dwords by address. `add` also sets flags, which are not modelled: `iretd` loads them.
   The handler is any function on the state that is there when it is called.

   Correspondence (assembly ↔ Lean):
     `ISR_NO_ERR`, `IRQ`  ↔ `isrNoErr`
     `ISR_ERR`            ↔ `isrErr`
     `isr0` to `isr47`    ↔ `isr`
     `irq_frame_t`        ↔ `IrqFrame`
     `ISR_NO_ERR`, `ISR_ERR` of `boot/isr.asm` ↔ `earlyIsrNoErr`, `earlyIsrErr` -/
namespace X86Kernel.Irq
open Lib

abbrev Word := BitVec 32

/-- The registers, and the dwords of memory. -/
structure Cpu where
  eax : Word
  ecx : Word
  edx : Word
  ebx : Word
  esp : Word
  ebp : Word
  esi : Word
  edi : Word
  eip : Word
  cs : Word
  eflags : Word
  mem : Word → Word

/-- The instructions that the stubs are made of. -/
inductive Instr where
  | push (v : Word)
  | pushEax
  | pushEsp
  | pushMem (disp : Word)
  | pushad
  | movEax (disp : Word)
  | addEsp (n : Word)
  | popad
  | call
  | iretd

def Cpu.push (c : Cpu) (v : Word) : Cpu :=
  { c with esp := c.esp - 4, mem := Function.update c.mem (c.esp - 4) v }

def Cpu.pushAll (c : Cpu) (vs : List Word) : Cpu := vs.foldl Cpu.push c

/-- `pushad`; the stack pointer is the one before. -/
def Cpu.pushad (c : Cpu) : Cpu :=
  c.pushAll [c.eax, c.ecx, c.edx, c.ebx, c.esp, c.ebp, c.esi, c.edi]

/-- `popad`; the word for the stack pointer is skipped. -/
def Cpu.popad (c : Cpu) : Cpu :=
  { c with
    edi := c.mem c.esp, esi := c.mem (c.esp + 4), ebp := c.mem (c.esp + 8)
    ebx := c.mem (c.esp + 16), edx := c.mem (c.esp + 20), ecx := c.mem (c.esp + 24)
    eax := c.mem (c.esp + 28), esp := c.esp + 32 }

/-- `iretd` to the same privilege level. -/
def Cpu.iretd (c : Cpu) : Cpu :=
  { c with
    eip := c.mem c.esp, cs := c.mem (c.esp + 4), eflags := c.mem (c.esp + 8), esp := c.esp + 12 }

def Cpu.step (handler : Cpu → Cpu) (c : Cpu) : Instr → Cpu
  | .push v => c.push v
  | .pushEax => c.push c.eax
  | .pushEsp => c.push c.esp
  | .pushMem disp => c.push (c.mem (c.esp + disp))
  | .pushad => c.pushad
  | .movEax disp => { c with eax := c.mem (c.esp + disp) }
  | .addEsp n => { c with esp := c.esp + n }
  | .popad => c.popad
  | .call => handler c
  | .iretd => c.iretd

def Cpu.exec (handler : Cpu → Cpu) (code : List Instr) (c : Cpu) : Cpu :=
  code.foldl (Cpu.step handler) c

/-! ## The stubs -/

/-- `PUSH_PLACEHOLDERS` -/
def pushPlaceholders : List Instr := [.push 0, .push 0]

/-- From the handler's return on, but for the error code of the processor. -/
def restore : List Instr := [.addEsp 12, .popad, .addEsp 8]

/-- `ISR_NO_ERR`, and `IRQ`. -/
def isrNoErr (v : Word) : List Instr :=
  pushPlaceholders ++ [.pushad, .push v, .push 0, .pushEsp, .call] ++ restore ++ [.iretd]

/-- `ISR_ERR` -/
def isrErr (v : Word) : List Instr :=
  pushPlaceholders ++ [.pushad, .movEax 40, .push v, .pushEax, .pushEsp, .call] ++ restore ++
    [.addEsp 4, .iretd]

/-- The vectors that `ISR_ERR` is written for. -/
def isrErrVectors : List Nat := [8, 10, 11, 12, 13, 14, 17, 21, 29, 30]

/-- `isr0` to `isr47`. -/
def isr (v : Nat) : List Instr :=
  if v ∈ isrErrVectors then isrErr (BitVec.ofNat 32 v) else isrNoErr (BitVec.ofNat 32 v)

/-- The exceptions that the processor pushes an error code for. -/
def hasErrorCode (v : Nat) : Bool :=
  v = 8 || (10 ≤ v && v ≤ 14) || v = 17 || v = 21 || v = 29 || v = 30

/-- The gate's address and selector are loaded; an interrupt gate clears IF, a trap gate does
not. -/
def Cpu.through (c : Cpu) (offset selector : Word) (trap : Bool) : Cpu :=
  { c with
    eip := offset, cs := selector
    eflags := if trap then c.eflags else c.eflags &&& ~~~0x200 }

/-- An interrupt is delivered through a gate: flags, `cs` and `eip` are pushed, and then the error
code if there is one. -/
def Cpu.deliver (c : Cpu) (offset selector : Word) (trap : Bool) (err : Option Word) : Cpu :=
  (c.through offset selector trap).pushAll ([c.eflags, c.cs, c.eip] ++ err.toList)

/-- `irq_frame_t` -/
structure IrqFrame where
  errCode : Word
  irqIndex : Word
  edi : Word
  esi : Word
  ebp : Word
  espDummy : Word
  ebx : Word
  edx : Word
  ecx : Word
  eax : Word
  userEsp : Word
  userSs : Word
  eflags : Word
  cs : Word
  eip : Word

/-- The frame at an address. -/
def readFrame (m : Word → Word) (p : Word) : IrqFrame where
  errCode := m p
  irqIndex := m (p + 4)
  edi := m (p + 8)
  esi := m (p + 12)
  ebp := m (p + 16)
  espDummy := m (p + 20)
  ebx := m (p + 24)
  edx := m (p + 28)
  ecx := m (p + 32)
  eax := m (p + 36)
  userEsp := m (p + 40)
  userSs := m (p + 44)
  eflags := m (p + 48)
  cs := m (p + 52)
  eip := m (p + 56)

/-- The words of the frame and of what is behind it on the stack, from the frame up. -/
def frameWords (c : Cpu) (v : Nat) (err : Option Word) : List Word :=
  [err.getD 0, BitVec.ofNat 32 v, c.edi, c.esi, c.ebp, c.esp - (5 + err.toList.length) • 4, c.ebx,
    c.edx, c.ecx, c.eax, 0, 0] ++ err.toList ++ [c.eip, c.cs, c.eflags]

/-- The state in which a stub calls its handler, with the address of the frame as the argument. -/
def Cpu.called (c : Cpu) (offset selector : Word) (trap : Bool) (v : Nat) (err : Option Word) :
    Cpu :=
  ({ c.through offset selector trap with eax := err.getD c.eax }).pushAll
    ((c.esp - (15 + err.toList.length) • 4) :: frameWords c v err).reverse

/-- The part of a stub before the call. -/
def enter (v : Word) (err : Option Word) : List Instr :=
  pushPlaceholders ++ [.pushad] ++
    (if err.isSome then [.movEax 40, .push v, .pushEax] else [.push v, .push 0]) ++ [.pushEsp]

/-- The part of a stub behind the call. -/
def leave (err : Option Word) : List Instr :=
  restore ++ (if err.isSome then [.addEsp 4] else []) ++ [.iretd]

/-! ## Pushing -/

/-- Memory after some pushes, the first one below `sp`. -/
def pushMem (m : Word → Word) (sp : Word) : List Word → Word → Word
  | [] => m
  | v :: vs => pushMem (Function.update m (sp - 4) v) (sp - 4) vs

@[simp] theorem push_eq (c : Cpu) (v : Word) :
    c.push v = { c with esp := c.esp - 4, mem := pushMem c.mem c.esp [v] } := rfl

theorem sub_nsmul_succ (sp : Word) (n : Nat) : sp - 4 - n • 4 = sp - (n + 1) • 4 := by
  rw [succ_nsmul', sub_sub]

theorem pushAll_eq (c : Cpu) (vs : List Word) :
    c.pushAll vs =
      { c with esp := c.esp - vs.length • 4, mem := pushMem c.mem c.esp vs } := by
  induction vs generalizing c with
  | nil => simp [Cpu.pushAll, pushMem]
  | cons v vs ih =>
    calc c.pushAll (v :: vs) = (c.push v).pushAll vs := rfl
      _ = _ := by simp only [ih, push_eq, pushMem, List.length_cons, sub_nsmul_succ]

theorem holdsAt_pushMem (m : Word → Word) (sp : Word) (vs ws : List Word)
    (h : HoldsAt 4 m sp ws) (hroom : Room (4 : Word) (vs.length + ws.length)) :
    HoldsAt 4 (pushMem m sp vs) (sp - vs.length • 4) (vs.reverse ++ ws) := by
  induction vs generalizing m sp ws with
  | nil => simpa [pushMem] using h
  | cons v vs ih =>
    have hlen : vs.length + (v :: ws).length = (v :: vs).length + ws.length := by
      rw [List.length_cons, List.length_cons]
      omega
    have hpush := h.push (x := v) (hroom.mono (Nat.le_add_left _ _))
    have hrest := ih _ _ _ hpush (hlen ▸ hroom)
    rw [sub_nsmul_succ] at hrest
    rw [List.reverse_cons, List.append_assoc]
    exact hrest

theorem room_of_lt {n : Nat} (h : n < 2 ^ 30) : Room (4 : Word) n := by
  intro i hi heq
  have htoNat := congrArg BitVec.toNat heq
  rw [nsmul_eq_mul, BitVec.toNat_mul] at htoNat
  simp at htoNat
  omega

theorem hasErrorCode_iff {v : Nat} : hasErrorCode v = true ↔ v ∈ isrErrVectors := by
  simp [hasErrorCode, isrErrVectors]
  omega

theorem exec_append (handler : Cpu → Cpu) (xs ys : List Instr) (c : Cpu) :
    c.exec handler (xs ++ ys) = (c.exec handler xs).exec handler ys :=
  List.foldl_append

theorem pushAll_append (c : Cpu) (xs ys : List Word) :
    (c.pushAll xs).pushAll ys = c.pushAll (xs ++ ys) := by
  simp only [Cpu.pushAll, List.foldl_append]

section Steps

variable (handler : Cpu → Cpu) (c : Cpu) (vs : List Word)

theorem step_push (v : Word) :
    (c.pushAll vs).step handler (.push v) = c.pushAll (vs ++ [v]) :=
  pushAll_append c vs [v]

theorem step_pushEsp :
    (c.pushAll vs).step handler .pushEsp = c.pushAll (vs ++ [c.esp - vs.length • 4]) := by
  have hesp : (c.pushAll vs).esp = c.esp - vs.length • 4 := by rw [pushAll_eq]
  rw [← hesp]
  exact pushAll_append c vs [(c.pushAll vs).esp]

theorem step_pushEax :
    (c.pushAll vs).step handler .pushEax = c.pushAll (vs ++ [c.eax]) := by
  have heax : (c.pushAll vs).eax = c.eax := by rw [pushAll_eq]
  rw [← heax]
  exact pushAll_append c vs [(c.pushAll vs).eax]

theorem step_pushad :
    (c.pushAll vs).step handler .pushad = c.pushAll (vs ++
      [c.eax, c.ecx, c.edx, c.ebx, c.esp - vs.length • 4, c.ebp, c.esi, c.edi]) := by
  have hregs : (c.pushAll vs).pushad = (c.pushAll vs).pushAll
      [c.eax, c.ecx, c.edx, c.ebx, c.esp - vs.length • 4, c.ebp, c.esi, c.edi] := by
    unfold Cpu.pushad
    rw [pushAll_eq c vs]
  exact hregs.trans (pushAll_append c vs _)

end Steps

theorem pushAll_read (c : Cpu) (vs : List Word) {x : Word} (i : Nat)
    (hi : vs.reverse[i]? = some x) (hlen : vs.length < 2 ^ 30) :
    (c.pushAll vs).mem (c.esp - vs.length • 4 + i • 4) = x := by
  have hroom : Room (4 : Word) (vs.length + ([] : List Word).length) := room_of_lt hlen
  have hholds := holdsAt_pushMem c.mem c.esp vs [] trivial hroom
  rw [List.append_nil] at hholds
  rw [pushAll_eq]
  exact hholds.get hi

theorem step_movEax (handler : Cpu → Cpu) (c : Cpu) (vs : List Word) {x : Word} (i : Nat)
    (hi : vs.reverse[i]? = some x) (hlen : vs.length < 2 ^ 30) :
    (c.pushAll vs).step handler (.movEax (i • 4)) = ({ c with eax := x }).pushAll vs := by
  have hesp : (c.pushAll vs).esp = c.esp - vs.length • 4 := by rw [pushAll_eq]
  unfold Cpu.step
  dsimp only
  rw [hesp, pushAll_read c vs i hi hlen, pushAll_eq, pushAll_eq]

/-! ## Into the handler and back -/

theorem exec_enter_none (handler : Cpu → Cpu) (c : Cpu) (offset selector : Word) (trap : Bool)
    (v : Nat) :
    Cpu.exec handler (enter (BitVec.ofNat 32 v) none) (c.deliver offset selector trap none) =
      c.called offset selector trap v none := by
  simp only [Cpu.exec, enter, pushPlaceholders, Cpu.deliver, step_push, step_pushad, step_pushEsp,
    List.foldl_cons, List.foldl_nil, List.cons_append, List.nil_append, Option.toList_none,
    Option.isSome_none, Bool.false_eq_true, if_false, Cpu.called, frameWords, Cpu.through,
    Option.getD_none, List.reverse_cons, List.reverse_nil, List.length_cons, List.length_nil,
    Nat.reduceAdd, zero_add]

theorem exec_enter_some (handler : Cpu → Cpu) (c : Cpu) (offset selector : Word) (trap : Bool)
    (v : Nat) (e : Word) :
    Cpu.exec handler (enter (BitVec.ofNat 32 v) (some e))
        (c.deliver offset selector trap (some e)) =
      c.called offset selector trap v (some e) := by
  have hload := step_movEax handler (c.through offset selector trap)
    [c.eflags, c.cs, c.eip, e, 0, 0, c.eax, c.ecx, c.edx, c.ebx, c.esp - 6 • 4, c.ebp, c.esi, c.edi]
    10 (x := e) rfl (by simp)
  have hdisp : (10 • 4 : Word) = 40 := rfl
  rw [hdisp] at hload
  simp only [Cpu.exec, enter, pushPlaceholders, Cpu.deliver, step_push, step_pushad,
    List.foldl_cons, List.foldl_nil, List.cons_append, List.nil_append, Option.toList_some,
    Option.isSome_some, if_true, Cpu.called, frameWords,
    Option.getD_some, List.reverse_cons, List.reverse_nil, List.length_cons, List.length_nil,
    Nat.reduceAdd, zero_add, Cpu.through] at hload ⊢
  rw [hload]
  simp only [step_push, step_pushEax, step_pushEsp, List.cons_append, List.nil_append,
    List.length_cons, List.length_nil, Nat.reduceAdd, zero_add]

/-- What a stub does behind the call, if the frame is as it was. -/
theorem exec_leave (handler : Cpu → Cpu) {c d : Cpu} {v : Nat} {err : Option Word}
    (hesp : d.esp = c.esp - (16 + err.toList.length) • 4)
    (hframe : HoldsAt 4 d.mem (d.esp + 4) (frameWords c v err)) :
    d.exec handler (leave err) = { c with mem := d.mem } := by
  cases err with
  | none =>
    have hback : d.esp + 64 = c.esp := by
      rw [hesp]
      exact sub_add_cancel c.esp _
    simp only [frameWords, Option.toList_none, List.append_nil, List.cons_append, List.nil_append,
      HoldsAt, add_assoc, BitVec.reduceAdd, BitVec.ofNat_eq_ofNat, and_true] at hframe
    obtain ⟨-, -, hedi, hesi, hebp, -, hebx, hedx, hecx, heax, -, -, heip, hcs, heflags⟩ := hframe
    simp only [Cpu.exec, leave, restore, Option.isSome_none, Bool.false_eq_true, if_false,
      List.append_nil, List.cons_append, List.nil_append, List.foldl_cons, List.foldl_nil, Cpu.step,
      Cpu.popad, Cpu.iretd, add_assoc, BitVec.reduceAdd, BitVec.ofNat_eq_ofNat, hedi, hesi, hebp,
      hebx, hedx, hecx, heax, heip, hcs, heflags]
    rw [← hback]
    rfl
  | some e =>
    have hback : d.esp + 68 = c.esp := by
      rw [hesp]
      exact sub_add_cancel c.esp _
    simp only [frameWords, Option.toList_some, List.cons_append, List.nil_append,
      HoldsAt, add_assoc, BitVec.reduceAdd, BitVec.ofNat_eq_ofNat, and_true] at hframe
    obtain ⟨-, -, hedi, hesi, hebp, -, hebx, hedx, hecx, heax, -, -, -, heip, hcs, heflags⟩ :=
      hframe
    simp only [Cpu.exec, leave, restore, Option.isSome_some, if_true, List.cons_append,
      List.nil_append, List.foldl_cons, List.foldl_nil, Cpu.step, Cpu.popad, Cpu.iretd, add_assoc,
      BitVec.reduceAdd, BitVec.ofNat_eq_ofNat, hedi, hesi, hebp, hebx, hedx, hecx, heax, heip, hcs,
      heflags]
    rw [← hback]
    rfl

theorem isr_eq {v : Nat} {err : Option Word} (herr : err.isSome = hasErrorCode v) :
    isr v = enter (BitVec.ofNat 32 v) err ++ .call :: leave err := by
  cases err with
  | none =>
    have hv : v ∉ isrErrVectors := by
      rw [← hasErrorCode_iff, ← herr]
      decide
    rw [isr, if_neg hv]
    rfl
  | some e =>
    have hv : v ∈ isrErrVectors := hasErrorCode_iff.1 herr.symm
    rw [isr, if_pos hv]
    rfl

theorem exec_isr (handler : Cpu → Cpu) (c : Cpu) (offset selector : Word) (trap : Bool) {v : Nat}
    {err : Option Word} (herr : err.isSome = hasErrorCode v) :
    Cpu.exec handler (isr v) (c.deliver offset selector trap err) =
      Cpu.exec handler (leave err) (handler (c.called offset selector trap v err)) := by
  have henter : Cpu.exec handler (enter (BitVec.ofNat 32 v) err)
      (c.deliver offset selector trap err) = c.called offset selector trap v err := by
    cases err with
    | none => exact exec_enter_none handler c offset selector trap v
    | some e => exact exec_enter_some handler c offset selector trap v e
  rw [isr_eq herr, exec_append, henter]
  rfl

theorem called_eflags (c : Cpu) (offset selector : Word) (trap : Bool) (v : Nat)
    (err : Option Word) :
    (c.called offset selector trap v err).eflags =
      if trap then c.eflags else c.eflags &&& ~~~0x200 :=
  congrArg Cpu.eflags (pushAll_eq _ _)

theorem frameWords_length (c : Cpu) (v : Nat) (err : Option Word) :
    (frameWords c v err).length = 15 + err.toList.length := by
  cases err with
  | none => rfl
  | some e => rfl

theorem length_toList_le (err : Option Word) : err.toList.length ≤ 1 := by
  cases err with
  | none => exact Nat.zero_le 1
  | some e => exact Nat.le_refl 1

theorem called_esp (c : Cpu) (offset selector : Word) (trap : Bool) (v : Nat)
    (err : Option Word) :
    (c.called offset selector trap v err).esp = c.esp - (16 + err.toList.length) • 4 := by
  cases err with
  | none => exact congrArg Cpu.esp (pushAll_eq _ _)
  | some e => exact congrArg Cpu.esp (pushAll_eq _ _)

theorem called_holds (c : Cpu) (offset selector : Word) (trap : Bool) (v : Nat)
    (err : Option Word) :
    HoldsAt 4 (c.called offset selector trap v err).mem (c.called offset selector trap v err).esp
      ((c.esp - (15 + err.toList.length) • 4) :: frameWords c v err) := by
  have herr := length_toList_le err
  have hlen : ((c.esp - (15 + err.toList.length) • 4) :: frameWords c v err).reverse.length +
      ([] : List Word).length < 2 ^ 30 := by
    rw [List.length_reverse, List.length_cons, frameWords_length, List.length_nil]
    omega
  unfold Cpu.called
  rw [pushAll_eq]
  have hholds := holdsAt_pushMem c.mem c.esp
    ((c.esp - (15 + err.toList.length) • 4) :: frameWords c v err).reverse [] trivial
    (room_of_lt hlen)
  rw [List.reverse_reverse, List.append_nil] at hholds
  exact hholds

/-! ## The handler -/

/-- The dwords from `lo` up to `hi`, which may wrap. -/
def Within (lo hi a : Word) : Prop := (a - lo).toNat < (hi - lo).toNat ∧ 4 ∣ (a - lo).toNat

/-- The handler gives back the stack pointer, and does not write to the stack above its argument,
nor to some other addresses. -/
structure Callee (top : Word) (data : Set Word) (handler : Cpu → Cpu) (c : Cpu) : Prop where
  esp : (handler c).esp = c.esp
  stack : ∀ a, Within (c.esp + 4) top a → (handler c).mem a = c.mem a
  data : ∀ a ∈ data, (handler c).mem a = c.mem a

theorem Callee.congr {top : Word} {data : Set Word} {handler handler' : Cpu → Cpu} {c : Cpu}
    (h : Callee top data handler c) (hsame : handler' c = handler c) :
    Callee top data handler' c :=
  ⟨hsame ▸ h.esp, hsame ▸ h.stack, hsame ▸ h.data⟩

/-- The stack has room for what an interrupt pushes. -/
structure Deep (bottom top : Word) (c : Cpu) : Prop where
  room : 68 ≤ (c.esp - bottom).toNat
  inside : (c.esp - bottom).toNat ≤ (top - bottom).toNat
  aligned : 4 ∣ (c.esp - bottom).toNat

theorem pushMem_of_ne {m : Word → Word} {sp a : Word} {vs : List Word}
    (h : ∀ i < vs.length, a ≠ sp - (i + 1) • 4) : pushMem m sp vs a = m a := by
  induction vs generalizing m sp with
  | nil => rfl
  | cons v vs ih =>
    have hfirst := h 0 (Nat.zero_lt_succ vs.length)
    rw [zero_add, one_nsmul] at hfirst
    have hrest : ∀ i < vs.length, a ≠ sp - 4 - (i + 1) • 4 := by
      intro i hi
      rw [sub_nsmul_succ]
      exact h (i + 1) (Nat.succ_lt_succ hi)
    calc pushMem (Function.update m (sp - 4) v) (sp - 4) vs a
        = Function.update m (sp - 4) v a := ih hrest
      _ = m a := Function.update_of_ne hfirst v m

theorem nsmul_four (i : Nat) : (i • 4 : Word) = BitVec.ofNat 32 (4 * i) := by
  rw [nsmul_eq_mul, Nat.mul_comm, BitVec.ofNat_mul]
  rfl

section Delivery

variable {bottom top a : Word} {data : Set Word} {c : Cpu} {offset selector : Word} {trap : Bool}
  {v : Nat} {err : Option Word}

theorem called_mem (hdeep : Deep bottom top c)
    (ha : Within c.esp top a ∨ ¬ Within bottom top a) :
    (c.called offset selector trap v err).mem a = c.mem a := by
  have herr := length_toList_le err
  unfold Cpu.called
  rw [pushAll_eq]
  refine pushMem_of_ne fun i hi heq => ?_
  rw [List.length_reverse, List.length_cons, frameWords_length] at hi
  rw [nsmul_four] at heq
  replace heq : a = c.esp - BitVec.ofNat 32 (4 * (i + 1)) := heq
  have hroom := hdeep.room
  have hinside := hdeep.inside
  have haligned := hdeep.aligned
  have hself : (a - c.esp).toNat = 2 ^ 32 - 4 * (i + 1) := by
    rw [heq, sub_sub_cancel_left, BitVec.toNat_neg, BitVec.toNat_ofNat]
    omega
  have hbottom : (a - bottom).toNat = (c.esp - bottom).toNat - 4 * (i + 1) := by
    rw [heq, sub_right_comm, BitVec.toNat_sub, BitVec.toNat_ofNat]
    omega
  have hused : (top - c.esp).toNat = (top - bottom).toNat - (c.esp - bottom).toNat := by
    rw [← sub_sub_sub_cancel_right top c.esp bottom]
    exact BitVec.toNat_sub_of_le hinside
  have hlt := (top - bottom).isLt
  unfold Within at ha
  rw [hself, hbottom, hused] at ha
  omega

theorem frame_kept {handler : Cpu → Cpu} (hdeep : Deep bottom top c)
    (hcallee : Callee top data handler (c.called offset selector trap v err)) :
    HoldsAt 4 (handler (c.called offset selector trap v err)).mem
      ((handler (c.called offset selector trap v err)).esp + 4) (frameWords c v err) := by
  have herr := length_toList_le err
  have hesp := called_esp c offset selector trap v err
  have hroom := hdeep.room
  have hinside := hdeep.inside
  rw [hcallee.esp]
  refine (called_holds c offset selector trap v err).2.congr fun i hi => hcallee.stack _ ?_
  rw [frameWords_length] at hi
  rw [hesp, nsmul_four, nsmul_four]
  unfold Within
  have hlt : 4 * i + 4 < 4 * (16 + err.toList.length) := by omega
  have hle : 4 * (16 + err.toList.length) ≤ 68 := by omega
  have hdvd : 4 ∣ 4 * i := Nat.dvd_mul_right 4 i
  generalize 4 * i = k at hlt hdvd ⊢
  generalize 4 * (16 + err.toList.length) = n at hlt hle ⊢
  bv_omega

/-- An interrupt changes nothing but memory, and memory only as its handler does. -/
theorem interrupt_returns (handler : Cpu → Cpu) (hdeep : Deep bottom top c)
    (herr : err.isSome = hasErrorCode v)
    (hcallee : Callee top data handler (c.called offset selector trap v err)) :
    Cpu.exec handler (isr v) (c.deliver offset selector trap err) =
      { c with mem := (handler (c.called offset selector trap v err)).mem } := by
  rw [exec_isr handler c offset selector trap herr]
  refine exec_leave handler ?_ (frame_kept hdeep hcallee)
  rw [hcallee.esp, called_esp]

end Delivery

/-- The frame of an interrupt. The last three fields are in the order that the processor pushes,
with the error code first: `eip` holds the flags, or `cs`. -/
def frameOf (c : Cpu) (v : Nat) (err : Option Word) : IrqFrame where
  errCode := err.getD 0
  irqIndex := BitVec.ofNat 32 v
  edi := c.edi
  esi := c.esi
  ebp := c.ebp
  espDummy := c.esp - (5 + err.toList.length) • 4
  ebx := c.ebx
  edx := c.edx
  ecx := c.ecx
  eax := c.eax
  userEsp := 0
  userSs := 0
  eflags := err.getD c.eip
  cs := if err.isSome then c.eip else c.cs
  eip := if err.isSome then c.cs else c.eflags

theorem readFrame_eq {m : Word → Word} {p : Word} {c : Cpu} {v : Nat} {err : Option Word}
    (h : HoldsAt 4 m p (frameWords c v err)) : readFrame m p = frameOf c v err := by
  cases err with
  | none =>
    simp only [frameWords, Option.toList_none, List.append_nil, List.cons_append, List.nil_append,
      HoldsAt, add_assoc, BitVec.reduceAdd, BitVec.ofNat_eq_ofNat, and_true] at h
    simp only [readFrame, BitVec.ofNat_eq_ofNat, h]
    rfl
  | some e =>
    simp only [frameWords, Option.toList_some, List.cons_append, List.nil_append,
      HoldsAt, add_assoc, BitVec.reduceAdd, BitVec.ofNat_eq_ofNat, and_true] at h
    simp only [readFrame, BitVec.ofNat_eq_ofNat, h]
    rfl

/-- A handler is called with the address of the frame as its argument, and the frame says what
the interrupt was and what was in the registers. -/
theorem called_frame (c : Cpu) (offset selector : Word) (trap : Bool) (v : Nat)
    (err : Option Word) {d : Cpu} (hd : d = c.called offset selector trap v err) :
    d.mem d.esp = d.esp + 4 ∧ readFrame d.mem (d.esp + 4) = frameOf c v err := by
  subst hd
  have hholds := called_holds c offset selector trap v err
  have hptr : c.esp - (15 + err.toList.length) • 4 =
      (c.called offset selector trap v err).esp + 4 := by
    have hsucc : 16 + err.toList.length = 15 + err.toList.length + 1 := Nat.add_right_comm 15 1 _
    rw [called_esp, hsucc, succ_nsmul, ← sub_sub, sub_add_cancel]
  exact ⟨hholds.1.trans hptr, readFrame_eq hholds.2⟩

/-! ## Code with interrupts in it -/

/-- The same registers, and the same words on the stack in use and in some data. -/
structure Same (top : Word) (data : Set Word) (c c' : Cpu) : Prop where
  regs : { c' with mem := c.mem } = c
  stack : ∀ a, Within c.esp top a → c'.mem a = c.mem a
  data : ∀ a ∈ data, c'.mem a = c.mem a

/-- An instruction that reads nothing else. -/
def Respects (top : Word) (data : Set Word) (f : Cpu → Cpu) : Prop :=
  ∀ c c', Same top data c c' → Same top data (f c) (f c')

/-- An instruction of the code that runs, or an interrupt that comes in before the next one. -/
inductive Turn where
  | instr (f : Cpu → Cpu)
  | interrupt (v : Nat) (err : Option Word) (offset selector : Word) (trap : Bool)
      (handler : Cpu → Cpu)

def Turn.run (c : Cpu) : Turn → Except Empty (Cpu × Unit)
  | .instr f => .ok (f c, ())
  | .interrupt v err offset selector trap handler =>
    .ok (Cpu.exec handler (isr v) (c.deliver offset selector trap err), ())

/-- The code alone. -/
def Turn.runAlone (c : Cpu) : Turn → Cpu × Unit
  | .instr f => (f c, ())
  | .interrupt .. => (c, ())

/-- Instructions keep to the stack and the data; there is room for an interrupt, the processor
pushes an error code where it does so, and the handler obeys. -/
def Turn.Harmless (obeys : Set Word → (Cpu → Cpu) → Cpu → Prop) (bottom top : Word)
    (data : Set Word) (c : Cpu) : Turn → Prop
  | .instr f => Respects top data f
  | .interrupt v err offset selector trap handler =>
    Deep bottom top c ∧ err.isSome = hasErrorCode v ∧
      obeys data handler (c.called offset selector trap v err)

/-- A handler that keeps off the stack and the data, with interrupts in it that are nested up to
`n` deep: alone it does, and the handlers of its interrupts do so for its own data as well. -/
def Obeys (bottom top : Word) : Nat → Set Word → (Cpu → Cpu) → Cpu → Prop
  | 0, data, handler, c => Callee top data handler c
  | n + 1, data, handler, c => Obeys bottom top n data handler c ∨
    ∃ own turns os, data ⊆ own ∧ (∀ a ∈ own, ¬ Within bottom top a) ∧
      Callee top data (fun c => (fold Turn.runAlone c turns).1) c ∧
      Meets Turn.run (Turn.Harmless (Obeys bottom top n) bottom top own) c turns ∧
      run Turn.run c turns = .ok (handler c, os)

variable {bottom top : Word} {data : Set Word}

theorem Same.refl (c : Cpu) : Same top data c c := ⟨rfl, fun _ _ => rfl, fun _ _ => rfl⟩

theorem Same.trans {c c' c'' : Cpu} (h : Same top data c c') (h' : Same top data c' c'') :
    Same top data c c'' := by
  have hregs : { c'' with mem := c.mem } = c := by
    calc { c'' with mem := c.mem } = { ({ c'' with mem := c'.mem } : Cpu) with mem := c.mem } := rfl
      _ = { c' with mem := c.mem } := by rw [h'.regs]
      _ = c := h.regs
  have hesp : c'.esp = c.esp := by
    rw [← h.regs]
  exact ⟨hregs, fun a ha => (h'.stack a (hesp ▸ ha)).trans (h.stack a ha),
    fun a ha => (h'.data a ha).trans (h.data a ha)⟩

theorem sub_sub_ofNat (a lo : Word) (k : Nat) :
    a - (lo - BitVec.ofNat 32 k) = a - lo + BitVec.ofNat 32 k := by
  rw [sub_sub_eq_add_sub, add_sub_right_comm]

theorem Within.sub {lo hi a : Word} {k : Nat} (hroom : (hi - lo).toNat + 4 * k < 2 ^ 32)
    (h : Within lo hi a) : Within (lo - BitVec.ofNat 32 (4 * k)) hi a := by
  unfold Within at h ⊢
  rw [sub_sub_ofNat, sub_sub_ofNat, BitVec.toNat_add, BitVec.toNat_add, BitVec.toNat_ofNat]
  omega

theorem Within.of_push {lo hi a : Word} (h : Within (lo - 4) hi a) (hne : a ≠ lo - 4) :
    Within lo hi a := by
  have hshift : ∀ b : Word, b - (lo - 4) = b - lo + 4 := fun b => sub_sub_ofNat b lo 4
  unfold Within at h ⊢
  rw [hshift, hshift, BitVec.toNat_add, BitVec.toNat_add] at h
  have hpos : (a - lo + 4).toNat ≠ 0 := by
    intro hzero
    refine hne ?_
    rw [← hshift] at hzero
    exact sub_eq_zero.1 (BitVec.eq_of_toNat_eq hzero)
  have hfour : (4 : Word).toNat = 4 := rfl
  rw [BitVec.toNat_add, hfour] at hpos
  rw [hfour] at h
  omega

theorem respects_push (v : Word) : Respects top data (Cpu.push · v) := by
  intro c c' h
  have hesp : c'.esp = c.esp := by
    rw [← h.regs]
  have hmem : ∀ a, (a ≠ c.esp - 4 → c'.mem a = c.mem a) → (c'.push v).mem a = (c.push v).mem a := by
    intro a ha
    show Function.update c'.mem (c'.esp - 4) v a = Function.update c.mem (c.esp - 4) v a
    rw [hesp, Function.update_apply, Function.update_apply]
    split_ifs with heq
    · rfl
    · exact ha heq
  refine ⟨?_, fun a ha => hmem a fun hne => h.stack a (Within.of_push ha hne),
    fun a ha => hmem a fun _ => h.data a ha⟩
  rw [← h.regs]
  rfl

theorem interrupt_same {c : Cpu} {v : Nat} {err : Option Word} {offset selector : Word}
    {trap : Bool} {handler : Cpu → Cpu} (hapart : ∀ a ∈ data, ¬ Within bottom top a)
    (hdeep : Deep bottom top c) (herr : err.isSome = hasErrorCode v)
    (hcallee : Callee top data handler (c.called offset selector trap v err)) :
    Same top data c (Cpu.exec handler (isr v) (c.deliver offset selector trap err)) := by
  rw [interrupt_returns handler hdeep herr hcallee]
  refine ⟨rfl, fun a ha => ?_, fun a ha => ?_⟩
  · have hused : Within ((c.called offset selector trap v err).esp + 4) top a := by
      have herr := length_toList_le err
      have hroom : (top - c.esp).toNat + 4 * (15 + err.toList.length) < 2 ^ 32 := by
        have hroom := hdeep.room
        have hinside := hdeep.inside
        bv_omega
      have hsucc : 16 + err.toList.length = 15 + err.toList.length + 1 := Nat.add_right_comm 15 1 _
      rw [called_esp, hsucc, succ_nsmul, ← sub_sub, sub_add_cancel, nsmul_four]
      exact ha.sub hroom
    exact (hcallee.stack a hused).trans (called_mem hdeep (.inl ha))
  · exact (hcallee.data a ha).trans (called_mem hdeep (.inr (hapart a ha)))

theorem called_argument {c : Cpu} {v : Nat} {err : Option Word} {offset selector : Word}
    {trap : Bool} (hdeep : Deep bottom top c) :
    4 ≤ (top - (c.called offset selector trap v err).esp).toNat := by
  have herr := length_toList_le err
  have hroom := hdeep.room
  have hinside := hdeep.inside
  rw [called_esp, nsmul_four]
  have hle : 64 ≤ 4 * (16 + err.toList.length) ∧ 4 * (16 + err.toList.length) ≤ 68 := by omega
  generalize 4 * (16 + err.toList.length) = n at hle ⊢
  bv_omega

section Transparent

variable {obeys : Set Word → (Cpu → Cpu) → Cpu → Prop}
  (hcallee : ∀ {data handler c}, 4 ≤ (top - c.esp).toNat → obeys data handler c →
    Callee top data handler c)

include hcallee in
/-- Code with interrupts in it, whose handlers keep to the calling convention. -/
theorem run_same (hapart : ∀ a ∈ data, ¬ Within bottom top a) (turns : List Turn) (c : Cpu)
    (hharmless : Meets Turn.run (Turn.Harmless obeys bottom top data) c turns) :
    ∃ c', run Turn.run c turns = .ok (c', (fold Turn.runAlone c turns).2) ∧
      Same top data (fold Turn.runAlone c turns).1 c' := by
  refine run_simulates (R := fun c' c => Same top data c c') ?_ turns c c (Same.refl c) hharmless
  intro c' c turn hsame hturn
  cases turn with
  | instr f => exact ⟨f c', rfl, hturn c c' hsame⟩
  | interrupt v err offset selector trap handler =>
    obtain ⟨hdeep, herr, hobeys⟩ := hturn
    have hhandler := hcallee (called_argument hdeep) hobeys
    exact ⟨_, rfl, hsame.trans (interrupt_same hapart hdeep herr hhandler)⟩

end Transparent

/-- A handler keeps to the calling convention with interrupts in it as it does alone. -/
theorem Obeys.callee : ∀ {n : Nat} {data : Set Word} {handler : Cpu → Cpu} {c : Cpu},
    4 ≤ (top - c.esp).toNat → Obeys bottom top n data handler c → Callee top data handler c := by
  intro n
  induction n with
  | zero => exact fun _ h => h
  | succ n ih =>
    intro data handler c hargument h
    rcases h with h | ⟨own, turns, os, hsub, hapart, halone, hturns, hrun⟩
    · exact ih hargument h
    obtain ⟨c', hrun', hsame⟩ := run_same ih hapart turns c hturns
    obtain rfl : handler c = c' := (Prod.mk.inj (Except.ok.inj (hrun.symm.trans hrun'))).1
    have hregs := congrArg Cpu.esp hsame.regs
    have hesp := halone.esp
    refine ⟨hregs.trans hesp, fun a ha => ?_, fun a ha => ?_⟩
    · have hused : Within c.esp top a := by
        have hback : c.esp + 4 - BitVec.ofNat 32 (4 * 1) = c.esp := add_sub_cancel_right c.esp 4
        rw [← hback]
        exact Within.sub (by bv_omega) ha
      exact (hsame.stack a (hesp.symm ▸ hused)).trans (halone.stack a ha)
    · exact (hsame.data a (hsub ha)).trans (halone.data a ha)

/-- Wherever interrupts come in, in handlers too, the code that they interrupt has the same
registers, stack and data as if there were none. -/
theorem interrupts_transparent (bottom : Word) (n : Nat)
    (hapart : ∀ a ∈ data, ¬ Within bottom top a) (turns : List Turn) (c : Cpu)
    (hharmless : Meets Turn.run (Turn.Harmless (Obeys bottom top n) bottom top data) c turns) :
    ∃ c', run Turn.run c turns = .ok (c', (fold Turn.runAlone c turns).2) ∧
      Same top data (fold Turn.runAlone c turns).1 c' :=
  run_same Obeys.callee hapart turns c hharmless

/-- A handler that stores to one dword. -/
def storing (p x : Word) (c : Cpu) : Cpu := { c with mem := Function.update c.mem p x }

theorem callee_storing {c : Cpu} {p : Word} (x : Word) (hstack : ¬ Within (c.esp + 4) top p)
    (hdata : p ∉ data) : Callee top data (storing p x) c := by
  refine ⟨rfl, fun a ha => ?_, fun a ha => ?_⟩
  · have hne : a ≠ p := by
      rintro rfl
      exact hstack ha
    exact Function.update_of_ne hne x c.mem
  · have hne : a ≠ p := by
      rintro rfl
      exact hdata ha
    exact Function.update_of_ne hne x c.mem

theorem respects_storing (p x : Word) : Respects top data (storing p x) := by
  intro c c' h
  have hmem : ∀ a, c'.mem a = c.mem a → (storing p x c').mem a = (storing p x c).mem a := by
    intro a ha
    show Function.update c'.mem p x a = Function.update c.mem p x a
    rw [Function.update_apply, Function.update_apply, ha]
  exact ⟨congrArg (storing p x) h.regs, fun a ha => hmem a (h.stack a ha),
    fun a ha => hmem a (h.data a ha)⟩

/-- A processor at rest. -/
def resting : Cpu where
  eax := 0
  ecx := 0
  edx := 0
  ebx := 0
  esp := 0x1800
  ebp := 0
  esi := 0
  edi := 0
  eip := 0x10000
  cs := 8
  eflags := 0x202
  mem := fun _ => 0

/-- A timer's handler, with a key's interrupt in it. -/
def tickAndKey : List Turn := [.instr (storing 16 1), .interrupt 33 none 0 8 false (storing 20 2)]

/-- What running it comes to. -/
def tickHandler (c : Cpu) : Cpu :=
  Cpu.exec (storing 20 2) (isr 33) ((storing 16 1 c).deliver 0 8 false none)

/-- Two pushes, and a timer interrupt between them. -/
def twoPushes : List Turn :=
  [.instr (Cpu.push · 5), .interrupt 32 none 0 8 false tickHandler, .instr (Cpu.push · 7)]

theorem tickHandler_obeys {c : Cpu} (hesp : c.esp = 0x17BC) :
    Obeys 0x1000 0x2000 1 {0x20} tickHandler c := by
  have hapart : ∀ x : Word, x.toNat < 0x1000 → ∀ lo : Word, 0x1000 ≤ lo.toNat → lo.toNat ≤ 0x2000 →
      ¬ Within lo 0x2000 x := by
    intro x hx lo hlo hhi h
    have := h.1
    bv_omega
  refine .inr ⟨{0x20}, tickAndKey, [(), ()], subset_rfl, ?_, ?_, ?_, rfl⟩
  · intro a ha
    rw [Set.mem_singleton_iff.1 ha]
    exact hapart _ (by decide) _ (by decide) (by decide)
  · refine callee_storing 1 ?_ (by simp)
    rw [hesp]
    exact hapart _ (by decide) _ (by decide) (by decide)
  · refine ⟨respects_storing 16 1, fun d _ hd => ?_⟩
    obtain ⟨rfl, -⟩ := Prod.mk.inj (Except.ok.inj hd)
    have hesp' : (storing 16 1 c).esp = 0x17BC := hesp
    refine ⟨⟨⟨by rw [hesp']; decide, by rw [hesp']; decide, by rw [hesp']; decide⟩, rfl,
      callee_storing 2 ?_ (by simp)⟩, fun _ _ _ => trivial⟩
    rw [called_esp, hesp']
    exact hapart _ (by decide) _ (by decide) (by decide)

theorem twoPushes_transparent :
    ∃ c', run Turn.run resting twoPushes = .ok (c', (fold Turn.runAlone resting twoPushes).2) ∧
      Same 0x2000 {0x20} (fold Turn.runAlone resting twoPushes).1 c' := by
  refine interrupts_transparent 0x1000 1 ?_ twoPushes resting ?_
  · intro a ha
    rw [Set.mem_singleton_iff.1 ha]
    unfold Within
    decide
  · refine ⟨respects_push 5, fun c _ hc => ?_⟩
    obtain ⟨rfl, -⟩ := Prod.mk.inj (Except.ok.inj hc)
    refine ⟨⟨⟨by decide, by decide, by decide⟩, rfl, tickHandler_obeys ?_⟩,
      fun c _ hc => ⟨respects_push 7, fun _ _ _ => trivial⟩⟩
    rw [called_esp]
    rfl

/-! ## The stubs before paging -/

/-- `ISR_NO_ERR` of `boot/isr.asm`. -/
def earlyIsrNoErr (v : Word) : List Instr :=
  [.pushad, .push v, .push 0, .call, .addEsp 8, .popad, .iretd]

/-- `ISR_ERR` of `boot/isr.asm`. -/
def earlyIsrErr (v : Word) : List Instr :=
  [.pushad, .pushMem 32, .push v, .call, .addEsp 8, .popad, .addEsp 4, .iretd]

theorem step_pushMem (handler : Cpu → Cpu) (c : Cpu) (vs : List Word) {x : Word} (i : Nat)
    (hi : vs.reverse[i]? = some x) (hlen : vs.length < 2 ^ 30) :
    (c.pushAll vs).step handler (.pushMem (i • 4)) = c.pushAll (vs ++ [x]) := by
  have hesp : (c.pushAll vs).esp = c.esp - vs.length • 4 := by rw [pushAll_eq]
  have hread : (c.pushAll vs).mem ((c.pushAll vs).esp + i • 4) = x := by
    rw [hesp]
    exact pushAll_read c vs i hi hlen
  rw [← hread]
  exact pushAll_append c vs [_]

theorem pushAll_last (c : Cpu) (vs : List Word) (x y : Word) (hlen : vs.length < 2 ^ 29) :
    (c.pushAll (vs ++ [x, y])).mem (c.pushAll (vs ++ [x, y])).esp = y ∧
      (c.pushAll (vs ++ [x, y])).mem ((c.pushAll (vs ++ [x, y])).esp + 4) = x := by
  have hesp : (c.pushAll (vs ++ [x, y])).esp = c.esp - (vs ++ [x, y]).length • 4 := by
    rw [pushAll_eq]
  have hlen' : (vs ++ [x, y]).length < 2 ^ 30 := by
    rw [List.length_append]
    exact Nat.lt_trans (Nat.add_lt_add_right hlen 2) (by decide)
  have hreverse : (vs ++ [x, y]).reverse = y :: x :: vs.reverse := by simp
  have hlast := pushAll_read c _ 0 (congrArg (·[0]?) hreverse) hlen'
  have hnext := pushAll_read c _ 1 (congrArg (·[1]?) hreverse) hlen'
  rw [zero_nsmul, add_zero] at hlast
  rw [one_nsmul] at hnext
  rw [hesp]
  exact ⟨hlast, hnext⟩

/-- The arguments of `early_idt_c_handler` are the interrupt's number and the error code. Without
an error code the stub pushes them the wrong way round: the number is that of a division by zero,
and the vector is the error code. -/
theorem early_stub_arguments (c : Cpu) (offset selector v : Word) (trap : Bool) :
    (∃ d : Cpu, (∀ handler, Cpu.exec handler (earlyIsrNoErr v)
          (c.deliver offset selector trap none) =
        Cpu.exec handler [.addEsp 8, .popad, .iretd] (handler d)) ∧
      d.mem d.esp = 0 ∧ d.mem (d.esp + 4) = v) ∧
    ∀ e, ∃ d : Cpu, (∀ handler, Cpu.exec handler (earlyIsrErr v)
          (c.deliver offset selector trap (some e)) =
        Cpu.exec handler [.addEsp 8, .popad, .addEsp 4, .iretd] (handler d)) ∧
      d.mem d.esp = v ∧ d.mem (d.esp + 4) = e := by
  refine ⟨⟨(c.through offset selector trap).pushAll ([c.eflags, c.cs, c.eip, c.eax, c.ecx, c.edx,
    c.ebx, c.esp - 3 • 4, c.ebp, c.esi, c.edi] ++ [v, 0]), fun handler => ?_, ?_⟩, fun e =>
    ⟨(c.through offset selector trap).pushAll ([c.eflags, c.cs, c.eip, e, c.eax, c.ecx, c.edx,
      c.ebx, c.esp - 4 • 4, c.ebp, c.esi, c.edi] ++ [e, v]), fun handler => ?_, ?_⟩⟩
  · simp only [Cpu.exec, earlyIsrNoErr, Cpu.deliver, step_push, step_pushad, List.foldl_cons,
      List.cons_append, List.nil_append, Option.toList_none, List.length_cons, List.length_nil,
      Nat.reduceAdd, zero_add, Cpu.through]
    rfl
  · exact pushAll_last _ _ v 0 (by simp)
  · have hload := step_pushMem handler (c.through offset selector trap)
      [c.eflags, c.cs, c.eip, e, c.eax, c.ecx, c.edx, c.ebx, c.esp - 4 • 4, c.ebp, c.esi, c.edi]
      8 (x := e) rfl (by simp)
    have hdisp : (8 • 4 : Word) = 32 := rfl
    rw [hdisp] at hload
    simp only [Cpu.exec, earlyIsrErr, Cpu.deliver, step_pushad, List.foldl_cons,
      List.cons_append, List.nil_append, Option.toList_some, List.length_cons, List.length_nil,
      Nat.reduceAdd, zero_add, Cpu.through] at hload ⊢
    rw [hload]
    simp only [step_push, List.cons_append, List.nil_append]
    rfl
  · exact pushAll_last _ _ e v (by simp)

end X86Kernel.Irq
