import X86Kernel.Core
import X86Kernel.Lib.Run

/- The IDE driver's request path (`kernel/arch/i386/drivers/pci/ide.c`): the
   queue of each channel, `ide_submit`, and the two interrupt handlers that pop
   the queue, run the request's callback and look at the queue again.

   What is proved: along every run of submissions on an empty channel queue and
   of interrupts, in which no completion callback submits to the channel whose
   interrupt is running, every submitted request is issued exactly once and in
   order, and every interrupt that finds a request calls its callback once
   (`run_issues_once`). A callback that does submit to its own channel has its
   request issued twice: by `ide_submit`, and again by the handler that finds it
   at the head of the queue (`resubmission_issues_twice`).

   A handler runs with interrupts off, so its callback is the only code that
   can interleave with it; a callback is what it submits (`inside`). The rest
   of the kernel's state that callbacks may change is the parameter `outer`.
   The registers and PRD entries a command is programmed with are represented
   by the `Command` they amount to.

   Correspondence (C ↔ Lean):
     `fill_prdt` (its count)    ↔ `fillPrdt`
     `ide_read_sectors_async`   ↔ `ideReadSectorsAsync`
     `ide_write_sectors_async`  ↔ `ideWriteSectorsAsync`
     `make_request`             ↔ `command` (what it programs), `makeRequest`
     `ide_push_queue`           ↔ `idePushQueue`
     `ide_pop_queue`            ↔ `idePopQueue`
     `ide_submit`               ↔ `ideSubmit`
     `primary_irq`              ↔ `primaryIrq`
     `secondary_irq`            ↔ `secondaryIrq` -/
namespace X86Kernel.Ide
open X86Kernel.Lib

inductive Channel where
  | primary
  | secondary
  deriving DecidableEq, Repr

/-- The number stored in `ide_device_t.channel`. -/
def Channel.index : Channel → Nat
  | .primary => 0
  | .secondary => 1

inductive SizeType where
  | chs
  | lba28
  | lba48
  deriving DecidableEq, Repr

inductive Action where
  | read
  | write
  deriving DecidableEq, Repr

structure IdeChannel where
  hasDma : Bool
  dmaIo : Bool

structure IdeDevice where
  present : Bool
  slave : Bool
  sizeType : SizeType
  channel : Channel

/-- The controller as `init_ide` leaves it: two drives to a channel, and the
entry of a drive that is not there still zero, that is on the primary one. -/
structure Controller where
  channels : Channel → IdeChannel
  devices : Nat → IdeDevice
  wired : ∀ i, (devices i).channel =
    if (devices i).present ∧ i / 2 = 1 then .secondary else .primary

/-- `stor_request_t`: `device` is the drive behind `dev_data`, `callback` says
whether the pointer is set, `ctx` names the block request. -/
structure StorRequest where
  ctx : Nat
  device : Nat
  lba : Nat
  chunkList : List (Nat × Nat)
  action : Action
  callback : Bool
  deriving DecidableEq, Repr

/-- What a drive is told to do. -/
structure Command where
  channel : Channel
  slave : Bool
  sizeType : SizeType
  action : Action
  lba : Nat
  sectors : Nat
  deriving DecidableEq, Repr

/-- `fill_prdt`: the number of sectors the chunks hold. -/
def fillPrdt : List (Nat × Nat) → Kernel Nat
  | [] => .ok 0
  | (pa, sectors) :: rest =>
    match assert (pa % 512 == 0) with
    | .error e => .error e
    | .ok () =>
      match fillPrdt rest with
      | .error e => .error e
      | .ok total => .ok ((sectors + total) % 2 ^ 64)

/-- The register writes both transfers end with. -/
def ideProgram (ctl : Controller) (device : Nat) (action : Action) (lba sectors : Nat) :
    Kernel Command :=
  let dev := ctl.devices device
  if !(ctl.channels dev.channel).dmaIo then .error .abort
  else if dev.sizeType = .chs then .error .abort
  else .ok { channel := dev.channel, slave := dev.slave, sizeType := dev.sizeType,
             action := action, lba := lba, sectors := sectors }

def ideReadSectorsAsync (ctl : Controller) (device lba : Nat) (chunks : List (Nat × Nat)) :
    Kernel Command :=
  if !(ctl.channels (ctl.devices device).channel).hasDma then .error .abort
  else
    match fillPrdt chunks with
    | .error e => .error e
    | .ok sectors => ideProgram ctl device .read lba sectors

/-- `ide_write_sectors_async`; unlike the read it refuses to write nothing. -/
def ideWriteSectorsAsync (ctl : Controller) (device lba : Nat) (chunks : List (Nat × Nat)) :
    Kernel Command :=
  if !(ctl.channels (ctl.devices device).channel).hasDma then .error .abort
  else
    match fillPrdt chunks with
    | .error e => .error e
    | .ok sectors =>
      match assert (sectors != 0) with
      | .error e => .error e
      | .ok () => ideProgram ctl device .write lba sectors

/-- The channel whose queue a request uses. -/
def StorRequest.channel (ctl : Controller) (r : StorRequest) : Channel :=
  (ctl.devices r.device).channel

/-- What `make_request` programs. It passes the channel number where the
transfer functions take a device number. -/
def command (ctl : Controller) (r : StorRequest) : Kernel Command :=
  match r.action with
  | .read => ideReadSectorsAsync ctl (r.channel ctl).index r.lba r.chunkList
  | .write => ideWriteSectorsAsync ctl (r.channel ctl).index r.lba r.chunkList

/-- What happens at the driver's edges. -/
inductive Event where
  | submitted (r : StorRequest)
  | issued (r : StorRequest)
  | finished (r : StorRequest)
  | popped (r : StorRequest)
  | called (r : StorRequest) (result : Int)
  deriving DecidableEq

/-- The driver's state, the events so far, and the rest of the kernel. `busy`
lists, for each channel, the requests whose command it has been given and has
not finished. -/
structure IdeVars (σ : Type) where
  queue : Channel → List StorRequest
  busy : Channel → List StorRequest
  log : List Event
  outer : σ

variable {σ : Type}

def IdeVars.init (outer : σ) : IdeVars σ :=
  { queue := fun _ => [], busy := fun _ => [], log := [], outer := outer }

def IdeVars.note (s : IdeVars σ) (e : Event) : IdeVars σ := { s with log := s.log ++ [e] }

def IdeVars.setQueue (s : IdeVars σ) (c : Channel) (q : List StorRequest) : IdeVars σ :=
  { s with queue := fun c' => if c' = c then q else s.queue c' }

def makeRequest (ctl : Controller) (s : IdeVars σ) (r : StorRequest) : Kernel (IdeVars σ) :=
  match command ctl r with
  | .error e => .error e
  | .ok cmd =>
    .ok { s.note (.issued r) with
          busy := fun c => if c = cmd.channel then s.busy c ++ [r] else s.busy c }

def idePushQueue (ctl : Controller) (s : IdeVars σ) (r : StorRequest) : IdeVars σ :=
  s.setQueue (r.channel ctl) (s.queue (r.channel ctl) ++ [r])

def idePopQueue (s : IdeVars σ) (c : Channel) : Option (StorRequest × IdeVars σ) :=
  match s.queue c with
  | [] => none
  | item :: rest => some (item, (s.setQueue c rest).note (.popped item))

def ideSubmit (ctl : Controller) (s : IdeVars σ) (r : StorRequest) : Kernel (IdeVars σ) :=
  match assert (s.queue (r.channel ctl)).isEmpty with
  | .error e => .error e
  | .ok () => makeRequest ctl (idePushQueue ctl (s.note (.submitted r)) r) r

/-- The outcome read from the status registers. -/
def irqResult (bmStatus drvStatus : Nat) : Int :=
  if bmStatus &&& 1 ≠ 0 ∨ drvStatus &&& 1 ≠ 0 then -1 else 1

/-- The end of both handlers: a request at the head of the queue is issued. -/
def irqIssueNext (ctl : Controller) (s : IdeVars σ) (c : Channel) : Kernel (IdeVars σ) :=
  match s.queue c with
  | [] => .ok s
  | head :: _ => makeRequest ctl s head

def primaryIrq (ctl : Controller) (callback : StorRequest → Int → IdeVars σ → Kernel (IdeVars σ))
    (bmStatus drvStatus : Nat) (s : IdeVars σ) : Kernel (IdeVars σ) :=
  if !(ctl.channels .primary).dmaIo then .error .abort
  else
    match idePopQueue s .primary with
    | none => .ok s
    | some (item, s) =>
      let result := irqResult bmStatus drvStatus
      match
      (if item.callback then callback item result (s.note (.called item result)) else .ok s) with
      | .error e => .error e
      | .ok s => irqIssueNext ctl s .primary

/-- `secondary_irq` calls the callback without testing the pointer. -/
def secondaryIrq (ctl : Controller) (callback : StorRequest → Int → IdeVars σ → Kernel (IdeVars σ))
    (bmStatus drvStatus : Nat) (s : IdeVars σ) : Kernel (IdeVars σ) :=
  if !(ctl.channels .secondary).dmaIo then .error .abort
  else
    match idePopQueue s .secondary with
    | none => .ok s
    | some (item, s) =>
      let result := irqResult bmStatus drvStatus
      match (if item.callback then callback item result (s.note (.called item result))
        else .error .nullDeref) with
      | .error e => .error e
      | .ok s => irqIssueNext ctl s .secondary

/-- The handler registered for a channel's interrupt. -/
def irq (ctl : Controller) (callback : StorRequest → Int → IdeVars σ → Kernel (IdeVars σ)) :
    Channel → Nat → Nat → IdeVars σ → Kernel (IdeVars σ)
  | .primary => primaryIrq ctl callback
  | .secondary => secondaryIrq ctl callback

/-! ## Runs -/

/-- The channel finishes its oldest command, if it has one. -/
def IdeVars.finish (s : IdeVars σ) (c : Channel) : IdeVars σ :=
  match s.busy c with
  | [] => s
  | r :: rest =>
    { s.note (.finished r) with busy := fun c' => if c' = c then rest else s.busy c' }

/-- A callback that submits the given requests one after the other. -/
def submitAll (ctl : Controller) : List StorRequest → IdeVars σ → Kernel (IdeVars σ)
  | [], s => .ok s
  | r :: rest, s =>
    match ideSubmit ctl s r with
    | .error e => .error e
    | .ok s => submitAll ctl rest s

/-- A call of `ide_submit` from outside, or an interrupt with the status
registers as the handler reads them and what the completion callback submits
if it is run. -/
inductive Input where
  | submit (r : StorRequest)
  | interrupt (c : Channel) (bmStatus drvStatus : Nat) (inside : List StorRequest)

def step (ctl : Controller) (s : IdeVars σ) : Input → Kernel (IdeVars σ × Unit)
  | .submit r =>
    match ideSubmit ctl s r with
    | .error e => .error e
    | .ok s => .ok (s, ())
  | .interrupt c bmStatus drvStatus inside =>
    match irq ctl (fun _ _ => submitAll ctl inside) c bmStatus drvStatus (s.finish c) with
    | .error e => .error e
    | .ok s => .ok (s, ())

def submittedOf (log : List Event) : List StorRequest :=
  log.filterMap fun | .submitted r => some r | _ => none

def issuedOf (log : List Event) : List StorRequest :=
  log.filterMap fun | .issued r => some r | _ => none

def poppedOf (log : List Event) : List StorRequest :=
  log.filterMap fun | .popped r => some r | _ => none

def calledOf (log : List Event) : List StorRequest :=
  log.filterMap fun | .called r _ => some r | _ => none

/-- Requests are issued once each and in the order of their submission, and
every request an interrupt took from the queue had its callback called once. -/
structure IssuesOnce (log : List Event) : Prop where
  issued : issuedOf log = submittedOf log
  called : calledOf log = (poppedOf log).filter (·.callback)

/-- Each of the requests finds the queue of its channel empty when it is
submitted after those before it. -/
def EmptyFor (ctl : Controller) : List StorRequest → IdeVars σ → Prop
  | [], _ => True
  | r :: rest, s => s.queue (r.channel ctl) = [] ∧ EmptyFor ctl rest (idePushQueue ctl s r)

instance emptyForDecidable (ctl : Controller) : ∀ (rs : List StorRequest) (s : IdeVars σ),
    Decidable (EmptyFor ctl rs s)
  | [], _ => isTrue trivial
  | r :: rest, s =>
    have := emptyForDecidable ctl rest (idePushQueue ctl s r)
    inferInstanceAs (Decidable (s.queue (r.channel ctl) = [] ∧
      EmptyFor ctl rest (idePushQueue ctl s r)))

/-- Every `ide_submit` is made on an empty queue, in a callback too. -/
def OnEmptyQueue (ctl : Controller) (s : IdeVars σ) : Input → Prop
  | .submit r => EmptyFor ctl [r] s
  | .interrupt c _ _ inside => EmptyFor ctl inside (s.setQueue c (s.queue c).tail)

instance (ctl : Controller) (s : IdeVars σ) : ∀ i, Decidable (OnEmptyQueue ctl s i)
  | .submit r => emptyForDecidable ctl [r] s
  | .interrupt c _ _ inside => emptyForDecidable ctl inside (s.setQueue c (s.queue c).tail)

/-- What the driver demands of a request, or halts: the channel of the device
it programs does bus-master DMA through I/O ports, the device takes LBA
addresses, buffers are sector aligned, a write is not empty, and a request of
the secondary channel has a callback. -/
structure Supported (ctl : Controller) (r : StorRequest) : Prop where
  dma : (ctl.channels (ctl.devices (r.channel ctl).index).channel).hasDma = true
  port : (ctl.channels (ctl.devices (r.channel ctl).index).channel).dmaIo = true
  lba : (ctl.devices (r.channel ctl).index).sizeType ≠ .chs
  aligned : ∀ chunk ∈ r.chunkList, chunk.1 % 512 = 0
  nonempty : r.action = .write → (r.chunkList.map (·.2)).sum % 2 ^ 64 ≠ 0
  handled : r.channel ctl = .secondary → r.callback = true

/-- The condition of the theorem: queues are empty at submission, the requests
are supported, and no completion callback submits to the channel whose handler
is running it. -/
def NoReentry (ctl : Controller) (s : IdeVars σ) (i : Input) : Prop :=
  OnEmptyQueue ctl s i ∧
  match i with
  | .submit r => Supported ctl r
  | .interrupt c _ _ inside =>
    (ctl.channels c).dmaIo = true ∧ ∀ r ∈ inside, Supported ctl r ∧ r.channel ctl ≠ c

/-! ## What one call does -/

theorem fillPrdt_ok {chunks : List (Nat × Nat)} (h : ∀ chunk ∈ chunks, chunk.1 % 512 = 0) :
    fillPrdt chunks = .ok ((chunks.map (·.2)).sum % 2 ^ 64) := by
  induction chunks with
  | nil => rfl
  | cons chunk rest ih =>
    obtain ⟨pa, sectors⟩ := chunk
    have hpa : pa % 512 = 0 := h (pa, sectors) (by simp)
    have hrest := ih fun chunk hc => h chunk (by simp [hc])
    simp [fillPrdt, assert, hpa, hrest, Nat.add_mod]

theorem ideProgram_ok {ctl : Controller} {device : Nat} (action : Action) (lba sectors : Nat)
    (hport : (ctl.channels (ctl.devices device).channel).dmaIo = true)
    (hlba : (ctl.devices device).sizeType ≠ .chs) :
    ∃ cmd, ideProgram ctl device action lba sectors = .ok cmd ∧
      cmd.channel = (ctl.devices device).channel := by
  simp [ideProgram, hport, hlba]

theorem command_ok {ctl : Controller} {r : StorRequest} (h : Supported ctl r) :
    ∃ cmd, command ctl r = .ok cmd ∧
      cmd.channel = (ctl.devices (r.channel ctl).index).channel := by
  have hfill := fillPrdt_ok h.aligned
  cases hact : r.action with
  | read =>
    obtain ⟨cmd, hcmd, hch⟩ := ideProgram_ok .read r.lba ((r.chunkList.map (·.2)).sum % 2 ^ 64)
      h.port h.lba
    exact ⟨cmd, by simpa [command, hact, ideReadSectorsAsync, h.dma, hfill] using hcmd, hch⟩
  | write =>
    have hne := h.nonempty hact
    obtain ⟨cmd, hcmd, hch⟩ := ideProgram_ok .write r.lba ((r.chunkList.map (·.2)).sum % 2 ^ 64)
      h.port h.lba
    have hassert : assert ((r.chunkList.map (·.2)).sum % 2 ^ 64 != 0) = .ok () := if_pos (by simpa)
    refine ⟨cmd, ?_, hch⟩
    simp only [command, hact, ideWriteSectorsAsync, h.dma, hfill, hassert]
    exact hcmd

/-- The state after a supported request has been submitted on an empty queue:
it is queued, and it is given to the channel of the device that
`make_request` programs. -/
def IdeVars.afterSubmit (ctl : Controller) (s : IdeVars σ) (r : StorRequest) : IdeVars σ :=
  { queue := (idePushQueue ctl s r).queue
    busy := fun c =>
      if c = (ctl.devices (r.channel ctl).index).channel then s.busy c ++ [r] else s.busy c
    log := s.log ++ [.submitted r, .issued r]
    outer := s.outer }

theorem ideSubmit_ok {ctl : Controller} {r : StorRequest} {s : IdeVars σ}
    (h : Supported ctl r) (hempty : s.queue (r.channel ctl) = []) :
    ideSubmit ctl s r = .ok (s.afterSubmit ctl r) := by
  obtain ⟨cmd, hcmd, hch⟩ := command_ok h
  simp [ideSubmit, hempty, assert, makeRequest, hcmd, hch, idePushQueue, IdeVars.setQueue,
    IdeVars.note, IdeVars.afterSubmit]

@[simp] theorem idePushQueue_queue (ctl : Controller) (s : IdeVars σ) (r : StorRequest)
    (c : Channel) : (idePushQueue ctl s r).queue c =
      if c = r.channel ctl then s.queue c ++ [r] else s.queue c := by
  by_cases h : c = r.channel ctl <;> simp [idePushQueue, IdeVars.setQueue, h]

/-! ## The invariant and its steps -/

/-- Between two inputs: the log is right, each queue holds at most the request
its channel works on, and the secondary handler will find a callback. -/
structure Inv (s : IdeVars σ) : Prop where
  once : IssuesOnce s.log
  single : ∀ c, (s.queue c).length ≤ 1
  handled : ∀ r ∈ s.queue .secondary, r.callback = true

theorem issuesOnce_append {log new : List Event} (h : IssuesOnce log)
    (hnew : IssuesOnce new) : IssuesOnce (log ++ new) := by
  constructor
  · simp only [issuedOf, submittedOf, List.filterMap_append]
    rw [← issuedOf, ← issuedOf, h.issued, hnew.issued, submittedOf, submittedOf]
  · simp only [calledOf, poppedOf, List.filterMap_append, List.filter_append]
    rw [← calledOf, ← calledOf, h.called, hnew.called, poppedOf, poppedOf]

theorem inv_of_submit {ctl : Controller} {r : StorRequest} {s : IdeVars σ} (hI : Inv s)
    (h : Supported ctl r) (hempty : s.queue (r.channel ctl) = []) : Inv (s.afterSubmit ctl r) := by
  constructor
  · exact issuesOnce_append hI.once ⟨rfl, rfl⟩
  · intro c
    simp only [IdeVars.afterSubmit, idePushQueue_queue]
    split
    · rename_i hc
      simp [hc, hempty]
    · exact hI.single c
  · intro q hq
    simp only [IdeVars.afterSubmit, idePushQueue_queue] at hq
    split at hq
    · rename_i hc
      rw [hc, hempty] at hq
      simp only [List.nil_append, List.mem_singleton] at hq
      exact hq ▸ h.handled hc.symm
    · exact hI.handled q hq

theorem emptyFor_congr {τ : Type} {ctl : Controller} : ∀ {rs : List StorRequest}
    {s : IdeVars σ} {t : IdeVars τ}, s.queue = t.queue → EmptyFor ctl rs s → EmptyFor ctl rs t := by
  intro rs
  induction rs with
  | nil => intros; trivial
  | cons r rest ih =>
    intro s t hq h
    refine ⟨hq ▸ h.1, ih ?_ h.2⟩
    funext c
    simp only [idePushQueue_queue, hq]

theorem submitAll_ok {ctl : Controller} {c : Channel} : ∀ (rs : List StorRequest)
    (s : IdeVars σ), Inv s → EmptyFor ctl rs s →
    (∀ r ∈ rs, Supported ctl r ∧ r.channel ctl ≠ c) →
    ∃ s', submitAll ctl rs s = .ok s' ∧ Inv s' ∧ s'.queue c = s.queue c := by
  intro rs
  induction rs with
  | nil => intro s hI _ _; exact ⟨s, rfl, hI, rfl⟩
  | cons r rest ih =>
    intro s hI hempty hrs
    obtain ⟨hsup, hoff⟩ := hrs r (by simp)
    have hI₁ := inv_of_submit hI hsup hempty.1
    obtain ⟨s', hs', hI', hq'⟩ := ih _ hI₁
      (emptyFor_congr (s := idePushQueue ctl s r) rfl hempty.2) fun q hq => hrs q (by simp [hq])
    refine ⟨s', by simp only [submitAll, ideSubmit_ok hsup hempty.1, hs'], hI', ?_⟩
    rw [hq', IdeVars.afterSubmit, idePushQueue_queue, if_neg fun h => hoff h.symm]

theorem inv_of_pop {s : IdeVars σ} {c : Channel} {new : List Event} (hI : Inv s)
    (hnew : IssuesOnce new) :
    Inv { s.setQueue c [] with log := s.log ++ new } := by
  constructor
  · exact issuesOnce_append hI.once hnew
  · intro c'
    simp only [IdeVars.setQueue]
    split
    · exact Nat.zero_le 1
    · exact hI.single c'
  · intro r hr
    simp only [IdeVars.setQueue] at hr
    split at hr
    · exact absurd hr List.not_mem_nil
    · exact hI.handled r hr

/-- The handler of a channel with one request in its queue: the request is
popped, its callback is run, and when that leaves the queue empty nothing is
issued again. -/
theorem irq_ok {ctl : Controller} {callback : StorRequest → Int → IdeVars σ → Kernel (IdeVars σ)}
    {c : Channel} {s s' : IdeVars σ} {item : StorRequest} {bmStatus drvStatus : Nat}
    (hport : (ctl.channels c).dmaIo = true) (hqueue : s.queue c = [item])
    (hset : item.callback = true)
    (hcb : callback item (irqResult bmStatus drvStatus)
      (((s.setQueue c []).note (.popped item)).note (.called item (irqResult bmStatus drvStatus)))
        = .ok s')
    (hafter : s'.queue c = []) : irq ctl callback c bmStatus drvStatus s = .ok s' := by
  cases c <;>
    simp
    [irq, primaryIrq, secondaryIrq, hport, idePopQueue, hqueue, hset, hcb, irqIssueNext, hafter]

/-- One interrupt keeps the invariant when its callback submits to the other
channel only: the queue it looks at last is then still the one it popped. -/
theorem interrupt_ok {ctl : Controller} {s : IdeVars σ} {c : Channel} {inside : List StorRequest}
    (bmStatus drvStatus : Nat) (hI : Inv s) (hport : (ctl.channels c).dmaIo = true)
    (hempty : EmptyFor ctl inside (s.setQueue c (s.queue c).tail))
    (hoff : ∀ r ∈ inside, Supported ctl r ∧ r.channel ctl ≠ c) :
    ∃ s', irq ctl (fun _ _ => submitAll ctl inside) c bmStatus drvStatus s = .ok s' ∧ Inv s' := by
  cases hqueue : s.queue c with
  | nil =>
    refine ⟨s, ?_, hI⟩
    cases c <;> simp [irq, primaryIrq, secondaryIrq, hport, idePopQueue, hqueue]
  | cons item rest =>
    have hsingle := hI.single c
    obtain rfl : rest = [] := by simpa [hqueue] using hsingle
    cases hset : item.callback with
    | true =>
      have hpop : Inv (((s.setQueue c []).note (.popped item)).note
          (.called item (irqResult bmStatus drvStatus))) := by
        have hnew : IssuesOnce [.popped item, .called item (irqResult bmStatus drvStatus)] :=
          ⟨rfl, by simp [calledOf, poppedOf, hset]⟩
        simpa [IdeVars.note, IdeVars.setQueue] using inv_of_pop (c := c) hI hnew
      rw [hqueue] at hempty
      obtain ⟨s', hs', hI', hq'⟩ := submitAll_ok inside _ hpop
        (emptyFor_congr (s := s.setQueue c []) rfl hempty) hoff
      refine ⟨s', irq_ok hport hqueue hset hs' ?_, hI'⟩
      simpa [IdeVars.note, IdeVars.setQueue] using hq'
    | false =>
      -- a NULL callback is skipped by the primary handler; on the other channel there is none
      cases c with
      | secondary => simp [hI.handled item (by simp [hqueue])] at hset
      | primary =>
        refine ⟨(s.setQueue .primary []).note (.popped item), ?_, ?_⟩
        · simp [irq, primaryIrq, hport, idePopQueue, hqueue, hset, irqIssueNext, IdeVars.note,
            IdeVars.setQueue]
        · exact inv_of_pop hI ⟨rfl, by simp [calledOf, poppedOf, hset]⟩

theorem finish_queue (s : IdeVars σ) (c : Channel) : (s.finish c).queue = s.queue := by
  unfold IdeVars.finish
  split <;> rfl

theorem inv_of_finish {s : IdeVars σ} (hI : Inv s) (c : Channel) : Inv (s.finish c) := by
  constructor
  · unfold IdeVars.finish
    split
    · exact hI.once
    · exact issuesOnce_append hI.once ⟨rfl, rfl⟩
  · rw [finish_queue]
    exact hI.single
  · rw [finish_queue]
    exact hI.handled

theorem step_preserves (ctl : Controller) (s : IdeVars σ) (i : Input) (hI : Inv s)
    (h : NoReentry ctl s i) : ∃ s' o, step ctl s i = .ok (s', o) ∧ Inv s' := by
  cases i with
  | submit r =>
    obtain ⟨⟨hempty, _⟩, hsup⟩ := h
    exact ⟨_, (), by simp only [step, ideSubmit_ok hsup hempty], inv_of_submit hI hsup hempty⟩
  | interrupt c bmStatus drvStatus inside =>
    obtain ⟨hempty, hport, hoff⟩ := h
    have hempty' : EmptyFor ctl inside ((s.finish c).setQueue c ((s.finish c).queue c).tail) := by
      apply emptyFor_congr (s := s.setQueue c (s.queue c).tail) _ hempty
      simp only [IdeVars.setQueue, finish_queue]
    obtain ⟨s', hs', hI'⟩ :=
      interrupt_ok bmStatus drvStatus (inv_of_finish hI c) hport hempty' hoff
    exact ⟨s', (), by simp only [step, hs'], hI'⟩

/-- Along every run that meets the condition all calls return, every submitted
request has been issued exactly once and in order, and every interrupt that
found a request called its callback once. -/
theorem run_issues_once (ctl : Controller) (inputs : List Input)
    (h : Meets (step ctl) (NoReentry ctl) (IdeVars.init ()) inputs) :
    ∃ s' os, run (step ctl) (IdeVars.init ()) inputs = .ok (s', os) ∧ IssuesOnce s'.log := by
  have hinit : Inv (IdeVars.init ()) := ⟨⟨rfl, rfl⟩, by simp [IdeVars.init], by simp [IdeVars.init]⟩
  obtain ⟨s', os, hrun, hI⟩ := run_preserves (step_preserves ctl) inputs _ hinit h
  exact ⟨s', os, hrun, hI.once⟩

/-! ## A run inside the condition, and one outside it -/

/-- Both channels do DMA; a drive on each. -/
def twoChannels : Controller where
  channels := fun _ => { hasDma := true, dmaIo := true }
  devices := fun i => { present := i == 0 || i == 2, slave := false, sizeType := .lba48,
                        channel := if i = 2 then .secondary else .primary }
  wired := by
    intro i
    by_cases h : i = 2
    · simp [h]
    · by_cases h' : i = 0 <;> simp [h, h']

/-- A one-sector read from the drive. -/
def readSector (ctx device : Nat) : StorRequest :=
  { ctx := ctx, device := device, lba := 0, chunkList := [(0x1000, 1)], action := .read,
    callback := true }

theorem readSector_supported (ctx device : Nat) :
    Supported twoChannels (readSector ctx device) where
  dma := rfl
  port := rfl
  lba := by simp [twoChannels]
  aligned := by simp [readSector]
  nonempty := by simp [readSector]
  handled := fun _ => rfl

/-- A completion on the primary channel that submits to the secondary one. -/
def crossChannelRun : List Input :=
  [.submit (readSector 0 0), .interrupt .primary 0 0 [readSector 1 2], .interrupt .secondary 0 0 []]

theorem crossChannelRun_issues_once :
    ∃ s' os, run (step twoChannels) (IdeVars.init ()) crossChannelRun = .ok (s', os) ∧
      IssuesOnce s'.log := by
  apply run_issues_once
  refine (meets_cons_ok rfl).2 ⟨⟨by decide, readSector_supported 0 0⟩, ?_⟩
  refine (meets_cons_ok rfl).2 ⟨⟨by decide, rfl, ?_⟩, ?_⟩
  · intro r hr
    obtain rfl := List.mem_singleton.1 hr
    exact ⟨readSector_supported 1 2, by decide⟩
  · exact (meets_cons_ok rfl).2 ⟨⟨by decide, rfl, by simp⟩, trivial⟩

/-- The completion of the first read submits a second one to its own channel,
on an empty queue: `ide_submit` issues it, and so does the handler. -/
theorem resubmission_issues_twice :
    Meets (step twoChannels) (OnEmptyQueue twoChannels) (IdeVars.init ())
      [.submit (readSector 0 0), .interrupt .primary 0 0 [readSector 1 0]] ∧
    ∃ s' os, run (step twoChannels) (IdeVars.init ())
        [.submit (readSector 0 0), .interrupt .primary 0 0 [readSector 1 0]] = .ok (s', os) ∧
      submittedOf s'.log = [readSector 0 0, readSector 1 0] ∧
      issuedOf s'.log = [readSector 0 0, readSector 1 0, readSector 1 0] ∧ ¬ IssuesOnce s'.log := by
  refine ⟨by decide, _, _, rfl, by decide, by decide, ?_⟩
  intro h
  exact absurd h.issued (by decide)

end X86Kernel.Ide
