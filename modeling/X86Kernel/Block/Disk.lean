import Mathlib.Data.List.Perm.Basic
import X86Kernel.Utils.RingQueue
import X86Kernel.Block.Ide

/- The block layer over the IDE driver (`kernel/services/block/`,
   `kernel/drivers/storage.c`): `block_submit` on disks and partitions, the
   admission test, `stor_submit`, and `stor_disk_cb`, which the driver's
   interrupt handler runs when a command is done.

   What is proved: along every run in which each submission reaches the driver
   while no request is outstanding on its channel, the drives are on the
   primary channel, completions are without error and completion callbacks do
   not submit, no call faults, at most one request is outstanding per drive and
   per channel, no accepted request is lost, and each has its callback called
   exactly once, by the interrupt of its own completion (`run_keeps_protocol`).
   Nothing ever counts `active_requests` up, so admission never refuses: a
   second submission to a busy channel fails the driver's assertion
   (`second_drive_fails_assertion`).

   `block_submit` does not hold the device's lock between the admission test
   and `stor_submit`, so a call is two steps here, and other calls and
   interrupts may come between them. The page tables that `virt_to_phys` reads
   are a parameter, and so are the addresses `kmalloc` puts requests at.

   Correspondence (C ↔ Lean):
     `virt_to_phys`                 ↔ `virtToPhys`
     `spinlock_lock`                ↔ `spinlockLock`
     `block_submit`                 ↔ `blockSubmit`
     `block_submit_disk`            ↔ `blockSubmitDiskCheck`, `blockSubmitDiskFinish`
     `block_submit_partition`       ↔ `blockSubmitPartition`
     `block_partition_cb`           ↔ `blockPartitionCb`
     `block_disk_make_stor_request` ↔ `blockDiskMakeStorRequest`
     `stor_submit`                  ↔ `storSubmit`
     `stor_disk_cb`                 ↔ `storDiskCb` -/
namespace X86Kernel.Disk
open X86Kernel.Lib X86Kernel.Ide X86Kernel.Ring

/-- `stor_device_t`; `ideDevice` is the drive behind `dev_data`. -/
structure StorDevice where
  ideDevice : Nat
  sectorSize : Nat
  activeRequests : Nat
  maxRequests : Nat
  locked : Bool

/-- A disk's part of `block_device_t`. Its block size is the drive's sector size. -/
structure DiskDevice where
  hwDevice : Nat
  queue : RingQueue

/-- A partition's part; `block_partition_generate` asserts that it is on a disk. -/
structure PartitionDevice where
  disk : Nat
  blockOffset : Nat

inductive BlockDevice where
  | disk (i : Nat)
  | partition (i : Nat)
  deriving DecidableEq

/-- The callback of a request: one of the caller's, or `block_partition_cb`
with the partition's request as context. -/
inductive BlockCb where
  | user
  | partition (user : Ptr)
  deriving DecidableEq

structure BlockRequest where
  device : BlockDevice
  io : Action
  blockOffset : Nat
  blockCount : Nat
  vbuffer : Nat
  cb : BlockCb
  deriving DecidableEq

/-- The block layer: the devices, the requests on the heap, the submissions
between their two steps (with the answer of the admission test), and the
requests accepted and called back so far. -/
structure Block where
  stor : Nat → StorDevice
  disks : Nat → DiskDevice
  partitions : Nat → PartitionDevice
  requests : Ptr → Option BlockRequest
  inProgress : List (Ptr × Bool)
  accepted : List (Ptr × BlockRequest)
  delivered : List (Ptr × BlockRequest)

/-- The drive and the driver under it. -/
abbrev System := IdeVars Block

def System.setStor (s : System) (d : Nat) (dev : StorDevice) : System :=
  { s with outer := { s.outer with stor := fun d' => if d' = d then dev else s.outer.stor d' } }

def System.setQueueOf (s : System) (i : Nat) (q : RingQueue) : System :=
  { s with outer := { s.outer with
      disks := fun i' => if i' = i then
      { s.outer.disks i with queue := q } else s.outer.disks i' } }

/-- The disk under a block device. -/
def Block.diskOf (b : Block) : BlockDevice → Nat
  | .disk i => i
  | .partition i => (b.partitions i).disk

/-- The drive under a disk. -/
def Block.hwOf (b : Block) (disk : Nat) : Nat := (b.disks disk).hwDevice

def Block.blockSize (b : Block) (dev : BlockDevice) : Nat :=
  (b.stor (b.hwOf (b.diskOf dev))).sectorSize

/-! ## The calls -/

def spinlockLock (s : System) (d : Nat) : Kernel System :=
  if (s.outer.stor d).locked then .error .deadlock
  else .ok (s.setStor d { s.outer.stor d with locked := true })

def spinlockUnlock (s : System) (d : Nat) : System :=
  s.setStor d { s.outer.stor d with locked := false }

/-- `block_req_generate`: the request goes to the block at `addr`. -/
def blockReqGenerate (s : System) (addr : Ptr) (r : BlockRequest) : System :=
  { s with outer := { s.outer with
      requests := fun a => if a = addr then some r else s.outer.requests a
      accepted := s.outer.accepted ++ [(addr, r)] } }

def blockReqCleanup (s : System) (addr : Ptr) : System :=
  { s with outer := { s.outer with
      requests := fun a => if a = addr then none else s.outer.requests a } }

/-- The test `block_submit` makes of the buffer. -/
def bufferAligned (blockSize vbuffer : Nat) : Bool :=
  vbuffer &&& (blockSize + 2 ^ 64 - 1) % 2 ^ 64 == 0

/-- The first half of `block_submit_disk`: may the drive take a request? -/
def blockSubmitDiskCheck (s : System) (addr : Ptr) (disk : Nat) : Kernel (System × Ptr × Bool) :=
  let d := s.outer.hwOf disk
  match spinlockLock s d with
  | .error e => .error e
  | .ok s =>
    let canAddRequest := decide ((s.outer.stor d).activeRequests < (s.outer.stor d).maxRequests)
    .ok (spinlockUnlock s d, addr, canAddRequest)

/-- `block_submit` on a disk, up to the end of the admission test. -/
def blockSubmitDisk (s : System) (addr : Ptr) (disk : Nat) (r : BlockRequest) :
    Kernel (System × Ptr × Bool) :=
  match assert (bufferAligned (s.outer.blockSize r.device) r.vbuffer) with
  | .error e => .error e
  | .ok () => blockSubmitDiskCheck (blockReqGenerate s addr r) addr disk

/-- A call of `block_submit` by the rest of the kernel: the device, the
arguments, and the blocks `kmalloc` returns for the request and, on a
partition, for the request that the partition makes of its disk. -/
structure Call where
  device : BlockDevice
  io : Action
  vbuffer : Nat
  blockCount : Nat
  blockOffset : Nat
  addr : Ptr
  diskAddr : Ptr

/-- The request of the caller. -/
def Call.request (call : Call) : BlockRequest :=
  { device := call.device, io := call.io, blockOffset := call.blockOffset,
    blockCount := call.blockCount, vbuffer := call.vbuffer, cb := .user }

/-- The request a partition makes of its disk. -/
def Call.diskRequest (call : Call) (p : PartitionDevice) : BlockRequest :=
  { call.request with
    device := .disk p.disk
    blockOffset := (p.blockOffset + call.blockOffset) % 2 ^ 64
    cb := .partition call.addr }

def blockSubmitPartition (s : System) (call : Call) (p : PartitionDevice) :
    Kernel (System × Ptr × Bool) :=
  blockSubmitDisk s call.diskAddr p.disk (call.diskRequest p)

/-- `block_submit`, up to the end of the admission test: the disk's request and
the answer. -/
def blockSubmit (s : System) (call : Call) : Kernel (System × Ptr × Bool) :=
  match call.device with
  | .disk i => blockSubmitDisk s call.addr i call.request
  | .partition i =>
    match assert (bufferAligned (s.outer.blockSize call.device) call.vbuffer) with
    | .error e => .error e
    | .ok () =>
      blockSubmitPartition (blockReqGenerate s call.addr call.request) call (s.outer.partitions i)

/-- `virt_to_phys`: `frame` gives the frame a page is mapped to, if it is. -/
def virtToPhys (frame : Nat → Option Nat) (vaddr : Nat) : Nat :=
  match frame (vaddr / pageSize) with
  | none => 0
  | some f => f * pageSize + vaddr % pageSize

/-- The request for the drive that a disk's request is turned into. -/
def storRequestOf (frame : Nat → Option Nat) (b : Block) (addr : Ptr) (r : BlockRequest) :
    StorRequest :=
  let dev := b.stor (b.hwOf (b.diskOf r.device))
  { ctx := addr.toNat
    device := dev.ideDevice
    lba := r.blockOffset * b.blockSize r.device % 2 ^ 64 / dev.sectorSize
    chunkList := [(virtToPhys frame r.vbuffer,
      r.blockCount * b.blockSize r.device % 2 ^ 64 / dev.sectorSize)]
    action := r.io
    callback := true }

def blockDiskMakeStorRequest (frame : Nat → Option Nat) (s : System) (addr : Ptr) :
    Kernel StorRequest :=
  match s.outer.requests addr with
  | none => .error .nullDeref
  | some r =>
    match assert (r.vbuffer % s.outer.blockSize r.device == 0) with
    | .error e => .error e
    | .ok () => .ok (storRequestOf frame s.outer addr r)

/-- `stor_submit`, with the drive's number beside the request. -/
def storSubmit (ctl : Controller) (s : System) (d : Nat) (r : StorRequest) :
    Kernel (System × Bool) :=
  match spinlockLock s d with
  | .error e => .error e
  | .ok s =>
    if (s.outer.stor d).activeRequests < (s.outer.stor d).maxRequests then
      match ideSubmit ctl s r with
      | .error e => .error e
      | .ok s => .ok (spinlockUnlock s d, true)
    else .ok (spinlockUnlock s d, false)

/-- The second half of `block_submit_disk`. The answer of `stor_submit` is
dropped. -/
def blockSubmitDiskFinish (ctl : Controller) (frame : Nat → Option Nat) (junk : Nat → Ptr)
    (s : System) (addr : Ptr) (canAddRequest : Bool) : Kernel System :=
  match s.outer.requests addr with
  | none => .error .nullDeref
  | some r =>
    let disk := s.outer.diskOf r.device
    if canAddRequest then
      match blockDiskMakeStorRequest frame s addr with
      | .error e => .error e
      | .ok storRequest =>
        match storSubmit ctl s (s.outer.hwOf disk) storRequest with
        | .error e => .error e
        | .ok (s, _) => .ok s
    else
      match ringQueuePush junk (s.outer.disks disk).queue addr with
      | .error e => .error e
      | .ok q => .ok (s.setQueueOf disk q)

/-- A callback starts. -/
def System.deliver (s : System) (addr : Ptr) (r : BlockRequest) : System :=
  { s with outer := { s.outer with delivered := s.outer.delivered ++ [(addr, r)] } }

/-- `block_partition_cb`: run the callback of the partition's request, free it. -/
def blockPartitionCb (userCb : System → Kernel System) (s : System) (user : Ptr) (result : Int) :
    Kernel System :=
  match assert (decide (0 ≤ result)) with
  | .error e => .error e
  | .ok () =>
    match s.outer.requests user with
    | none => .error .nullDeref
    | some r =>
      match userCb (s.deliver user r) with
      | .error e => .error e
      | .ok s => .ok (blockReqCleanup s user)

/-- `block_request->cb(block_request, result)`. -/
def blockCb (userCb : System → Kernel System) (s : System) (addr : Ptr) (r : BlockRequest)
    (result : Int) : Kernel System :=
  match r.cb with
  | .user => userCb (s.deliver addr r)
  | .partition user => blockPartitionCb userCb (s.deliver addr r) user result

/-- The end of `stor_disk_cb`, with the lock held: start a deferred request. -/
def storDiskNext (ctl : Controller) (frame : Nat → Option Nat) (s : System) (disk d : Nat) :
    Kernel System :=
  let queue := (s.outer.disks disk).queue
  if (s.outer.stor d).activeRequests < (s.outer.stor d).maxRequests ∧ !ringQueueIsEmpty queue then
    match ringQueuePop queue with
    | .error e => .error e
    | .ok (queue, next) =>
      let s := s.setQueueOf disk queue
      match blockDiskMakeStorRequest frame s next with
      | .error e => .error e
      | .ok nextStorRequest =>
        match storSubmit ctl s d nextStorRequest with
        | .error e => .error e
        | .ok (s, success) =>
          match assert success with
          | .error e => .error e
          | .ok () => .ok s
  else .ok s

def storDiskCb (ctl : Controller) (frame : Nat → Option Nat) (userCb : System → Kernel System)
    (storRequest : StorRequest) (result : Int) (s : System) : Kernel System :=
  match assert (decide (0 ≤ result)) with
  | .error e => .error e
  | .ok () =>
    let addr : Ptr := BitVec.ofNat 32 storRequest.ctx
    match s.outer.requests addr with
    | none => .error .nullDeref
    | some r =>
      let disk := s.outer.diskOf r.device
      let d := s.outer.hwOf disk
      match blockCb userCb s addr r result with
      | .error e => .error e
      | .ok s =>
        match spinlockLock (blockReqCleanup s addr) d with
        | .error e => .error e
        | .ok s =>
          match storDiskNext ctl frame s disk d with
          | .error e => .error e
          | .ok s => .ok (spinlockUnlock s d)

/-! ## Runs -/

/-- A callback that makes the given calls one after the other. Interrupts are
off while it runs, so both halves of a call run together. -/
def submitInside (ctl : Controller) (frame : Nat → Option Nat) :
    List (Call × (Nat → Ptr)) → System → Kernel System
  | [], s => .ok s
  | (call, junk) :: rest, s =>
    match blockSubmit s call with
    | .error e => .error e
    | .ok (s, addr, canAddRequest) =>
      match blockSubmitDiskFinish ctl frame junk s addr canAddRequest with
      | .error e => .error e
      | .ok s => submitInside ctl frame rest s

/-- A call of `block_submit`; the `k`-th unfinished call going on after its
admission test; an interrupt, with what the caller's callback submits. -/
inductive Input where
  | submit (call : Call)
  | proceed (k : Nat) (junk : Nat → Ptr)
  | interrupt (c : Channel) (bmStatus drvStatus : Nat) (inside : List (Call × (Nat → Ptr)))

def System.setInProgress (s : System) (calls : List (Ptr × Bool)) : System :=
  { s with outer := { s.outer with inProgress := calls } }

def step (ctl : Controller) (frame : Nat → Option Nat) (s : System) : Input → Kernel (System × Unit)
  | .submit call =>
    match blockSubmit s call with
    | .error e => .error e
    | .ok (s, addr, canAddRequest) =>
      .ok (s.setInProgress (s.outer.inProgress ++ [(addr, canAddRequest)]), ())
  | .proceed k junk =>
    match s.outer.inProgress[k]? with
    | none => .ok (s, ())
    | some (addr, canAddRequest) =>
      match blockSubmitDiskFinish ctl frame junk
          (s.setInProgress (s.outer.inProgress.eraseIdx k)) addr canAddRequest with
      | .error e => .error e
      | .ok s => .ok (s, ())
  | .interrupt c bmStatus drvStatus inside =>
    match irq ctl (storDiskCb ctl frame (submitInside ctl frame inside)) c bmStatus drvStatus
        (s.finish c) with
    | .error e => .error e
    | .ok s => .ok (s, ())

/-! ## The protocol -/

/-- The block layer when its devices have just been made: IDE drives, which
take one request at a time and have sectors of 512 bytes. -/
structure Start (b : Block) : Prop where
  stor : ∀ d, (b.stor d).activeRequests = 0 ∧ (b.stor d).maxRequests = 1 ∧
    (b.stor d).sectorSize = 512 ∧ (b.stor d).locked = false
  rings : ∀ i, ∃ junk, (b.disks i).queue = ringQueueInit junk
  requests : ∀ a, b.requests a = none
  inProgress : b.inProgress = []
  accepted : b.accepted = []
  delivered : b.delivered = []

/-- The requests that the callback of the disk request at `addr` will serve:
itself, and the partition's request it was made for. -/
def served (requests : Ptr → Option BlockRequest) (addr : Ptr) : List (Ptr × BlockRequest) :=
  match requests addr with
  | none => []
  | some r =>
    (addr, r) ::
      match r.cb with
      | .user => []
      | .partition user => (requests user).toList.map (user, ·)

/-- The disk requests that are between their two steps or at the drives. -/
def pending (s : System) : List Ptr :=
  s.outer.inProgress.map (·.1) ++
    (s.queue .primary ++ s.queue .secondary).map fun r => BitVec.ofNat 32 r.ctx

/-- The requests still to be called back. -/
def waiting (s : System) : List (Ptr × BlockRequest) :=
  (pending s).flatMap (served s.outer.requests)

/-- The requests of drive `d` that the hardware works on. -/
def outstanding (s : System) (d : Nat) : List StorRequest :=
  (s.busy .primary ++ s.busy .secondary).filter (·.device == (s.outer.stor d).ideDevice)

def finishedOf (log : List Event) : List StorRequest :=
  log.filterMap fun | .finished r => some r | _ => none

/-- Is the request one that a disk was given? -/
def BlockRequest.onDisk (r : BlockRequest) : Bool :=
  match r.device with
  | .disk _ => true
  | .partition _ => false

/-- What the protocol promises of a reached state: at most one request at each
channel and at most `max_requests` at each drive, accepted requests are called
back once or still waiting, and the disk callbacks called are those of the
commands the hardware has finished, in that order. -/
structure Protocol (s : System) : Prop where
  channel : ∀ c, (s.busy c).length ≤ 1
  drive : ∀ d, (outstanding s d).length ≤ (s.outer.stor d).maxRequests
  kept : s.outer.accepted.Perm (s.outer.delivered ++ waiting s)
  own : (s.outer.delivered.filter (·.2.onDisk)).map (·.1.toNat) =
    (finishedOf s.log).map (·.ctx)

/-- What callers, `kmalloc` and the hardware promise: buffers are sector
aligned, new requests go to unused memory, the drive supports the request, and
an interrupt comes when a command is done. -/
def Legal (ctl : Controller) (frame : Nat → Option Nat) (s : System) : Input → Prop
  | .submit call => call.vbuffer % 512 = 0 ∧ call.addr ≠ call.diskAddr ∧
    s.outer.requests call.addr = none ∧ s.outer.requests call.diskAddr = none
  | .proceed k _ => ∀ p ∈ s.outer.inProgress[k]?, ∀ r ∈ s.outer.requests p.1,
    Supported ctl (storRequestOf frame s.outer p.1 r)
  | .interrupt c _ _ _ => s.busy c ≠ []

/-- The condition of the theorem: a submission reaches the driver when its
channel, the primary one, has no request; completions are without error, and
their callbacks submit nothing. -/
def Alone (ctl : Controller) (frame : Nat → Option Nat) (s : System) (i : Input) : Prop :=
  Legal ctl frame s i ∧
  match i with
  | .submit _ => True
  | .proceed k _ => ∀ p ∈ s.outer.inProgress[k]?, ∀ r ∈ s.outer.requests p.1,
    (storRequestOf frame s.outer p.1 r).channel ctl = .primary ∧ s.queue .primary = []
  | .interrupt _ bmStatus drvStatus inside =>
    bmStatus &&& 1 = 0 ∧ drvStatus &&& 1 = 0 ∧ inside = []

/-! ## The heap of requests -/

/-- A disk request with everything its callback needs. -/
def Complete (requests : Ptr → Option BlockRequest) (addr : Ptr) : Prop :=
  ∃ r, requests addr = some r ∧ r.onDisk = true ∧ r.vbuffer % 512 = 0 ∧
    ∀ user, r.cb = .partition user → ∃ ur, requests user = some ur ∧ ur.onDisk = false

theorem served_frame {req req' : Ptr → Option BlockRequest} {addr : Ptr} (h : Complete req addr)
    (hframe : ∀ x ∈ (served req addr).map (·.1), req' x = req x) :
    Complete req' addr ∧ served req' addr = served req addr := by
  obtain ⟨r, hr, hdisk, hbuf, hcb⟩ := h
  have hr' : req' addr = some r := by
    rw [hframe addr (by simp [served, hr]), hr]
  cases hc : r.cb with
  | user =>
    exact ⟨⟨r, hr', hdisk, hbuf, by simp [hc]⟩, by simp [served, hr, hr', hc]⟩
  | partition user =>
    obtain ⟨ur, hur, hpart⟩ := hcb user hc
    have hur' : req' user = some ur := by
      rw [hframe user (by simp [served, hr, hc, hur]), hur]
    refine ⟨⟨r, hr', hdisk, hbuf, ?_⟩, by simp [served, hr, hr', hc, hur, hur']⟩
    intro user' huser'
    obtain rfl : user = user' := by simpa [hc] using huser'
    exact ⟨ur, hur', hpart⟩

theorem served_live {req : Ptr → Option BlockRequest} {addr x : Ptr}
    (hx : x ∈ (served req addr).map (·.1)) : req x ≠ none := by
  unfold served at hx
  split at hx
  · simp at hx
  · rename_i r hr
    split at hx
    · obtain rfl : x = addr := by simpa using hx
      simp [hr]
    · rename_i user hc
      simp only [List.map_cons, List.map_map, List.mem_cons, List.mem_map] at hx
      rcases hx with rfl | ⟨ur, hur, rfl⟩
      · simp [hr]
      · have hlive : req user = some ur := by simpa using hur
        simp [hlive]

theorem flatMap_served_frame {req req' : Ptr → Option BlockRequest} {addrs : List Ptr}
    (h : ∀ a ∈ addrs, Complete req a)
    (hframe : ∀ x ∈ (addrs.flatMap (served req)).map (·.1), req' x = req x) :
    (∀ a ∈ addrs, Complete req' a) ∧ addrs.flatMap (served req') = addrs.flatMap (served req) := by
  have heach : ∀ a ∈ addrs, Complete req' a ∧ served req' a = served req a := by
    intro a ha
    apply served_frame (h a ha)
    intro x hx
    apply hframe
    obtain ⟨p, hp, rfl⟩ := List.mem_map.1 hx
    exact List.mem_map_of_mem (List.mem_flatMap.2 ⟨a, ha, hp⟩)
  exact ⟨fun a ha => (heach a ha).1, List.flatMap_congr fun a ha => (heach a ha).2⟩

/-! ## What one call does -/

theorem spinlock_roundtrip {s : System} {d : Nat} (h : (s.outer.stor d).locked = false) :
    spinlockLock s d = .ok (s.setStor d { s.outer.stor d with locked := true }) ∧
      spinlockUnlock (s.setStor d { s.outer.stor d with locked := true }) d = s := by
  constructor
  · simp [spinlockLock, h]
  · have hstor : (fun d' => if d' = d then { s.outer.stor d with locked := false }
        else s.outer.stor d') = s.outer.stor := by
      funext d'
      split
      · rename_i hd
        rw [hd, ← h]
      · rfl
    have hset : ∀ d', (if d' = d then { s.outer.stor d with locked := false }
        else if d' = d then { s.outer.stor d with locked := true } else s.outer.stor d') =
        s.outer.stor d' := by
      intro d'
      rw [← congrFun hstor d']
      split <;> rfl
    simp only [spinlockUnlock, System.setStor, if_true, hset]

theorem bufferAligned_512 {vbuffer : Nat} (h : vbuffer % 512 = 0) :
    bufferAligned 512 vbuffer = true := by
  have hmask : vbuffer &&& 2 ^ 9 - 1 = vbuffer % 2 ^ 9 := Nat.and_two_pow_sub_one_eq_mod ..
  simpa [bufferAligned, h] using hmask

/-- Every drive is idle for the admission test and unlocked. -/
def Idle (b : Block) : Prop :=
  ∀ d, (b.stor d).activeRequests = 0 ∧ (b.stor d).maxRequests = 1 ∧
    (b.stor d).sectorSize = 512 ∧ (b.stor d).locked = false

theorem blockSubmitDisk_ok {s : System} (hidle : Idle s.outer) {r : BlockRequest}
    (hbuf : r.vbuffer % 512 = 0) (addr : Ptr) (disk : Nat) :
    blockSubmitDisk s addr disk r = .ok (blockReqGenerate s addr r, addr, true) := by
  have hassert : assert (bufferAligned (s.outer.blockSize r.device) r.vbuffer) = .ok () := by
    rw [Block.blockSize, (hidle _).2.2.1, bufferAligned_512 hbuf]
    rfl
  obtain ⟨hactive, hmax, _, hlock⟩ := hidle (s.outer.hwOf disk)
  obtain ⟨hl, hu⟩ := spinlock_roundtrip (s := blockReqGenerate s addr r) hlock
  have hhw : (blockReqGenerate s addr r).outer.hwOf disk = s.outer.hwOf disk := rfl
  simp only [blockSubmitDisk, hassert, blockSubmitDiskCheck, hhw, hl, hu]
  simp [System.setStor, blockReqGenerate, hactive, hmax]

theorem storSubmit_ok {ctl : Controller} {s : System} (hidle : Idle s.outer) {r : StorRequest}
    (hsup : Supported ctl r) (hempty : s.queue (r.channel ctl) = []) (d : Nat) :
    storSubmit ctl s d r = .ok (s.afterSubmit ctl r, true) := by
  obtain ⟨hactive, hmax, _, hlock⟩ := hidle d
  obtain ⟨hl, _⟩ := spinlock_roundtrip hlock
  obtain ⟨_, hu⟩ := spinlock_roundtrip (s := s.afterSubmit ctl r) hlock
  have hadmit : ((s.setStor d { s.outer.stor d with locked := true }).outer.stor d).activeRequests <
      ((s.setStor d { s.outer.stor d with locked := true }).outer.stor d).maxRequests := by
    simp [System.setStor, hactive, hmax]
  have hide : ideSubmit ctl (s.setStor d { s.outer.stor d with locked := true }) r =
      .ok (System.setStor (s.afterSubmit ctl r) d { s.outer.stor d with locked := true }) :=
    ideSubmit_ok hsup hempty
  simp only [storSubmit, hl, if_pos hadmit, hide]
  exact congrArg (fun t => Except.ok (t, true)) hu

/-- A submission that goes on while its channel has no request. -/
theorem blockSubmitDiskFinish_ok {ctl : Controller} {frame : Nat → Option Nat} {s : System}
    (hidle : Idle s.outer) {addr : Ptr} {r : BlockRequest} (hr : s.outer.requests addr = some r)
    (hbuf : r.vbuffer % 512 = 0) (hsup : Supported ctl (storRequestOf frame s.outer addr r))
    (hempty : s.queue ((storRequestOf frame s.outer addr r).channel ctl) = [])
    (junk : Nat → Ptr) :
    blockSubmitDiskFinish ctl frame junk s addr true =
      .ok (s.afterSubmit ctl (storRequestOf frame s.outer addr r)) := by
  have hassert : assert (r.vbuffer % s.outer.blockSize r.device == 0) = .ok () := by
    rw [Block.blockSize, (hidle _).2.2.1, hbuf]
    rfl
  have hmake : blockDiskMakeStorRequest frame s addr =
      .ok (storRequestOf frame s.outer addr r) := by
    simp only [blockDiskMakeStorRequest, hr, hassert]
  simp only [blockSubmitDiskFinish, hr, if_true, hmake, storSubmit_ok hidle hsup hempty]

theorem storDiskCb_of_blockCb {ctl : Controller} {frame : Nat → Option Nat}
    {userCb : System → Kernel System} {s t : System} {sr : StorRequest} {r : BlockRequest}
    (hr : s.outer.requests (BitVec.ofNat 32 sr.ctx) = some r)
    (hcb : blockCb userCb s (BitVec.ofNat 32 sr.ctx) r 1 = .ok t)
    (hidle : Idle t.outer) (hrings : ∀ i, (t.outer.disks i).queue.count = 0) :
    storDiskCb ctl frame userCb sr 1 s = .ok (blockReqCleanup t (BitVec.ofNat 32 sr.ctx)) := by
  have hassert : assert (decide ((0 : Int) ≤ 1)) = .ok () := rfl
  obtain ⟨hl, hu⟩ := spinlock_roundtrip (s := blockReqCleanup t (BitVec.ofNat 32 sr.ctx))
    (d := s.outer.hwOf (s.outer.diskOf r.device)) (hidle _).2.2.2
  have hnext : ∀ dev, storDiskNext ctl frame
      ((blockReqCleanup t (BitVec.ofNat 32 sr.ctx)).setStor
        (s.outer.hwOf (s.outer.diskOf r.device)) dev)
      (s.outer.diskOf r.device) (s.outer.hwOf (s.outer.diskOf r.device)) =
      .ok ((blockReqCleanup t (BitVec.ofNat 32 sr.ctx)).setStor
        (s.outer.hwOf (s.outer.diskOf r.device)) dev) := by
    intro dev
    simp [storDiskNext, ringQueueIsEmpty, System.setStor, blockReqCleanup, hrings]
  simp only [storDiskCb, hassert, hr, hcb, hl, hnext]
  exact congrArg Except.ok hu

/-- With a callback that submits nothing, the requests `stor_disk_cb` serves are
called back and freed. -/
theorem storDiskCb_ok (ctl : Controller) (frame : Nat → Option Nat) {s : System}
    (hidle : Idle s.outer) (hrings : ∀ i, (s.outer.disks i).queue.count = 0) {sr : StorRequest}
    {addr : Ptr} (haddr : BitVec.ofNat 32 sr.ctx = addr) (hc : Complete s.outer.requests addr) :
    ∃ req', (∀ x, x ∉ (served s.outer.requests addr).map (·.1) → req' x = s.outer.requests x) ∧
      storDiskCb ctl frame (submitInside ctl frame []) sr 1 s =
        .ok { s with outer := { s.outer with
          requests := req'
          delivered := s.outer.delivered ++ served s.outer.requests addr } } := by
  subst haddr
  obtain ⟨r, hr, -, -, hcb⟩ := hc
  cases hcase : r.cb with
  | user =>
    have hblock : blockCb (submitInside ctl frame []) s (BitVec.ofNat 32 sr.ctx) r 1 =
        .ok (s.deliver (BitVec.ofNat 32 sr.ctx) r) := by
      simp only [blockCb, hcase, submitInside]
    refine ⟨fun a => if a = BitVec.ofNat 32 sr.ctx then none else s.outer.requests a, ?_, ?_⟩
    · intro x hx
      have hne : x ≠ BitVec.ofNat 32 sr.ctx := by simpa [served, hr, hcase] using hx
      exact if_neg hne
    · rw [storDiskCb_of_blockCb hr hblock hidle hrings]
      simp [blockReqCleanup, System.deliver, served, hr, hcase]
  | partition user =>
    obtain ⟨ur, hur, -⟩ := hcb user hcase
    have hblock : blockCb (submitInside ctl frame []) s (BitVec.ofNat 32 sr.ctx) r 1 =
        .ok (blockReqCleanup ((s.deliver (BitVec.ofNat 32 sr.ctx) r).deliver user ur) user) := by
      have hassert : assert (decide ((0 : Int) ≤ 1)) = .ok () := rfl
      simp only [blockCb, hcase, blockPartitionCb, hassert, System.deliver, hur, submitInside]
    refine ⟨fun a => if a = BitVec.ofNat 32 sr.ctx then none
      else if a = user then none else s.outer.requests a, ?_, ?_⟩
    · intro x hx
      have hne : x ≠ BitVec.ofNat 32 sr.ctx ∧ x ≠ user := by
        simpa [served, hr, hcase, hur] using hx
      simp only [if_neg hne.1, if_neg hne.2]
    · rw [storDiskCb_of_blockCb hr hblock hidle hrings]
      simp [blockReqCleanup, System.deliver, served, hr, hcase, hur]

/-! ## The invariant and its steps -/

/-- Between two inputs: the drives are idle for the admission test, nothing is
deferred, the primary channel works on the request in its queue and the
secondary one on none, and every pending request is intact on the heap. -/
structure Inv (ctl : Controller) (s : System) : Prop where
  idle : Idle s.outer
  rings : ∀ i, (s.outer.disks i).queue.count = 0
  secondary : s.queue .secondary = [] ∧ s.busy .secondary = []
  primary : s.queue .primary = s.busy .primary
  single : (s.busy .primary).length ≤ 1
  atDrive : ∀ r ∈ s.queue .primary,
    Supported ctl r ∧ r.callback = true ∧ r.channel ctl = .primary ∧ r.ctx < 2 ^ 32
  admitted : ∀ p ∈ s.outer.inProgress, p.2 = true
  complete : ∀ a ∈ pending s, Complete s.outer.requests a
  nodup : ((waiting s).map (·.1)).Nodup
  kept : s.outer.accepted.Perm (s.outer.delivered ++ waiting s)
  own : (s.outer.delivered.filter (·.2.onDisk)).map (·.1.toNat) =
    (finishedOf s.log).map (·.ctx)

theorem Inv.protocol {ctl : Controller} {s : System} (hI : Inv ctl s) : Protocol s where
  channel c := by
    cases c with
    | primary => exact hI.single
    | secondary => simp [hI.secondary.2]
  drive d := by
    rw [(hI.idle d).2.1]
    refine (List.length_filter_le _ _).trans ?_
    simpa [hI.secondary.2] using hI.single
  kept := hI.kept
  own := hI.own

/-- The state after a call has put its requests on the heap and passed the
admission test. -/
def System.accept (s : System) (requests : Ptr → Option BlockRequest)
    (new : List (Ptr × BlockRequest)) (addr : Ptr) : System :=
  { s with outer := { s.outer with
      requests := requests
      accepted := s.outer.accepted ++ new
      inProgress := s.outer.inProgress ++ [(addr, true)] } }

theorem pending_accept (s : System) (req' : Ptr → Option BlockRequest)
    (new : List (Ptr × BlockRequest)) (addr : Ptr) :
    (pending (s.accept req' new addr)).Perm (pending s ++ [addr]) := by
  have hmap : (s.outer.inProgress ++ [(addr, true)]).map (·.1) =
      s.outer.inProgress.map (·.1) ++ [addr] := by simp
  simp only [pending, System.accept, hmap, List.append_assoc]
  exact List.Perm.append_left _ List.perm_append_comm

theorem inv_of_accept {ctl : Controller} {s : System} (hI : Inv ctl s)
    {req' : Ptr → Option BlockRequest} {addr : Ptr} {new : List (Ptr × BlockRequest)}
    (hold : ∀ x, s.outer.requests x ≠ none → req' x = s.outer.requests x)
    (hfresh : ∀ x ∈ (served req' addr).map (·.1), s.outer.requests x = none)
    (hc : Complete req' addr) (hnew : new.Perm (served req' addr))
    (hdistinct : ((served req' addr).map (·.1)).Nodup) : Inv ctl (s.accept req' new addr) := by
  have hlive : ∀ x ∈ (waiting s).map (·.1), s.outer.requests x ≠ none := by
    intro x hx
    obtain ⟨p, hp, rfl⟩ := List.mem_map.1 hx
    obtain ⟨a, -, hpa⟩ := List.mem_flatMap.1 hp
    exact served_live (List.mem_map_of_mem hpa)
  obtain ⟨hcomplete, hsame⟩ := flatMap_served_frame hI.complete fun x hx => hold x (hlive x hx)
  have hpend := pending_accept s req' new addr
  have hwait : (waiting (s.accept req' new addr)).Perm (waiting s ++ served req' addr) := by
    refine (hpend.flatMap_right (served req')).trans ?_
    rw [List.flatMap_append, hsame]
    simp [waiting]
  refine { hI with admitted := ?_, complete := ?_, nodup := ?_, kept := ?_ }
  · intro p hp
    rcases List.mem_append.1 hp with hp | hp
    · exact hI.admitted p hp
    · rw [List.mem_singleton.1 hp]
  · intro a ha
    rcases List.mem_append.1 (hpend.mem_iff.1 ha) with ha | ha
    · exact hcomplete a ha
    · exact List.mem_singleton.1 ha ▸ hc
  · refine ((hwait.map _).nodup_iff).2 ?_
    rw [List.map_append]
    refine List.nodup_append.2 ⟨hI.nodup, hdistinct, ?_⟩
    rintro x hx _ hx' rfl
    exact hlive x hx (hfresh x hx')
  · refine (hI.kept.append hnew).trans ?_
    rw [List.append_assoc]
    exact List.Perm.append_left _ hwait.symm

theorem submit_ok {ctl : Controller} {frame : Nat → Option Nat} {s : System} {call : Call}
    (hI : Inv ctl s) (h : Legal ctl frame s (.submit call)) :
    ∃ s', step ctl frame s (.submit call) = .ok (s', ()) ∧ Inv ctl s' := by
  obtain ⟨hbuf, hne, hfree, hdiskFree⟩ := h
  cases hdev : call.device with
  | disk i =>
    have hsub := blockSubmitDisk_ok hI.idle (r := call.request) hbuf call.addr i
    refine ⟨s.accept (fun a => if a = call.addr then some call.request else s.outer.requests a)
      [(call.addr, call.request)] call.addr, ?_, ?_⟩
    · simp only [step, blockSubmit, hdev, hsub]
      rfl
    · have hserved : served (fun a => if a = call.addr then some call.request
          else s.outer.requests a) call.addr = [(call.addr, call.request)] := by
        simp [served, Call.request]
      apply inv_of_accept hI
      · intro x hx
        have hxa : x ≠ call.addr := fun hxa => hx (hxa ▸ hfree)
        exact if_neg hxa
      · simp [hserved, hfree]
      · exact ⟨call.request, if_pos rfl, by simp [BlockRequest.onDisk, Call.request, hdev], hbuf,
          by simp [Call.request]⟩
      · rw [hserved]
      · simp [hserved]
  | partition i =>
    have hsub := blockSubmitDisk_ok (s := blockReqGenerate s call.addr call.request) hI.idle
      (r := call.diskRequest (s.outer.partitions i)) hbuf call.diskAddr (s.outer.partitions i).disk
    have hassert : assert (bufferAligned (s.outer.blockSize (.partition i)) call.vbuffer) =
        .ok () := by
      rw [Block.blockSize, (hI.idle _).2.2.1, bufferAligned_512 hbuf]
      rfl
    refine ⟨s.accept (fun a => if a = call.diskAddr then
        some (call.diskRequest (s.outer.partitions i))
      else if a = call.addr then some call.request else s.outer.requests a)
      [(call.addr, call.request), (call.diskAddr, call.diskRequest (s.outer.partitions i))]
      call.diskAddr, ?_, ?_⟩
    · simp only [step, blockSubmit, hdev, hassert, blockSubmitPartition, hsub]
      simp [System.setInProgress, System.accept, blockReqGenerate]
    · have hserved : served (fun a => if a = call.diskAddr then
            some (call.diskRequest (s.outer.partitions i))
          else if a = call.addr then some call.request else s.outer.requests a) call.diskAddr =
          [(call.diskAddr, call.diskRequest (s.outer.partitions i)), (call.addr, call.request)] :=
          by
        simp [served, Call.diskRequest, hne]
      apply inv_of_accept hI
      · intro x hx
        have hx₁ : x ≠ call.diskAddr := fun hxa => hx (hxa ▸ hdiskFree)
        have hx₂ : x ≠ call.addr := fun hxa => hx (hxa ▸ hfree)
        simp only [if_neg hx₁, if_neg hx₂]
      · simp [hserved, hfree, hdiskFree]
      · refine ⟨call.diskRequest (s.outer.partitions i), if_pos rfl, rfl, hbuf, ?_⟩
        intro user huser
        obtain rfl : call.addr = user := by simpa [Call.diskRequest] using huser
        exact ⟨call.request, by simp [hne], by simp [BlockRequest.onDisk, Call.request, hdev]⟩
      · rw [hserved]
        exact List.Perm.swap ..
      · simp [hserved, hne.symm]

theorem programmed_primary (ctl : Controller) :
    (ctl.devices Channel.primary.index).channel = .primary := by
  rw [Channel.index, ctl.wired 0]
  simp

theorem Inv.of_pending {ctl : Controller} {s t : System} (hI : Inv ctl s)
    (houter : t.outer = { s.outer with inProgress := t.outer.inProgress })
    (hpend : (pending t).Perm (pending s))
    (hsec : t.queue .secondary = [] ∧ t.busy .secondary = [])
    (hprim : t.queue .primary = t.busy .primary) (hsingle : (t.busy .primary).length ≤ 1)
    (hdrive : ∀ r ∈ t.queue .primary,
      Supported ctl r ∧ r.callback = true ∧ r.channel ctl = .primary ∧ r.ctx < 2 ^ 32)
    (hadmitted : ∀ p ∈ t.outer.inProgress, p.2 = true)
    (hfinished : finishedOf t.log = finishedOf s.log) : Inv ctl t := by
  have hreq : t.outer.requests = s.outer.requests := by rw [houter]
  have hdel : t.outer.delivered = s.outer.delivered := by rw [houter]
  have hacc : t.outer.accepted = s.outer.accepted := by rw [houter]
  have hwait : (waiting t).Perm (waiting s) := by
    rw [waiting, hreq]
    exact hpend.flatMap_right _
  refine ⟨?_, ?_, hsec, hprim, hsingle, hdrive, hadmitted, ?_, ?_, ?_, ?_⟩
  · rw [houter]
    exact hI.idle
  · rw [houter]
    exact hI.rings
  · intro a ha
    rw [hreq]
    exact hI.complete a (hpend.mem_iff.1 ha)
  · exact ((hwait.map _).nodup_iff).2 hI.nodup
  · rw [hacc, hdel]
    exact hI.kept.trans (List.Perm.append_left _ hwait.symm)
  · rw [hdel, hfinished]
    exact hI.own

theorem pending_proceed {ctl : Controller} {s : System} {k : Nat} {addr : Ptr} {b : Bool}
    {sr : StorRequest} (hk : s.outer.inProgress[k]? = some (addr, b))
    (hctx : sr.ctx = addr.toNat) (hch : sr.channel ctl = .primary)
    (hsec : s.queue .secondary = []) (hempty : s.queue .primary = []) :
    (pending ((s.setInProgress (s.outer.inProgress.eraseIdx k)).afterSubmit ctl sr)).Perm
      (pending s) := by
  obtain ⟨hlt, hget⟩ := List.getElem?_eq_some_iff.1 hk
  have hsplit := (List.getElem_cons_eraseIdx_perm hlt).map (·.1)
  rw [hget, List.map_cons] at hsplit
  have haddr : BitVec.ofNat 32 sr.ctx = addr := by rw [hctx, BitVec.ofNat_toNat, BitVec.setWidth_eq]
  simp only [pending, IdeVars.afterSubmit, idePushQueue_queue, System.setInProgress, hch, hempty,
    hsec]
  simpa [haddr] using List.perm_append_comm.trans hsplit

/-- A submission that goes on with its channel free hands the request over to
the driver; it stays pending. -/
theorem proceed_ok {ctl : Controller} {frame : Nat → Option Nat} {s : System} {k : Nat}
    {junk : Nat → Ptr} (hI : Inv ctl s) (h : Alone ctl frame s (.proceed k junk)) :
    ∃ s', step ctl frame s (.proceed k junk) = .ok (s', ()) ∧ Inv ctl s' := by
  cases hk : s.outer.inProgress[k]? with
  | none => exact ⟨s, by simp only [step, hk], hI⟩
  | some p =>
    obtain ⟨addr, canAddRequest⟩ := p
    have hmem : (addr, canAddRequest) ∈ s.outer.inProgress := List.mem_of_getElem? hk
    obtain rfl : canAddRequest = true := hI.admitted _ hmem
    obtain ⟨r, hr, -, hbuf, -⟩ := hI.complete addr (by
      simp only [pending, List.mem_append]
      exact .inl (List.mem_map_of_mem hmem))
    have hsup : Supported ctl (storRequestOf frame s.outer addr r) := h.1 _ hk _ hr
    obtain ⟨hch, hempty⟩ := h.2 _ hk _ hr
    replace hch : (storRequestOf frame s.outer addr r).channel ctl = .primary := hch
    have hfin : blockSubmitDiskFinish ctl frame junk
        (s.setInProgress (s.outer.inProgress.eraseIdx k)) addr true =
        .ok ((s.setInProgress (s.outer.inProgress.eraseIdx k)).afterSubmit ctl
          (storRequestOf frame s.outer addr r)) :=
      blockSubmitDiskFinish_ok (s := s.setInProgress (s.outer.inProgress.eraseIdx k)) hI.idle hr
        hbuf hsup (hch ▸ hempty) junk
    have hbusy : s.busy .primary = [] := hI.primary ▸ hempty
    refine ⟨(s.setInProgress (s.outer.inProgress.eraseIdx k)).afterSubmit ctl
      (storRequestOf frame s.outer addr r), by simp only [step, hk, hfin], hI.of_pending rfl
      (pending_proceed hk rfl hch hI.secondary.1 hempty) ?_ ?_ ?_ ?_ ?_ ?_⟩
    · simp [IdeVars.afterSubmit, hch, programmed_primary ctl, System.setInProgress, hI.secondary]
    · simp [IdeVars.afterSubmit, hch, programmed_primary ctl, System.setInProgress, hempty, hbusy]
    · simp [IdeVars.afterSubmit, hch, programmed_primary ctl, System.setInProgress, hbusy]
    · intro q hq
      obtain rfl : q = storRequestOf frame s.outer addr r := by
        simpa [IdeVars.afterSubmit, hch, System.setInProgress, hempty] using hq
      exact ⟨hsup, rfl, hch, addr.isLt⟩
    · intro q hq
      exact hI.admitted q (List.mem_of_mem_eraseIdx hq)
    · simp [IdeVars.afterSubmit, finishedOf, System.setInProgress]

theorem served_onDisk {req : Ptr → Option BlockRequest} {addr : Ptr} (h : Complete req addr) :
    ((served req addr).filter (·.2.onDisk)).map (·.1.toNat) = [addr.toNat] := by
  obtain ⟨r, hr, hdisk, -, hcb⟩ := h
  cases hc : r.cb with
  | user => simp [served, hr, hc, hdisk]
  | partition user =>
    obtain ⟨ur, hur, hpart⟩ := hcb user hc
    simp [served, hr, hc, hur, hdisk, hpart]

/-- The completion of the primary channel's request: what it serves moves from
the waiting to the delivered requests. -/
theorem inv_of_completion {ctl : Controller} {s : System} {r : StorRequest}
    {req' : Ptr → Option BlockRequest} (result : Int) (hI : Inv ctl s)
    (hqueue : s.queue .primary = [r])
    (hreq : ∀ x, x ∉ (served s.outer.requests (BitVec.ofNat 32 r.ctx)).map (·.1) →
      req' x = s.outer.requests x) :
    Inv ctl { queue := fun _ => []
              busy := fun _ => []
              log := s.log ++ [.finished r, .popped r, .called r result]
              outer := { s.outer with
                requests := req'
                delivered := s.outer.delivered ++
                  served s.outer.requests (BitVec.ofNat 32 r.ctx) } } := by
  have hpend : pending s = s.outer.inProgress.map (·.1) ++ [BitVec.ofNat 32 r.ctx] := by
    simp [pending, hqueue, hI.secondary.1]
  have hwait : waiting s = (s.outer.inProgress.map (·.1)).flatMap (served s.outer.requests) ++
      served s.outer.requests (BitVec.ofNat 32 r.ctx) := by
    simp [waiting, hpend]
  have hnodup := hI.nodup
  rw [hwait, List.map_append, List.nodup_append] at hnodup
  obtain ⟨hnodup₁, -, hdisj⟩ := hnodup
  obtain ⟨hcomplete, hsame⟩ := flatMap_served_frame
    (fun a ha => hI.complete a (by rw [hpend]; exact List.mem_append_left _ ha))
    (fun x hx => hreq x fun hx' => hdisj x hx x hx' rfl)
  have hdone : Complete s.outer.requests (BitVec.ofNat 32 r.ctx) :=
    hI.complete _ (by rw [hpend]; simp)
  refine ⟨hI.idle, hI.rings, ⟨rfl, rfl⟩, rfl, Nat.zero_le 1, by simp, hI.admitted, ?_, ?_, ?_, ?_⟩
  · simpa [pending] using hcomplete
  · simpa [waiting, pending, hsame] using hnodup₁
  · have hkept := hI.kept
    rw [hwait] at hkept
    refine hkept.trans ?_
    simp only [waiting, pending, List.append_nil, List.map_nil, hsame, List.append_assoc]
    exact List.Perm.append_left _ List.perm_append_comm
  · obtain ⟨-, -, -, hctx⟩ := hI.atDrive r (by simp [hqueue])
    simp only [List.filter_append, List.map_append, served_onDisk hdone, hI.own, finishedOf,
      List.filterMap_append]
    simpa using hctx

theorem interrupt_ok {ctl : Controller} {frame : Nat → Option Nat} {s : System} {c : Channel}
    {bmStatus drvStatus : Nat} {inside : List (Call × (Nat → Ptr))} (hI : Inv ctl s)
    (h : Alone ctl frame s (.interrupt c bmStatus drvStatus inside)) :
    ∃ s', step ctl frame s (.interrupt c bmStatus drvStatus inside) = .ok (s', ()) ∧
      Inv ctl s' := by
  obtain ⟨hbusy, hbm, hdrv, rfl⟩ := h
  cases c with
  | secondary => exact absurd hI.secondary.2 hbusy
  | primary =>
    obtain ⟨r, hr⟩ : ∃ r, s.busy .primary = [r] := by
      have hsingle := hI.single
      match hb : s.busy .primary with
      | [] => exact absurd hb hbusy
      | [r] => exact ⟨r, rfl⟩
      | _ :: _ :: _ => simp [hb] at hsingle
    have hqueue : s.queue .primary = [r] := hI.primary.trans hr
    obtain ⟨hsup, hset, hch, -⟩ := hI.atDrive r (by simp [hqueue])
    have hport : (ctl.channels .primary).dmaIo = true := by
      have hp := hsup.port
      rwa [hch, programmed_primary] at hp
    have hresult : irqResult bmStatus drvStatus = 1 := by simp [irqResult, hbm, hdrv]
    have hdone : Complete s.outer.requests (BitVec.ofNat 32 r.ctx) :=
      hI.complete _ (by simp [pending, hqueue])
    -- what the callback is run on
    have hbefore : (((s.finish .primary).setQueue .primary []).note (.popped r)).note
        (.called r 1) = { queue := fun _ => [], busy := fun _ => [],
                          log := s.log ++ [.finished r, .popped r, .called r 1],
                          outer := s.outer } := by
      have hq : (fun c => if c = .primary then [] else s.queue c) = fun _ => [] := by
        funext c
        cases c <;> simp [hI.secondary.1]
      have hb : (fun c => if c = .primary then [] else s.busy c) = fun _ => [] := by
        funext c
        cases c <;> simp [hI.secondary.2]
      simp [IdeVars.finish, hr, IdeVars.setQueue, IdeVars.note, hq, hb]
    obtain ⟨req', hreq, hcb⟩ := storDiskCb_ok ctl frame
      (s := { queue := fun _ => [], busy := fun _ => [],
              log := s.log ++ [.finished r, .popped r, .called r 1], outer := s.outer })
      hI.idle hI.rings rfl hdone
    refine ⟨_, ?_, inv_of_completion 1 hI hqueue hreq⟩
    rw [← hbefore, ← hresult] at hcb
    have hirq := irq_ok hport ((congrFun (finish_queue s .primary) _).trans hqueue) hset hcb rfl
    simp only [step, hirq, hbefore, hresult]

theorem step_preserves (ctl : Controller) (frame : Nat → Option Nat) (s : System) (i : Input)
    (hI : Inv ctl s) (h : Alone ctl frame s i) :
    ∃ s' o, step ctl frame s i = .ok (s', o) ∧ Inv ctl s' := by
  cases i with
  | submit call =>
    obtain ⟨s', hs', hI'⟩ := submit_ok hI h.1
    exact ⟨s', (), hs', hI'⟩
  | proceed k junk =>
    obtain ⟨s', hs', hI'⟩ := proceed_ok hI h
    exact ⟨s', (), hs', hI'⟩
  | interrupt c bmStatus drvStatus inside =>
    obtain ⟨s', hs', hI'⟩ := interrupt_ok hI h
    exact ⟨s', (), hs', hI'⟩

theorem inv_start (ctl : Controller) {b : Block} (h : Start b) : Inv ctl (IdeVars.init b) where
  idle := h.stor
  rings i := by
    obtain ⟨junk, hq⟩ := h.rings i
    simp [IdeVars.init, hq, ringQueueInit]
  secondary := ⟨rfl, rfl⟩
  primary := rfl
  single := Nat.zero_le 1
  atDrive := by simp [IdeVars.init]
  admitted := by simp [IdeVars.init, h.inProgress]
  complete := by simp [IdeVars.init, pending, h.inProgress]
  nodup := by simp [IdeVars.init, waiting, pending, h.inProgress]
  kept := by simp [IdeVars.init, waiting, pending, h.inProgress, h.accepted, h.delivered]
  own := by simp [IdeVars.init, h.delivered, finishedOf]

/-- Along every run that meets the condition no call faults, and the protocol
holds in the state reached. -/
theorem run_keeps_protocol (ctl : Controller) (frame : Nat → Option Nat) (b : Block)
    (inputs : List Input) (hstart : Start b)
    (h : Meets (step ctl frame) (Alone ctl frame) (IdeVars.init b) inputs) :
    ∃ s' os, run (step ctl frame) (IdeVars.init b) inputs = .ok (s', os) ∧ Protocol s' := by
  obtain ⟨s', os, hrun, hI⟩ :=
    run_preserves (step_preserves ctl frame) inputs _ (inv_start ctl hstart) h
  exact ⟨s', os, hrun, hI.protocol⟩

/-! ## A run inside the condition, and one outside it -/

/-- Two drives that share the primary channel. -/
def sharedChannel : Controller where
  channels := fun _ => { hasDma := true, dmaIo := true }
  devices := fun i => { present := decide (i < 2), slave := i == 1, sizeType := .lba48,
                        channel := .primary }
  wired := by
    intro i
    have h : ¬ (i < 2 ∧ i / 2 = 1) := by omega
    simp only [decide_eq_true_eq, if_neg h]

/-- A disk for each drive, and a partition of the first. -/
def twoDisks : Block where
  stor := fun d => { ideDevice := d, sectorSize := 512, activeRequests := 0, maxRequests := 1,
                     locked := false }
  disks := fun i => { hwDevice := i, queue := ringQueueInit fun _ => 0#32 }
  partitions := fun _ => { disk := 0, blockOffset := 63 }
  requests := fun _ => none
  inProgress := []
  accepted := []
  delivered := []

/-- Every page mapped to the frame of its number. -/
def identity : Nat → Option Nat := some

theorem twoDisks_start : Start twoDisks where
  stor := fun _ => ⟨rfl, rfl, rfl, rfl⟩
  rings := fun _ => ⟨fun _ => 0#32, rfl⟩
  requests := fun _ => rfl
  inProgress := rfl
  accepted := rfl
  delivered := rfl

/-- Read one block into the page at 0x1000. -/
def readBlock (device : BlockDevice) (addr diskAddr : Ptr) : Call :=
  { device := device, io := .read, vbuffer := 0x1000, blockCount := 1, blockOffset := 0,
    addr := addr, diskAddr := diskAddr }

theorem readBlock_supported (b : Block) (addr : Ptr) (r : BlockRequest) (hio : r.io = .read)
    (hbuf : r.vbuffer = 0x1000) : Supported sharedChannel (storRequestOf identity b addr r) where
  dma := rfl
  port := rfl
  lba := by simp [sharedChannel]
  aligned := by simp [storRequestOf, hbuf, virtToPhys, identity, pageSize]
  nonempty := by simp [storRequestOf, hio]
  handled := fun _ => rfl

/-- A read of the partition and one of the other drive, each finished before
the next is handed to the driver. -/
def alternatingRun : List Input :=
  [.submit (readBlock (.partition 0) 16#32 32#32), .submit (readBlock (.disk 1) 48#32 64#32),
   .proceed 0 fun _ => 0#32, .interrupt .primary 0 0 [], .proceed 0 fun _ => 0#32]

theorem alternatingRun_keeps_protocol :
    ∃ s' os, run (step sharedChannel identity) (IdeVars.init twoDisks) alternatingRun =
      .ok (s', os) ∧ Protocol s' := by
  apply run_keeps_protocol _ _ _ _ twoDisks_start
  refine (meets_cons_ok rfl).2 ⟨⟨⟨rfl, by decide, rfl, rfl⟩, trivial⟩, ?_⟩
  refine (meets_cons_ok rfl).2 ⟨⟨⟨rfl, by decide, rfl, rfl⟩, trivial⟩, ?_⟩
  refine (meets_cons_ok rfl).2 ⟨⟨?_, ?_⟩, ?_⟩
  · rintro _ ⟨⟩ _ ⟨⟩
    exact readBlock_supported _ _ _ rfl rfl
  · rintro _ ⟨⟩ _ ⟨⟩
    exact ⟨rfl, rfl⟩
  refine (meets_cons_ok rfl).2 ⟨⟨List.cons_ne_nil _ _, rfl, rfl, rfl⟩, ?_⟩
  refine (meets_cons_ok rfl).2 ⟨⟨?_, ?_⟩, trivial⟩
  · rintro _ ⟨⟩ _ ⟨⟩
    exact readBlock_supported _ _ _ rfl rfl
  · rintro _ ⟨⟩ _ ⟨⟩
    exact ⟨rfl, rfl⟩

/-- Reads of two drives that share a channel, the second handed to the driver
while the first is outstanding: both are admitted, and the driver's empty-queue
assertion fails. -/
theorem second_drive_fails_assertion :
    Start twoDisks ∧
    Meets (step sharedChannel identity) (Legal sharedChannel identity) (IdeVars.init twoDisks)
      [.submit (readBlock (.disk 0) 16#32 32#32), .proceed 0 fun _ => 0#32,
       .submit (readBlock (.disk 1) 48#32 64#32), .proceed 0 fun _ => 0#32] ∧
    run (step sharedChannel identity) (IdeVars.init twoDisks)
      [.submit (readBlock (.disk 0) 16#32 32#32), .proceed 0 fun _ => 0#32,
       .submit (readBlock (.disk 1) 48#32 64#32), .proceed 0 fun _ => 0#32] =
      .error .assertion := by
  refine ⟨twoDisks_start, ?_, rfl⟩
  refine (meets_cons_ok rfl).2 ⟨⟨rfl, by decide, rfl, rfl⟩, ?_⟩
  refine (meets_cons_ok rfl).2 ⟨?_, ?_⟩
  · rintro _ ⟨⟩ _ ⟨⟩
    exact readBlock_supported _ _ _ rfl rfl
  refine (meets_cons_ok rfl).2 ⟨⟨rfl, by decide, rfl, rfl⟩, ?_⟩
  refine (meets_cons_error rfl).2 ?_
  rintro _ ⟨⟩ _ ⟨⟩
  exact readBlock_supported _ _ _ rfl rfl

end X86Kernel.Disk
