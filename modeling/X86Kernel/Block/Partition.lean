import X86Kernel.Block.Disk

/- Partitions: from the entries of the master boot record (`kernel/services/block/fetch.c`)
   to devices (`kernel/services/block/type/partition.c`), and where a request to such a
   device goes on the disk.

   What is proved: on an entry that starts at a block of the disk, a request that fits into
   the entry transfers only sectors of the entry (`partition_requests`). No layer compares a
   request with the size of its device: one that does not fit is forwarded just the same, and
   leaves the entry (`request_leaves_partition`).

   A sector of an entry has 512 bytes, a block of the disk has the drive's sector size, which
   `add_stor_device` asserts to be a power of two. The record is given as its fields; that it
   is read from the first block is not modelled here.

   Correspondence (C ↔ Lean):
     `mbr_partition_t`            ↔ `MbrPartition`
     `mbr_t`                      ↔ `Mbr`
     `block_partition_generate`   ↔ `blockPartitionGenerate`
     `partition_add_block_device` ↔ `partitionAddBlockDevice`
     `parse_mbr`                  ↔ `parseMbr` -/
namespace X86Kernel.Disk
open X86Kernel.Lib X86Kernel.Ide

/-- `mbr_partition_t`, without the fields nothing reads. -/
structure MbrPartition where
  type : BitVec 8
  lbaOffset : BitVec 32
  sectorCount : BitVec 32
  deriving DecidableEq, Repr

structure Mbr where
  partitions : List MbrPartition
  signature : BitVec 16

def mbrSectorSize : Nat := 512

/-- The `block_device_t` of a partition. -/
structure PartitionBlockDevice where
  blockSize : Nat
  blockCount : Nat
  partition : PartitionDevice

/-- `block_partition_generate`. -/
def blockPartitionGenerate (blockSize disk lbaOffset sectorCount : Nat) :
    Kernel PartitionBlockDevice :=
  if blockSize = 0 then .error .divideByZero
  else .ok ⟨blockSize, sectorCount / blockSize, ⟨disk, lbaOffset⟩⟩

/-- `partition_add_block_device` on a disk with the given block size: the new device. -/
def partitionAddBlockDevice (blockSize disk : Nat) (partition : MbrPartition) :
    Kernel PartitionBlockDevice :=
  let sectorMultiplier := blockSize / mbrSectorSize
  if sectorMultiplier = 0 then .error .divideByZero
  else
    let lbaOffset := partition.lbaOffset.toNat / sectorMultiplier
    let sectorCount := partition.sectorCount.toNat / sectorMultiplier
    blockPartitionGenerate blockSize disk lbaOffset sectorCount

/-- The loop of `parse_mbr`: the devices that are added. -/
def parsePartitions (blockSize disk : Nat) : List MbrPartition → Kernel (List PartitionBlockDevice)
  | [] => .ok []
  | e :: rest =>
    if e.type = 0#8 then parsePartitions blockSize disk rest
    else do
      let dev ← partitionAddBlockDevice blockSize disk e
      let devs ← parsePartitions blockSize disk rest
      return dev :: devs

/-- `parse_mbr`: no devices and false without the signature. -/
def parseMbr (blockSize disk : Nat) (mbr : Mbr) : Kernel (List PartitionBlockDevice × Bool) :=
  if mbr.signature ≠ 0xAA55#16 then .ok ([], false)
  else do
    let devs ← parsePartitions blockSize disk mbr.partitions
    return (devs, true)

/-! ## Requests -/

/-- The sectors of 512 bytes that a request to the drive transfers. -/
def transferred (sectorSize : Nat) (r : StorRequest) : Set Nat :=
  {x | ∃ c ∈ r.chunkList, r.lba * (sectorSize / mbrSectorSize) ≤ x ∧
    x < (r.lba + c.2) * (sectorSize / mbrSectorSize)}

/-- The sectors of an entry. -/
def MbrPartition.sectors (e : MbrPartition) : Set Nat :=
  {x | e.lbaOffset.toNat ≤ x ∧ x < e.lbaOffset.toNat + e.sectorCount.toNat}

/-- The request fits into the entry, which starts at a block of the disk. -/
structure MbrPartition.Fits (e : MbrPartition) (blockSize : Nat) (call : Call) : Prop where
  start : blockSize / mbrSectorSize ∣ e.lbaOffset.toNat
  stop : call.blockOffset + call.blockCount ≤ e.sectorCount.toNat / (blockSize / mbrSectorSize)

theorem mem_parsePartitions {blockSize disk : Nat} {e : MbrPartition} (htype : e.type ≠ 0#8) :
    ∀ {es : List MbrPartition} {devs : List PartitionBlockDevice},
      parsePartitions blockSize disk es = .ok devs → e ∈ es →
      ∃ dev ∈ devs, partitionAddBlockDevice blockSize disk e = .ok dev := by
  intro es
  induction es with
  | nil =>
    intro devs _ he
    cases he
  | cons e' es ih =>
    intro devs h he
    rw [parsePartitions] at h
    split at h
    · rename_i htype'
      cases List.mem_cons.1 he with
      | inl heq => exact absurd (heq ▸ htype') htype
      | inr hmem => exact ih h hmem
    · obtain ⟨d, hd, h⟩ := exists_of_bind_eq_ok h
      obtain ⟨ds, hds, h⟩ := exists_of_bind_eq_ok h
      obtain rfl := Except.ok.inj h
      cases List.mem_cons.1 he with
      | inl heq => exact ⟨d, List.mem_cons_self .., heq ▸ hd⟩
      | inr hmem =>
        obtain ⟨dev, hdev, h'⟩ := ih hds hmem
        exact ⟨dev, List.mem_cons_of_mem d hdev, h'⟩

theorem partitionAddBlockDevice_eq {blockSize disk : Nat} {e : MbrPartition}
    {dev : PartitionBlockDevice} (h : partitionAddBlockDevice blockSize disk e = .ok dev) :
    blockSize / mbrSectorSize ≠ 0 ∧
      dev.partition = ⟨disk, e.lbaOffset.toNat / (blockSize / mbrSectorSize)⟩ := by
  simp only [partitionAddBlockDevice] at h
  split at h
  · cases h
  · rename_i hmult
    refine ⟨hmult, ?_⟩
    unfold blockPartitionGenerate at h
    split at h
    · cases h
    · obtain rfl := Except.ok.inj h
      rfl

theorem bufferAligned_two_pow {k vbuffer : Nat} (hk : k ≤ 31) (h : vbuffer % 2 ^ k = 0) :
    bufferAligned (2 ^ k) vbuffer = true := by
  have hle : 2 ^ k ≤ 2 ^ 31 := Nat.pow_le_pow_right (by decide) hk
  have hpos : 0 < 2 ^ k := Nat.two_pow_pos k
  have hmask : (2 ^ k + 2 ^ 64 - 1) % 2 ^ 64 = 2 ^ k - 1 := by omega
  rw [bufferAligned, hmask, Nat.and_two_pow_sub_one_eq_mod, h]
  rfl

theorem blockSubmit_partition {s : System} {call : Call} {i k : Nat}
    (hdev : call.device = .partition i)
    (hk : k ≤ 31) (hsize : s.outer.blockSize (.disk (s.outer.partitions i).disk) = 2 ^ k)
    (hlock : (s.outer.stor (s.outer.hwOf (s.outer.partitions i).disk)).locked = false)
    (hbuf : call.vbuffer % 2 ^ k = 0) :
    ∃ s' admitted, blockSubmit s call = .ok (s', call.diskAddr, admitted) ∧
      s'.outer.requests call.diskAddr = some (call.diskRequest (s.outer.partitions i)) ∧
      s'.outer.stor = s.outer.stor ∧ s'.outer.disks = s.outer.disks := by
  have hassert : assert (bufferAligned (2 ^ k) call.vbuffer) = .ok () := by
    rw [bufferAligned_two_pow hk hbuf]
    rfl
  let s₁ := blockReqGenerate s call.addr call.request
  let s₂ := blockReqGenerate s₁ call.diskAddr (call.diskRequest (s.outer.partitions i))
  let d := s.outer.hwOf (s.outer.partitions i).disk
  obtain ⟨hl, hu⟩ := spinlock_roundtrip (s := s₂) (d := d) hlock
  have hhw : s₂.outer.hwOf (s.outer.partitions i).disk = d := rfl
  have hsize₀ : s.outer.blockSize (.partition i) = 2 ^ k := hsize
  have hassert₁ : assert (bufferAligned (s₁.outer.blockSize
      (call.diskRequest (s.outer.partitions i)).device)
      (call.diskRequest (s.outer.partitions i)).vbuffer) = .ok () := by
    rw [← hassert, ← hsize]
    rfl
  have hsub : blockSubmitDisk s₁ call.diskAddr (s.outer.partitions i).disk
      (call.diskRequest (s.outer.partitions i)) = .ok (s₂, call.diskAddr,
        decide ((s.outer.stor d).activeRequests < (s.outer.stor d).maxRequests)) := by
    simp only [blockSubmitDisk, hassert₁, blockSubmitDiskCheck]
    rw [hhw, hl]
    simp only [hu]
    simp only [System.setStor, if_true]
    rfl
  have hrun : blockSubmit s call = .ok (s₂, call.diskAddr,
      decide ((s.outer.stor d).activeRequests < (s.outer.stor d).maxRequests)) := by
    simp only [blockSubmit, hdev, hsize₀, hassert]
    exact hsub
  exact ⟨s₂, _, hrun, if_pos rfl, rfl, rfl⟩

theorem transferred_storRequestOf (frame : Nat → Option Nat) (b : Block) (addr : Ptr)
    {r : BlockRequest}
    {k : Nat} (hk : k ≤ 31) (hsize : b.blockSize r.device = 2 ^ k) (hcount : r.blockCount < 2 ^ 32)
    (hoffset : r.blockOffset * 2 ^ k < 2 ^ 64) :
    transferred (2 ^ k) (storRequestOf frame b addr r) =
      {x | r.blockOffset * (2 ^ k / mbrSectorSize) ≤ x ∧
        x < (r.blockOffset + r.blockCount) * (2 ^ k / mbrSectorSize)} := by
  have hpos : 0 < 2 ^ k := Nat.two_pow_pos k
  have hle : 2 ^ k ≤ 2 ^ 31 := Nat.pow_le_pow_right (by decide) hk
  have hbytes : r.blockCount * 2 ^ k < 2 ^ 64 := by
    calc r.blockCount * 2 ^ k ≤ r.blockCount * 2 ^ 31 := Nat.mul_le_mul_left _ hle
      _ < 2 ^ 64 := by omega
  have hsector : (b.stor (b.hwOf (b.diskOf r.device))).sectorSize = 2 ^ k := hsize
  ext x
  simp only [transferred, storRequestOf, hsize, hsector, Nat.mod_eq_of_lt hoffset,
    Nat.mod_eq_of_lt hbytes, Nat.mul_div_cancel _ hpos, List.mem_singleton, exists_eq_left]

/-- Blocks from `off` on, `n` of them, of a partition that starts at block `start`: they are
sectors of the entry exactly if they fit. -/
theorem blocks_subset_iff {first count m off n : Nat} (hm : m ≠ 0) (hstart : m ∣ first)
    (hn : 1 ≤ n) :
    {x | (first / m + off) * m ≤ x ∧ x < (first / m + off + n) * m} ⊆
      {x | first ≤ x ∧ x < first + count} ↔ off + n ≤ count / m := by
  obtain ⟨q, rfl⟩ := hstart
  have hpos : 0 < m := Nat.pos_of_ne_zero hm
  have hlow : (q + off) * m = m * q + off * m := by rw [Nat.add_mul, Nat.mul_comm]
  have hhigh : (q + off + n) * m = m * q + (off + n) * m := by
    rw [Nat.add_assoc, Nat.add_mul, Nat.mul_comm]
  rw [Nat.mul_div_cancel_left _ hpos, hlow, hhigh, Nat.le_div_iff_mul_le hpos]
  constructor
  · intro h
    have hlast : (off + n) * m = off * m + n * m := Nat.add_mul _ _ _
    have hnm : m ≤ n * m := Nat.le_mul_of_pos_left m hn
    have := (@h (m * q + (off + n) * m - 1) ⟨by omega, by omega⟩).2
    omega
  · intro h x hx
    have := hx.1
    have := hx.2
    exact ⟨by omega, by omega⟩

theorem start_bytes_lt {k first off bound : Nat} (hm : 2 ^ k / mbrSectorSize ≠ 0)
    (hfirst : first < 2 ^ 32) (hoff : off * 2 ^ k ≤ bound) (hbound : bound + 2 ^ 41 ≤ 2 ^ 64) :
    (first / (2 ^ k / mbrSectorSize) + off) * 2 ^ k < 2 ^ 64 := by
  have hdvd : mbrSectorSize ∣ 2 ^ k := by
    by_cases hk : 9 ≤ k
    · exact Nat.pow_dvd_pow 2 hk
    · exfalso
      apply hm
      apply Nat.div_eq_of_lt
      exact Nat.pow_lt_pow_right (by decide) (Nat.not_le.1 hk)
  have hblocks : first / (2 ^ k / mbrSectorSize) * 2 ^ k ≤ first * mbrSectorSize := by
    calc first / (2 ^ k / mbrSectorSize) * 2 ^ k
        = first / (2 ^ k / mbrSectorSize) * (2 ^ k / mbrSectorSize * mbrSectorSize) := by
          rw [Nat.div_mul_cancel hdvd]
      _ = first / (2 ^ k / mbrSectorSize) * (2 ^ k / mbrSectorSize) * mbrSectorSize :=
          (Nat.mul_assoc _ _ _).symm
      _ ≤ first * mbrSectorSize := Nat.mul_le_mul_right _ (Nat.div_mul_le_self _ _)
  rw [Nat.add_mul]
  unfold mbrSectorSize at *
  omega

theorem parsePartitions_of_parseMbr {blockSize disk : Nat} {mbr : Mbr}
    {devs : List PartitionBlockDevice} (h : parseMbr blockSize disk mbr = .ok (devs, true)) :
    parsePartitions blockSize disk mbr.partitions = .ok devs := by
  rw [parseMbr] at h
  split at h
  · cases h
  · obtain ⟨ds, hds, hret⟩ := exists_of_bind_eq_ok h
    obtain rfl := (Prod.mk.inj (Except.ok.inj hret)).1
    exact hds

/-- Where no sum wraps, the sectors of a request are those of its blocks of the partition. -/
theorem transferred_diskRequest (frame : Nat → Option Nat) (b : Block) (addr : Ptr) {k first : Nat}
    (hk : k ≤ 31) (hm : 2 ^ k / mbrSectorSize ≠ 0) (hfirst : first < 2 ^ 32)
    {p : PartitionDevice}
    (hstart : p.blockOffset = first / (2 ^ k / mbrSectorSize))
    (hsize : b.blockSize (.disk p.disk) = 2 ^ k) {call : Call} (hcount : call.blockCount < 2 ^ 32)
    (hoffset : call.blockOffset ≤ 2 ^ 32) :
    transferred (2 ^ k) (storRequestOf frame b addr (call.diskRequest p)) =
      {x | (first / (2 ^ k / mbrSectorSize) + call.blockOffset) * (2 ^ k / mbrSectorSize) ≤ x ∧
        x < (first / (2 ^ k / mbrSectorSize) + call.blockOffset + call.blockCount) *
          (2 ^ k / mbrSectorSize)} := by
  have hbound : call.blockOffset * 2 ^ k ≤ 2 ^ 63 := by
    calc call.blockOffset * 2 ^ k ≤ 2 ^ 32 * 2 ^ k := Nat.mul_le_mul_right _ hoffset
      _ ≤ 2 ^ 32 * 2 ^ 31 := Nat.mul_le_mul_left _ (Nat.pow_le_pow_right (by decide) hk)
      _ = 2 ^ 63 := by decide
  have hbytes := start_bytes_lt hm hfirst hbound (by decide)
  have hpos : 1 ≤ 2 ^ k := Nat.two_pow_pos k
  have hsum : (call.diskRequest p).blockOffset =
      first / (2 ^ k / mbrSectorSize) + call.blockOffset := by
    show (p.blockOffset + call.blockOffset) % 2 ^ 64 = _
    rw [hstart]
    apply Nat.mod_eq_of_lt
    exact lt_of_le_of_lt (Nat.le_mul_of_pos_right _ hpos) hbytes
  rw [transferred_storRequestOf frame b addr hk hsize hcount (hsum ▸ hbytes), hsum]
  rfl

/-- Every entry of the record with a type becomes a device of the disk. Every request to it,
its buffer aligned and the drive's lock free, is forwarded to the disk, at the block of the
64-bit sum of the two offsets, and from there to the drive; a request that fits into the entry
transfers only sectors of the entry, and conversely one that does not wrap around transfers
only sectors of an entry that starts at a block if it fits. -/
theorem partition_requests (frame : Nat → Option Nat) {disk k : Nat} (hk : k ≤ 31) {mbr : Mbr}
    {devs : List PartitionBlockDevice} (hmbr : parseMbr (2 ^ k) disk mbr = .ok (devs, true))
    {e : MbrPartition} (he : e ∈ mbr.partitions) (htype : e.type ≠ 0#8) :
    ∃ dev ∈ devs, partitionAddBlockDevice (2 ^ k) disk e = .ok dev ∧
      ∀ (s : System) (i : Nat) (call : Call), s.outer.partitions i = dev.partition →
        s.outer.blockSize (.disk disk) = 2 ^ k →
        (s.outer.stor (s.outer.hwOf disk)).locked = false → call.device = .partition i →
        call.vbuffer % 2 ^ k = 0 → call.blockOffset < 2 ^ 64 → call.blockCount < 2 ^ 32 →
        ∃ s' admitted req r, blockSubmit s call = .ok (s', call.diskAddr, admitted) ∧
          s'.outer.requests call.diskAddr = some req ∧ req.device = .disk disk ∧
          req.blockOffset =
            (e.lbaOffset.toNat / (2 ^ k / mbrSectorSize) + call.blockOffset) % 2 ^ 64 ∧
          req.blockCount = call.blockCount ∧
          blockDiskMakeStorRequest frame s' call.diskAddr = .ok r ∧
          r.lba = req.blockOffset * 2 ^ k % 2 ^ 64 / 2 ^ k ∧
          (e.Fits (2 ^ k) call → transferred (2 ^ k) r ⊆ e.sectors) ∧
          (1 ≤ call.blockCount → call.blockOffset < 2 ^ 32 →
            2 ^ k / mbrSectorSize ∣ e.lbaOffset.toNat → transferred (2 ^ k) r ⊆ e.sectors →
            e.Fits (2 ^ k) call) := by
  obtain ⟨dev, hdev, hadd⟩ := mem_parsePartitions htype (parsePartitions_of_parseMbr hmbr) he
  obtain ⟨hm, hpart⟩ := partitionAddBlockDevice_eq hadd
  refine ⟨dev, hdev, hadd, ?_⟩
  intro s i call hi hsize hlock hcall hbuf hoff hcount
  have hdisk : (s.outer.partitions i).disk = disk := by rw [hi, hpart]
  have hstart : (s.outer.partitions i).blockOffset =
      e.lbaOffset.toNat / (2 ^ k / mbrSectorSize) := by rw [hi, hpart]
  obtain ⟨s', admitted, hsub, hreq, hstor, hdisks⟩ := blockSubmit_partition hcall hk
    (hdisk.symm ▸ hsize) (hdisk.symm ▸ hlock) hbuf
  have hsize' : s'.outer.blockSize (.disk (s.outer.partitions i).disk) = 2 ^ k := by
    rw [hdisk, ← hsize, Block.blockSize, Block.hwOf, hstor, hdisks]
    rfl
  have hblocks := @transferred_diskRequest frame s'.outer call.diskAddr k _ hk hm e.lbaOffset.isLt _
    hstart hsize' call hcount
  have hlba : (storRequestOf frame s'.outer call.diskAddr
      (call.diskRequest (s.outer.partitions i))).lba =
      (call.diskRequest (s.outer.partitions i)).blockOffset * 2 ^ k % 2 ^ 64 / 2 ^ k := by
    show _ * s'.outer.blockSize (.disk _) % 2 ^ 64 / s'.outer.blockSize (.disk _) = _
    rw [hsize']
  refine ⟨s', admitted, call.diskRequest (s.outer.partitions i), storRequestOf frame s'.outer
    call.diskAddr (call.diskRequest (s.outer.partitions i)), hsub, hreq, congrArg _ hdisk,
    hstart ▸ rfl, rfl, ?_, hlba, ?_, ?_⟩
  · have hassert : (call.vbuffer % 2 ^ k == 0) = true := by
      rw [hbuf]
      rfl
    have hassert' : assert ((call.diskRequest (s.outer.partitions i)).vbuffer %
        s'.outer.blockSize (call.diskRequest (s.outer.partitions i)).device == 0) = .ok () := by
      show assert (call.vbuffer % s'.outer.blockSize (.disk (s.outer.partitions i).disk) == 0) = _
      rw [hsize', hassert]
      rfl
    simp only [blockDiskMakeStorRequest, hreq, hassert']
  · intro hfits
    have hcnt := e.sectorCount.isLt
    have hoffset : call.blockOffset ≤ 2 ^ 32 := by
      have := Nat.div_le_self e.sectorCount.toNat (2 ^ k / mbrSectorSize)
      have := hfits.stop
      omega
    by_cases hzero : call.blockCount = 0
    · rw [hblocks hoffset, hzero, Nat.add_zero]
      intro x hx
      exact absurd (lt_of_le_of_lt hx.1 hx.2) (lt_irrefl _)
    · rw [hblocks hoffset]
      exact (blocks_subset_iff hm hfits.start (Nat.one_le_iff_ne_zero.2 hzero)).2 hfits.stop
  · intro hone hsmall hdvd hsubset
    rw [hblocks hsmall.le] at hsubset
    exact ⟨hdvd, (blocks_subset_iff hm hdvd hone).1 hsubset⟩

/-- One partition of 100 sectors from sector 2048 on. -/
def linuxEntry : MbrPartition := ⟨0x83#8, 2048#32, 100#32⟩

def onePartition : Mbr := ⟨[linuxEntry, ⟨0#8, 0#32, 0#32⟩], 0xAA55#16⟩

/-- The disks, with the partition. -/
def partitioned : Block :=
    { twoDisks with partitions := fun _ => { disk := 0, blockOffset := 2048 } }

/-- Read one block of the partition into the page at 0x1000. -/
def readAt (blockOffset : Nat) : Call :=
  { device := .partition 0, io := .read, vbuffer := 0x1000, blockCount := 1, blockOffset,
    addr := 16#32, diskAddr := 32#32 }

theorem lastBlock_inside : ∃ s' admitted r,
    blockSubmit (IdeVars.init partitioned) (readAt 99) = .ok (s', 32#32, admitted) ∧
    blockDiskMakeStorRequest identity s' 32#32 = .ok r ∧ r.lba = 2147 ∧
    transferred 512 r ⊆ linuxEntry.sectors := by
  have hmbr : ∃ devs, parseMbr (2 ^ 9) 0 onePartition = .ok devs ∧
      devs.1.map (·.partition.blockOffset) = [2048] ∧ devs.2 = true := by
    decide +kernel
  obtain ⟨⟨devs, found⟩, hdevs, hoffsets, rfl⟩ := hmbr
  obtain ⟨dev, hdev, hadd, hcalls⟩ := partition_requests identity (by decide) hdevs
    (e := linuxEntry) (List.mem_cons_self ..) (by decide)
  have hpart := (partitionAddBlockDevice_eq hadd).2
  obtain ⟨s', admitted, req, r, hsub, -, -, hoffset, -, hmake, hlba, hfits, -⟩ :=
    hcalls (IdeVars.init partitioned) 0 (readAt 99) (hpart ▸ rfl) rfl rfl rfl rfl (by decide)
      (by decide)
  refine ⟨s', admitted, r, hsub, hmake, ?_, hfits ⟨by decide, by decide⟩⟩
  rw [hlba, hoffset]
  rfl

/-- The read of block 100 of 100 is forwarded; it transfers the sector after the entry. -/
theorem request_leaves_partition :
    (∃ devs, parseMbr 512 0 onePartition = .ok (devs, true) ∧
      devs.map (·.partition) = [partitioned.partitions 0]) ∧
    ∃ s' admitted r,
      blockSubmit (IdeVars.init partitioned) (readAt 100) = .ok (s', 32#32, admitted) ∧
      blockDiskMakeStorRequest identity s' 32#32 = .ok r ∧
      2148 ∈ transferred 512 r ∧ 2148 ∉ linuxEntry.sectors := by
  constructor
  · exact ⟨[⟨512, 0, ⟨0, 2048⟩⟩], rfl, rfl⟩
  · have hrun : ∃ p, blockSubmit (IdeVars.init partitioned) (readAt 100) = .ok p ∧ p.2.1 = 32#32 ∧
        ∃ r, blockDiskMakeStorRequest identity p.1 32#32 = .ok r ∧ r.lba = 2148 ∧
          r.chunkList.map (·.2) = [1] := by
      decide +kernel
    obtain ⟨⟨s', addr, admitted⟩, hsub, rfl, r, hmake, hlba, hchunks⟩ := hrun
    refine ⟨s', admitted, r, hsub, hmake, ?_, ?_⟩
    · obtain ⟨c, hc⟩ := List.map_eq_singleton_iff.1 hchunks
      refine ⟨c, ?_, ?_⟩
      · rw [hc.1]
        exact List.mem_singleton_self c
      · rw [hlba, hc.2]
        decide
    · intro h
      exact absurd h.2 (by decide)

end X86Kernel.Disk
