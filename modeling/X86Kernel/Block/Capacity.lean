import X86Kernel.Block.Partition

/- How large the devices are taken to be: from a drive (`init_ide`, `add_stor_device`) and
   an entry of the master boot record to a device of the block layer, and from those to the
   main device (`kernel/services/block/manager.c`).

   `disk_size` and `sector_count` count sectors, and both are divided by the size of a
   sector. What is proved: the devices have 1/512 of their size, rounded down, so that only
   an empty one has the right size, and the main device is the first of those which agree in
   that (`capacities_iff`).

   Correspondence (C ↔ Lean):
     `add_stor_device`          ↔ `addStorDevice` (the sizes)
     `init_ide`                 ↔ `initIdeDevice` (one drive)
     `block_disk_generate`      ↔ `blockDiskGenerate`
     `block_manager_add_device` ↔ `blockManagerAddDevice`
     `block_manager_main_device` ↔ `BlockManager.main` -/
namespace X86Kernel.Disk

/-- The sizes in `stor_device_t`. -/
structure StorSizes where
  diskSize : Nat
  sectorSize : Nat
  deriving DecidableEq, Repr

def addStorDevice (diskSize sectorSize : Nat) : Kernel StorSizes := do
  assert (decide (sectorSize = alignUpPow2 sectorSize))
  return ⟨diskSize, sectorSize⟩

/-- `SECTOR_SIZE` of the IDE driver. -/
def ideSectorSize : Nat := 512

/-- `init_ide` on a drive that is present; `size` is in sectors. -/
def initIdeDevice (size : BitVec 64) : Kernel StorSizes := addStorDevice size.toNat ideSectorSize

/-- The sizes in `block_device_t`. -/
structure BlockSizes where
  blockSize : Nat
  blockCount : Nat
  deriving DecidableEq, Repr

def blockDiskGenerate (stor : StorSizes) : Kernel BlockSizes :=
  if stor.sectorSize = 0 then .error .divideByZero
  else .ok ⟨stor.sectorSize, stor.diskSize / stor.sectorSize⟩

/-- `MAX_DEVS` -/
def maxDevs : Nat := 128

/-- The variables of the manager. The main device is given by its index. -/
structure BlockManager where
  blockDevs : List BlockSizes
  maxSize : Nat
  main : Option Nat
  deriving DecidableEq, Repr

def BlockManager.init : BlockManager := ⟨[], 0, none⟩

def blockManagerAddDevice (m : BlockManager) (device : BlockSizes) : Kernel BlockManager :=
  if m.blockDevs.length < maxDevs then
    let size := device.blockSize * device.blockCount % 2 ^ 64
    if size > m.maxSize then .ok ⟨m.blockDevs ++ [device], size, some m.blockDevs.length⟩
    else .ok { m with blockDevs := m.blockDevs ++ [device] }
  else .error .outOfBounds

/-- What a device is made from: an IDE drive, or an entry on a disk on such a drive. -/
inductive Source where
  | drive (size : BitVec 64)
  | entry (disk : Nat) (e : MbrPartition)
  deriving DecidableEq, Repr

/-- The device: `fetch_storage` and `partition_add_block_device`. -/
def Source.device : Source → Kernel BlockSizes
  | .drive size => do
    let stor ← initIdeDevice size
    blockDiskGenerate stor
  | .entry disk e => do
    let dev ← partitionAddBlockDevice ideSectorSize disk e
    return ⟨dev.blockSize, dev.blockCount⟩

def addDevices (m : BlockManager) : List Source → Kernel BlockManager
  | [] => .ok m
  | src :: rest => do
    let device ← src.device
    let m ← blockManagerAddDevice m device
    addDevices m rest

/-! ## Sizes in bytes -/

/-- The sectors of 512 bytes. -/
def Source.sectors : Source → Nat
  | .drive size => size.toNat
  | .entry _ e => e.sectorCount.toNat

/-- The size in bytes. -/
def Source.capacity (src : Source) : Nat := 512 * src.sectors

def BlockSizes.capacity (device : BlockSizes) : Nat := device.blockCount * device.blockSize

/-- The main device is one of those with the most bytes. -/
def MainIsLargest (srcs : List Source) (m : BlockManager) : Prop :=
  srcs ≠ [] → ∃ i src, m.main = some i ∧ srcs[i]? = some src ∧
    ∀ src' ∈ srcs, src'.capacity ≤ src.capacity

/-- One of the largest devices has 512 sectors or more, and none before it has as many
times 512 sectors. -/
def LargestLeads (srcs : List Source) : Prop :=
  ∃ (i : Nat) (src : Source), srcs[i]? = some src ∧
    (∀ src' ∈ srcs, src'.sectors ≤ src.sectors) ∧ 512 ≤ src.sectors ∧
    ∀ j < i, ∀ src', srcs[j]? = some src' → src'.sectors / 512 < src.sectors / 512

theorem Source.sectors_lt (src : Source) : src.sectors < 2 ^ 64 := by
  cases src with
  | drive size => exact size.isLt
  | entry disk e => exact lt_trans e.sectorCount.isLt (by decide)

theorem initIdeDevice_eq (size : BitVec 64) :
    initIdeDevice size = .ok ⟨size.toNat, ideSectorSize⟩ := rfl

/-- The number of sectors is divided by their size. -/
theorem Source.device_eq (src : Source) : src.device = .ok ⟨512, src.sectors / 512⟩ := by
  cases src with
  | drive size =>
    rw [Source.device, initIdeDevice_eq]
    rfl
  | entry disk e =>
    show Except.ok (BlockSizes.mk 512 (e.sectorCount.toNat / 1 / 512)) = _
    rw [Nat.div_one]
    rfl

theorem div_mul_eq_bytes_iff {q size : Nat} (hsize : 1 < size) :
    q / size * size = size * q ↔ q = 0 := by
  constructor
  · intro h
    have hle := Nat.div_mul_le_self q size
    by_contra hpos
    have hlt : q < size * q := (Nat.lt_mul_iff_one_lt_left (Nat.pos_of_ne_zero hpos)).2 hsize
    omega
  · rintro rfl
    rw [Nat.zero_div, Nat.zero_mul, Nat.mul_zero]

theorem drive_capacity_iff (size : BitVec 64) :
    (∃ device, (Source.drive size).device = .ok device ∧
      device.capacity = (Source.drive size).capacity) ↔ size = 0 := by
  rw [Source.device_eq]
  constructor
  · rintro ⟨device, hdevice, h⟩
    obtain rfl := Except.ok.inj hdevice
    exact BitVec.eq_of_toNat_eq ((div_mul_eq_bytes_iff (by decide)).1 h)
  · rintro rfl
    exact ⟨_, rfl, rfl⟩

theorem partition_capacity_iff {m : Nat} (hm : 0 < m) (disk : Nat) {e : MbrPartition}
    (hmul : m ∣ e.sectorCount.toNat) :
    (∃ dev, partitionAddBlockDevice (512 * m) disk e = .ok dev ∧
      dev.blockCount * dev.blockSize = 512 * e.sectorCount.toNat) ↔ e.sectorCount = 0 := by
  have hdiv : 512 * m / mbrSectorSize = m := Nat.mul_div_cancel_left m (by decide)
  obtain ⟨q, hq⟩ := hmul
  have hrun : partitionAddBlockDevice (512 * m) disk e =
      .ok ⟨512 * m, q / (512 * m), ⟨disk, e.lbaOffset.toNat / m⟩⟩ := by
    rw [partitionAddBlockDevice, hdiv, if_neg hm.ne', blockPartitionGenerate,
      if_neg (by omega), hq, Nat.mul_div_cancel_left q hm]
  have hbytes : 512 * e.sectorCount.toNat = 512 * m * q := by rw [hq, Nat.mul_assoc]
  have hzero : e.sectorCount = 0 ↔ q = 0 := by
    rw [BitVec.toNat_eq, hq]
    simp [hm.ne']
  rw [hrun, hbytes, hzero]
  constructor
  · rintro ⟨dev, hdev, h⟩
    obtain rfl := Except.ok.inj hdev
    exact (div_mul_eq_bytes_iff (by omega)).1 h
  · intro h
    exact ⟨_, rfl, (div_mul_eq_bytes_iff (by omega)).2 h⟩

/-! ## The main device -/

/-- The size that the manager takes a device to have. -/
def Source.weight (src : Source) : Nat := src.sectors / 512 * 512

/-- After some devices: the main device is the first of the heaviest, if they weigh anything. -/
structure Elected (srcs : List Source) (m : BlockManager) : Prop where
  length : m.blockDevs.length = srcs.length
  bound : ∀ src ∈ srcs, src.weight ≤ m.maxSize
  main : (m.main = none ∧ m.maxSize = 0) ∨
    ∃ i src, m.main = some i ∧ srcs[i]? = some src ∧ src.weight = m.maxSize ∧ 0 < m.maxSize ∧
      ∀ j < i, ∀ src', srcs[j]? = some src' → src'.weight < m.maxSize

theorem elected_init : Elected [] BlockManager.init where
  length := rfl
  bound := fun _ h => absurd h List.not_mem_nil
  main := .inl ⟨rfl, rfl⟩

theorem Elected.add {srcs : List Source} {m : BlockManager} (h : Elected srcs m) (src : Source)
    (hroom : srcs.length < maxDevs) :
    ∃ m', blockManagerAddDevice m ⟨512, src.sectors / 512⟩ = .ok m' ∧
      Elected (srcs ++ [src]) m' := by
  have hweight : 512 * (src.sectors / 512) % 2 ^ 64 = src.weight := by
    rw [Nat.mul_comm]
    exact Nat.mod_eq_of_lt (lt_of_le_of_lt (Nat.div_mul_le_self _ _) src.sectors_lt)
  unfold blockManagerAddDevice
  rw [if_pos (h.length ▸ hroom), hweight]
  dsimp only
  split_ifs with hgt
  · -- heavier than all before: it becomes the main device
    refine ⟨_, rfl, by simp [h.length], ?_, .inr ⟨srcs.length, src, ?_, ?_, rfl, ?_, ?_⟩⟩
    · intro src' hmem
      rcases List.mem_append.1 hmem with hold | hnew
      · exact le_of_lt (lt_of_le_of_lt (h.bound src' hold) hgt)
      · rw [List.mem_singleton.1 hnew]
    · exact congrArg some h.length
    · exact List.getElem?_concat_length
    · exact lt_of_le_of_lt (Nat.zero_le _) hgt
    · intro j hj src' hsrc'
      rw [List.getElem?_append_left hj] at hsrc'
      exact lt_of_le_of_lt (h.bound src' (List.mem_of_getElem? hsrc')) hgt
  · refine ⟨_, rfl, by simp [h.length], ?_, ?_⟩
    · intro src' hmem
      rcases List.mem_append.1 hmem with hold | hnew
      · exact h.bound src' hold
      · rw [List.mem_singleton.1 hnew]
        exact Nat.not_lt.1 hgt
    · rcases h.main with hnone | ⟨i, first, hmain, hi, hmax, hpos, hbefore⟩
      · exact .inl hnone
      · have hlt : i < srcs.length := (List.getElem?_eq_some_iff.1 hi).1
        refine .inr ⟨i, first, hmain, ?_, hmax, hpos, ?_⟩
        · rw [List.getElem?_append_left hlt]
          exact hi
        · intro j hj src' hsrc'
          rw [List.getElem?_append_left (by omega)] at hsrc'
          exact hbefore j hj src' hsrc'

theorem Elected.addDevices {m : BlockManager} : ∀ {rest srcs : List Source}, Elected srcs m →
    (srcs ++ rest).length ≤ maxDevs →
    ∃ m', Disk.addDevices m rest = .ok m' ∧ Elected (srcs ++ rest) m' := by
  intro rest
  induction rest generalizing m with
  | nil =>
    intro srcs h _
    refine ⟨m, rfl, ?_⟩
    rw [List.append_nil]
    exact h
  | cons src rest ih =>
    intro srcs h hlen
    have hroom : srcs.length < maxDevs := by
      rw [List.length_append, List.length_cons] at hlen
      omega
    obtain ⟨m₁, hadd, h₁⟩ := h.add src hroom
    have hsplit : srcs ++ src :: rest = srcs ++ [src] ++ rest := by simp
    obtain ⟨m₂, hrest, h₂⟩ := ih h₁ (hsplit ▸ hlen)
    refine ⟨m₂, ?_, hsplit ▸ h₂⟩
    rw [Disk.addDevices, Source.device_eq, ok_bind, hadd, ok_bind, hrest]

/-- A device that there is no room for is written past the array. -/
theorem length_of_addDevices : ∀ {rest : List Source} {m m' : BlockManager},
    m.blockDevs.length ≤ maxDevs → addDevices m rest = .ok m' →
    m.blockDevs.length + rest.length ≤ maxDevs := by
  intro rest
  induction rest with
  | nil =>
    intro m m' hle _
    exact hle
  | cons src rest ih =>
    intro m m' hle h
    rw [addDevices, Source.device_eq, ok_bind] at h
    obtain ⟨m₁, hadd, hrest⟩ := exists_of_bind_eq_ok h
    unfold blockManagerAddDevice at hadd
    split_ifs at hadd with hroom
    have hlength : m₁.blockDevs.length = m.blockDevs.length + 1 := by
      dsimp only at hadd
      split_ifs at hadd
      · obtain rfl := Except.ok.inj hadd
        simp
      · obtain rfl := Except.ok.inj hadd
        simp
    have hlast := ih (by omega) hrest
    rw [List.length_cons]
    omega

theorem Elected.mainIsLargest_iff {srcs : List Source} {m : BlockManager} (h : Elected srcs m) :
    MainIsLargest srcs m ↔ srcs = [] ∨ LargestLeads srcs := by
  constructor
  · intro hmain
    by_cases hnil : srcs = []
    · exact .inl hnil
    · obtain ⟨i, src, hi, hsrc, hlargest⟩ := hmain hnil
      rcases h.main with ⟨hnone, -⟩ | ⟨i', first, hi', hfirst, hmax, hpos, hbefore⟩
      · rw [hnone] at hi
        cases hi
      · obtain rfl : i' = i := Option.some.inj (hi'.symm.trans hi)
        obtain rfl : first = src := Option.some.inj (hfirst.symm.trans hsrc)
        refine .inr ⟨i', first, hfirst, fun src' hmem => ?_, ?_, fun j hj src' hsrc' => ?_⟩
        · exact Nat.le_of_mul_le_mul_left (hlargest src' hmem) (by decide)
        · -- what weighs anything has 512 sectors
          unfold Source.weight at hmax
          omega
        · have hlt := hbefore j hj src' hsrc'
          rw [← hmax] at hlt
          exact Nat.lt_of_mul_lt_mul_right hlt
  · rintro (hnil | ⟨i, src, hsrc, hlargest, hsize, hbefore⟩) hne
    · exact absurd hnil hne
    · have hheavy : src.weight ≤ m.maxSize := h.bound src (List.mem_of_getElem? hsrc)
      have hone : 0 < src.weight := by
        unfold Source.weight
        omega
      rcases h.main with ⟨-, hzero⟩ | ⟨i', first, hi', hfirst, hmax, hpos, hfirstBefore⟩
      · omega
      · have hle : first.sectors ≤ src.sectors := hlargest first (List.mem_of_getElem? hfirst)
        have hweight : first.weight ≤ src.weight :=
          Nat.mul_le_mul_right _ (Nat.div_le_div_right hle)
        -- both are the first of the greatest weight
        have hsame : i' = i := by
          rcases Nat.lt_trichotomy i' i with hlt | heq | hgt
          · have hless : first.weight < src.weight :=
              Nat.mul_lt_mul_of_pos_right (hbefore i' hlt first hfirst) (by decide)
            omega
          · exact heq
          · have hless := hfirstBefore i hgt src hsrc
            omega
        obtain rfl := hsame
        obtain rfl : first = src := Option.some.inj (hfirst.symm.trans hsrc)
        exact ⟨i', first, hi', hfirst, fun src' hmem => Nat.mul_le_mul_left _ (hlargest src' hmem)⟩

/-- The sizes are right for nothing but empty drives and entries; and the main device is a
largest one exactly if there are at most 128 devices, and the largest leads. -/
theorem capacities_iff (size : BitVec 64) {m : Nat} (hm : 0 < m) (disk : Nat) {e : MbrPartition}
    (hmul : m ∣ e.sectorCount.toNat) (srcs : List Source) :
    ((∃ device, (Source.drive size).device = .ok device ∧
      device.capacity = (Source.drive size).capacity) ↔ size = 0) ∧
    ((∃ dev, partitionAddBlockDevice (512 * m) disk e = .ok dev ∧
      dev.blockCount * dev.blockSize = 512 * e.sectorCount.toNat) ↔ e.sectorCount = 0) ∧
    ((∃ manager, addDevices .init srcs = .ok manager ∧ MainIsLargest srcs manager) ↔
      srcs = [] ∨ srcs.length ≤ maxDevs ∧ LargestLeads srcs) := by
  refine ⟨drive_capacity_iff size, partition_capacity_iff hm disk hmul, ?_⟩
  constructor
  · rintro ⟨manager, hrun, hmain⟩
    have hlen : srcs.length ≤ maxDevs := by
      have h := length_of_addDevices (Nat.zero_le _) hrun
      rwa [show BlockManager.init.blockDevs.length = 0 from rfl, Nat.zero_add] at h
    obtain ⟨m', hrun', h⟩ : ∃ m', addDevices .init srcs = .ok m' ∧ Elected srcs m' :=
      elected_init.addDevices hlen
    obtain rfl := Except.ok.inj (hrun.symm.trans hrun')
    exact (h.mainIsLargest_iff.1 hmain).imp id fun hleads => ⟨hlen, hleads⟩
  · intro h
    have hlen : srcs.length ≤ maxDevs := by
      rcases h with rfl | ⟨hlen, -⟩
      · exact Nat.zero_le _
      · exact hlen
    obtain ⟨manager, hrun, helected⟩ : ∃ m', addDevices .init srcs = .ok m' ∧ Elected srcs m' :=
      elected_init.addDevices hlen
    exact ⟨manager, hrun, helected.mainIsLargest_iff.2 (h.imp id And.right)⟩

/-- An entry of eight sectors. -/
def eightSectors : MbrPartition := ⟨0x83#8, 63#32, 8#32⟩

/-- A drive of 1 MiB is the main device after one of 512 KiB and a small partition. -/
theorem largerDrive_main :
    ∃ manager, addDevices .init [.drive 1024, .entry 0 eightSectors, .drive 2048] = .ok manager ∧
      MainIsLargest [.drive 1024, .entry 0 eightSectors, .drive 2048] manager :=
  (capacities_iff 2048 Nat.one_pos 0 (one_dvd eightSectors.sectorCount.toNat) _).2.2.2
    (.inr ⟨by decide, 2, .drive 2048, rfl, by decide, by decide, by decide⟩)

/-- A drive of 1024 sectors gets a device of 1024 bytes, an entry of eight one of none, and
of two drives with 512 and 1023 sectors the first one is the main device. -/
theorem drive_too_small :
    (Source.drive 1024).device = .ok ⟨512, 2⟩ ∧
      (Source.entry 0 eightSectors).device = .ok ⟨512, 0⟩ ∧
      ∃ manager, addDevices .init [.drive 512, .drive 1023] = .ok manager ∧
        manager.main = some 0 ∧ ¬ MainIsLargest [.drive 512, .drive 1023] manager := by
  refine ⟨rfl, rfl, _, rfl, rfl, fun h => ?_⟩
  obtain ⟨i, src, hi, hsrc, hlargest⟩ := h (List.cons_ne_nil _ _)
  obtain rfl := Option.some.inj hi
  obtain rfl := Option.some.inj hsrc
  exact absurd (hlargest (.drive 1023) (by decide)) (by decide)

end X86Kernel.Disk
