import Mathlib.Algebra.Order.Floor.Div
import X86Kernel.Ext2.ReadBytes

/- The superblock of an ext2 file system (`kernel/filesystem/Ext2/match.c`, `mount.c`).

   `ext2_match` counts the groups twice before it looks at the magic, and `div_up`
   asserts that its divisor is not zero. A device without a file system has zeros
   there. What is proved: the probe answers as it should exactly on the devices whose
   two divisors are not zero (`ext2Match_answers_iff`).

   `fs_read_bytes` delivers the bytes asked for, as in `fsReadBytes_refines`, and
   `kmalloc` succeeds.

   Correspondence (C ↔ Lean):
     `ext2_disk_superblock_t` ↔ `DiskSuperblock`, laid out as in `diskSuperblock`
     `ext2_match`             ↔ `ext2Match`
     `ext2_fs_instance_t`     ↔ `FsInstance`
     `fetch_bgdt`             ↔ `fetchBgdt`
     `ext2_mount`             ↔ `ext2Mount` (before `fetch_root_inode`) -/
namespace X86Kernel.Ext2
open X86Kernel.Bio (divUp)

def ext2Magic : Nat := 0xEF53

def ext2SbOffset : Nat := 1024

/-- A little-endian 16-bit word of the device. -/
def deviceU16 (dev : Device) (offset : Nat) : Nat :=
  (dev offset).toNat + 256 * (dev (offset + 1)).toNat

/-- What the driver uses of the superblock on the disk. -/
structure DiskSuperblock where
  inodesCount : Nat
  blocksCount : Nat
  logBlockSize : Nat
  blocksPerGroup : Nat
  inodesPerGroup : Nat
  magic : Nat
  inodeSize : Nat
  deriving DecidableEq, Repr

/-- `sizeof(ext2_disk_superblock_t)` -/
def diskSuperblockSize : Nat := 90

/-- The structure over its bytes. -/
def diskSuperblock (buf : Buffer) : DiskSuperblock where
  inodesCount := deviceU32 buf 0
  blocksCount := deviceU32 buf 4
  logBlockSize := deviceU32 buf 24
  blocksPerGroup := deviceU32 buf 32
  inodesPerGroup := deviceU32 buf 40
  magic := deviceU16 buf 56
  inodeSize := deviceU16 buf 88

/-- `ext2_match`; `ext2Sb` is what was on the stack before. -/
def ext2Match (dev : Device) (ext2Sb : Buffer) : Kernel Bool := do
  let ext2Sb := diskSuperblock (fsReadBytes dev ext2Sb 0 diskSuperblockSize ext2SbOffset)
  let groups1 ← divUp ext2Sb.inodesCount ext2Sb.inodesPerGroup
  let groups2 ← divUp ext2Sb.blocksCount ext2Sb.blocksPerGroup
  return decide (ext2Sb.magic = ext2Magic ∧ u32 groups1 = u32 groups2)

/-- `EXT2_BLOCK_SIZE`, an `int` shifted by the low five bits of `base`. -/
def ext2BlockSize (base : Nat) : Nat := u32 (1024 * 2 ^ (base % 32))

/-- `sizeof(ext2_disk_group_desc_t)` -/
def groupDescSize : Nat := 32

/-- What is kept of a mounted file system. `bgdDescs` is the memory from the table of the
group descriptors on, which has `descsSize` bytes. -/
structure FsInstance where
  diskSb : DiskSuperblock
  blockSize : Nat
  bgdtOffset : Nat
  bgdDescsCount : Nat
  bgdDescs : Buffer
  descsSize : Nat

/-- `fetch_bgdt`; `mem` is what the table held before. -/
def fetchBgdt (dev : Device) (diskSb : DiskSuperblock) (blockSize : Nat) (mem : Buffer) :
    Kernel FsInstance := do
  let bgdtOffset := if blockSize = 1024 then u32 (2 * blockSize) else u32 (1 * blockSize)
  let bgdDescsCount ← divUp diskSb.inodesCount diskSb.inodesPerGroup
  let descsSize := u32 (u32 bgdDescsCount * groupDescSize)
  return {
    diskSb := diskSb
    blockSize := blockSize
    bgdtOffset := bgdtOffset
    bgdDescsCount := u32 bgdDescsCount
    bgdDescs := fsReadBytes dev mem 0 descsSize bgdtOffset
    descsSize := descsSize }

/-- `ext2_mount`, up to `fetch_root_inode`. -/
def ext2Mount (dev : Device) (ext2Sb mem : Buffer) : Kernel FsInstance :=
  let ext2Sb := diskSuperblock (fsReadBytes dev ext2Sb 0 diskSuperblockSize ext2SbOffset)
  fetchBgdt dev ext2Sb (ext2BlockSize ext2Sb.logBlockSize) mem

/-! ## The superblock of a device -/

/-- The superblock that is on the device. -/
def superblockOf (dev : Device) : DiskSuperblock := diskSuperblock fun i => dev (ext2SbOffset + i)

/-- It describes an ext2 file system. -/
structure DiskSuperblock.IsExt2 (sb : DiskSuperblock) : Prop where
  magic : sb.magic = ext2Magic
  inodesPerGroup : sb.inodesPerGroup ≠ 0
  blocksPerGroup : sb.blocksPerGroup ≠ 0
  groups : sb.inodesCount ⌈/⌉ sb.inodesPerGroup = sb.blocksCount ⌈/⌉ sb.blocksPerGroup

theorem deviceU32_lt (dev : Device) (offset : Nat) : deviceU32 dev offset < 2 ^ 32 := by
  have h0 := (dev offset).toNat_lt
  have h1 := (dev (offset + 1)).toNat_lt
  have h2 := (dev (offset + 2)).toNat_lt
  have h3 := (dev (offset + 3)).toNat_lt
  unfold deviceU32
  omega

theorem deviceU32_fsReadBytes (dev : Device) (buf : Buffer) {length i : Nat} (offset : Nat)
    (hi : i + 4 ≤ length) :
    deviceU32 (fsReadBytes dev buf 0 length offset) i = deviceU32 dev (offset + i) := by
  rw [deviceU32, deviceU32, fsReadBytes_in dev buf (by omega), fsReadBytes_in dev buf (by omega),
    fsReadBytes_in dev buf (by omega), fsReadBytes_in dev buf (by omega)]
  simp only [Nat.add_assoc]

theorem deviceU16_fsReadBytes (dev : Device) (buf : Buffer) {length i : Nat} (offset : Nat)
    (hi : i + 2 ≤ length) :
    deviceU16 (fsReadBytes dev buf 0 length offset) i = deviceU16 dev (offset + i) := by
  rw [deviceU16, deviceU16, fsReadBytes_in dev buf (by omega), fsReadBytes_in dev buf (by omega)]
  simp only [Nat.add_assoc]

theorem diskSuperblock_read (dev : Device) (ext2Sb : Buffer) :
    diskSuperblock (fsReadBytes dev ext2Sb 0 diskSuperblockSize ext2SbOffset) =
      superblockOf dev := by
  unfold superblockOf diskSuperblock diskSuperblockSize
  rw [deviceU32_fsReadBytes _ _ _ (by decide), deviceU32_fsReadBytes _ _ _ (by decide),
    deviceU32_fsReadBytes _ _ _ (by decide), deviceU32_fsReadBytes _ _ _ (by decide),
    deviceU32_fsReadBytes _ _ _ (by decide), deviceU16_fsReadBytes _ _ _ (by decide),
    deviceU16_fsReadBytes _ _ _ (by decide)]
  rfl

/-! ## The probe -/

theorem divUp_zero (a : Nat) : divUp a 0 = .error .assertion := rfl

theorem divUp_eq_ceilDiv {a b : Nat} (hb : b ≠ 0) (ha : a < 2 ^ 32) (hlt : b < 2 ^ 32) :
    divUp a b = .ok (a ⌈/⌉ b) := by
  rw [Bio.divUp_eq hb (by omega), Nat.ceilDiv_eq_add_pred_div]
  congr 2
  omega

theorem ceilDiv_lt {a b : Nat} (hb : b ≠ 0) (ha : a < 2 ^ 32) : a ⌈/⌉ b < 2 ^ 32 := by
  have hle : a ⌈/⌉ b ≤ a := by
    rw [ceilDiv_le_iff_le_mul (Nat.pos_of_ne_zero hb)]
    exact Nat.le_mul_of_pos_left a (Nat.pos_of_ne_zero hb)
  omega

/-- `ext2_match` returns, and says whether there is an ext2 file system, exactly if none of
the two divisors is zero. -/
theorem ext2Match_answers_iff (dev : Device) (ext2Sb : Buffer) :
    (∃ r, ext2Match dev ext2Sb = .ok r ∧ (r = true ↔ (superblockOf dev).IsExt2)) ↔
      (superblockOf dev).inodesPerGroup ≠ 0 ∧ (superblockOf dev).blocksPerGroup ≠ 0 := by
  have hinodes : (superblockOf dev).inodesCount < 2 ^ 32 := deviceU32_lt _ _
  have hblocks : (superblockOf dev).blocksCount < 2 ^ 32 := deviceU32_lt _ _
  have hipg : (superblockOf dev).inodesPerGroup < 2 ^ 32 := deviceU32_lt _ _
  have hbpg : (superblockOf dev).blocksPerGroup < 2 ^ 32 := deviceU32_lt _ _
  unfold ext2Match
  simp only [diskSuperblock_read]
  constructor
  · -- both divisions come before the magic is looked at
    rintro ⟨r, hrun, -⟩
    obtain ⟨groups1, h1, hrun⟩ := exists_of_bind_eq_ok hrun
    obtain ⟨groups2, h2, -⟩ := exists_of_bind_eq_ok hrun
    constructor
    · intro hzero
      rw [hzero, divUp_zero] at h1
      cases h1
    · intro hzero
      rw [hzero, divUp_zero] at h2
      cases h2
  · rintro ⟨h1, h2⟩
    rw [divUp_eq_ceilDiv h1 hinodes hipg, ok_bind, divUp_eq_ceilDiv h2 hblocks hbpg, ok_bind]
    refine ⟨_, rfl, ?_⟩
    rw [decide_eq_true_eq, u32_of_lt (ceilDiv_lt h1 hinodes), u32_of_lt (ceilDiv_lt h2 hblocks)]
    exact ⟨fun ⟨hmagic, hgroups⟩ => ⟨hmagic, h1, h2, hgroups⟩,
      fun h => ⟨h.magic, h.groups⟩⟩

/-- Probing a blank device halts the machine. -/
theorem blankDevice_match : ext2Match (fun _ => 0) (fun _ => 0) = .error .assertion := by
  unfold ext2Match
  rw [diskSuperblock_read]
  exact congrArg (· >>= _) (divUp_zero _)

/-! ## The table of the group descriptors -/

theorem u32_mul_groupDescSize (count : Nat) :
    u32 (u32 count * groupDescSize) = u32 count % 2 ^ 27 * groupDescSize := by
  unfold u32 groupDescSize
  omega

/-- What mounting keeps: the superblock of the device, and its table of descriptors as far as
it fits into 4 GiB. -/
theorem ext2Mount_eq {dev : Device} {ext2Sb mem : Buffer} {fs : FsInstance}
    (h : ext2Mount dev ext2Sb mem = .ok fs) :
    fs.diskSb = superblockOf dev ∧ fs.diskSb.inodesPerGroup ≠ 0 ∧
      fs.bgdDescsCount = fs.diskSb.inodesCount ⌈/⌉ fs.diskSb.inodesPerGroup ∧
      fs.descsSize = fs.bgdDescsCount % 2 ^ 27 * groupDescSize ∧
      fs.bgdDescs = fsReadBytes dev mem 0 fs.descsSize fs.bgdtOffset := by
  have hinodes : (superblockOf dev).inodesCount < 2 ^ 32 := deviceU32_lt _ _
  have hipg : (superblockOf dev).inodesPerGroup < 2 ^ 32 := deviceU32_lt _ _
  unfold ext2Mount fetchBgdt at h
  simp only [diskSuperblock_read] at h
  obtain ⟨count, hcount, hfs⟩ := exists_of_bind_eq_ok h
  have hne : (superblockOf dev).inodesPerGroup ≠ 0 := by
    intro hzero
    rw [hzero, divUp_zero] at hcount
    cases hcount
  rw [divUp_eq_ceilDiv hne hinodes hipg] at hcount
  obtain rfl := Except.ok.inj hcount
  obtain rfl := Except.ok.inj hfs
  exact ⟨rfl, hne, u32_of_lt (ceilDiv_lt hne hinodes), u32_mul_groupDescSize _, rfl⟩

end X86Kernel.Ext2
