import X86Kernel.Ext2.Superblock

/- Where an inode lies (`kernel/filesystem/Ext2/inode.c`).

   The offset of an inode is put together from 32-bit words, in 32 bits, and then kept
   in 64. The number 0 is not an inode, but the check asks for an upper bound only, and
   `inode_num - 1` wraps around. The calls of `fs_read_bytes` are part of the result
   (`Call`), also when the call does not return. What is proved: exactly for which
   numbers the inode is looked for where it is, or refused
   (`makeInitInode_located_iff`).

   `kmalloc` succeeds. What is filled in of `inode_t` beside the size is left out.

   Correspondence (C ↔ Lean):
     `ext2_get_block_group` ↔ `ext2GetBlockGroup`
     `ext2_inode_disk_t`    ↔ `DiskInode`, laid out as in `diskInode`
     `make_init_inode`      ↔ `makeInitInode` (up to `inode_offset`: `inodeOffset`) -/
namespace X86Kernel.Ext2

def ext2GetBlockGroup (fs : FsInstance) (inodeNum : Nat) : Kernel Nat := do
  assert (decide (inodeNum ≤ fs.diskSb.inodesCount))
  if fs.diskSb.inodesPerGroup = 0 then .error .divideByZero
  else return sub32 inodeNum 1 / fs.diskSb.inodesPerGroup

/-- `bgd_descs[bgd_index].inode_table` -/
def FsInstance.inodeTable (fs : FsInstance) (bgdIndex : Nat) : Kernel Nat :=
  if (bgdIndex + 1) * groupDescSize ≤ fs.descsSize then
    .ok (deviceU32 fs.bgdDescs (bgdIndex * groupDescSize + 8))
  else .error .outOfBounds

def inodeOffset (fs : FsInstance) (inodeNum : Nat) : Kernel Nat := do
  let bgdIndex ← ext2GetBlockGroup fs inodeNum
  let inodeTableBlock ← fs.inodeTable bgdIndex
  let indexInGroup := sub32 inodeNum 1 % fs.diskSb.inodesPerGroup
  return u32 (u32 (inodeTableBlock * fs.blockSize) + u32 (fs.diskSb.inodeSize * indexInGroup))

/-- What the driver uses of an inode on the disk. -/
structure DiskInode where
  mode : Nat
  size : Nat
  block : Nat → Nat

/-- `sizeof(ext2_inode_disk_t)` -/
def diskInodeSize : Nat := 128

/-- The structure over its bytes. -/
def diskInode (buf : Buffer) : DiskInode where
  mode := deviceU16 buf 0
  size := deviceU32 buf 4
  block i := deviceU32 buf (40 + 4 * i)

/-- What a call does: its calls of `fs_read_bytes`, with offset and length, and how it ends. -/
structure Call (α : Type) where
  reads : List (Nat × Nat)
  outcome : Kernel α

/-- `make_init_inode`: the number and the inode on the disk; `inodeAsBytes` is what was on the
stack before. -/
def makeInitInode (dev : Device) (fs : FsInstance) (inodeAsBytes : Buffer) (inodeNum : Nat) :
    Call (Nat × DiskInode) :=
  match inodeOffset fs inodeNum with
  | .error e => ⟨[], .error e⟩
  | .ok offset =>
    let bytes := fsReadBytes dev inodeAsBytes 0 fs.diskSb.inodeSize offset
    { reads := [(offset, fs.diskSb.inodeSize)]
      outcome :=
        -- the copy takes the size of the structure from an array of the size on the disk
        if fs.diskSb.inodeSize < diskInodeSize then .error .outOfBounds
        else .ok (inodeNum, diskInode bytes) }

/-! ## The place of an inode -/

/-- The group of an inode. -/
def groupOf (fs : FsInstance) (inodeNum : Nat) : Nat := (inodeNum - 1) / fs.diskSb.inodesPerGroup

/-- The byte of the device where an inode starts: the table of inodes of its group is named by
the descriptor of the group. -/
def inodePlace (dev : Device) (fs : FsInstance) (inodeNum : Nat) : Nat :=
  deviceU32 dev (fs.bgdtOffset + (groupOf fs inodeNum * groupDescSize + 8)) * fs.blockSize +
    (inodeNum - 1) % fs.diskSb.inodesPerGroup * fs.diskSb.inodeSize

/-- An inode is read where it lies, and what is not one is refused. -/
structure Located (dev : Device) (fs : FsInstance) (inodeAsBytes : Buffer) (inodeNum : Nat) :
    Prop where
  group_lt : 1 ≤ inodeNum → inodeNum ≤ fs.diskSb.inodesCount →
    groupOf fs inodeNum < fs.bgdDescsCount
  read : 1 ≤ inodeNum → inodeNum ≤ fs.diskSb.inodesCount →
    (makeInitInode dev fs inodeAsBytes inodeNum).reads =
      [(inodePlace dev fs inodeNum, fs.diskSb.inodeSize)]
  refused : inodeNum = 0 ∨ fs.diskSb.inodesCount < inodeNum →
    makeInitInode dev fs inodeAsBytes inodeNum = ⟨[], .error .assertion⟩

section Mounted

variable {dev : Device} {ext2Sb mem inodeAsBytes : Buffer} {fs : FsInstance} {inodeNum : Nat}

theorem groupOf_lt (hmount : ext2Mount dev ext2Sb mem = .ok fs) (hpos : 1 ≤ inodeNum)
    (hle : inodeNum ≤ fs.diskSb.inodesCount) : groupOf fs inodeNum < fs.bgdDescsCount := by
  obtain ⟨-, hipg, hcount, -, -⟩ := ext2Mount_eq hmount
  rw [hcount]
  by_contra hge
  have hall : fs.diskSb.inodesCount ≤ fs.diskSb.inodesPerGroup * groupOf fs inodeNum :=
    (ceilDiv_le_iff_le_mul (Nat.pos_of_ne_zero hipg)).1 (Nat.not_lt.1 hge)
  have hgroup : fs.diskSb.inodesPerGroup * groupOf fs inodeNum ≤ inodeNum - 1 :=
    Nat.mul_div_le _ _
  omega

theorem inodeOffset_past (hpast : fs.diskSb.inodesCount < inodeNum) :
    inodeOffset fs inodeNum = .error .assertion := by
  unfold inodeOffset ext2GetBlockGroup
  rw [decide_eq_false (Nat.not_le.2 hpast)]
  rfl

theorem ext2GetBlockGroup_eq (hipg : fs.diskSb.inodesPerGroup ≠ 0)
    (hle : inodeNum ≤ fs.diskSb.inodesCount) :
    ext2GetBlockGroup fs inodeNum = .ok (sub32 inodeNum 1 / fs.diskSb.inodesPerGroup) := by
  rw [ext2GetBlockGroup, decide_eq_true hle, if_neg hipg]
  rfl

theorem inodeOffset_eq (hipg : fs.diskSb.inodesPerGroup ≠ 0)
    (hle : inodeNum ≤ fs.diskSb.inodesCount) :
    inodeOffset fs inodeNum =
      (fs.inodeTable (sub32 inodeNum 1 / fs.diskSb.inodesPerGroup)).map fun inodeTableBlock =>
        u32 (u32 (inodeTableBlock * fs.blockSize) +
          u32 (fs.diskSb.inodeSize * (sub32 inodeNum 1 % fs.diskSb.inodesPerGroup))) := by
  rw [inodeOffset, ext2GetBlockGroup_eq hipg hle, ok_bind]
  cases fs.inodeTable (sub32 inodeNum 1 / fs.diskSb.inodesPerGroup) with
  | error e => rfl
  | ok inodeTableBlock => rfl

theorem inodeOffset_ne_assertion (hipg : fs.diskSb.inodesPerGroup ≠ 0)
    (hle : inodeNum ≤ fs.diskSb.inodesCount) : inodeOffset fs inodeNum ≠ .error .assertion := by
  rw [inodeOffset_eq hipg hle]
  unfold FsInstance.inodeTable
  split_ifs
  · exact nofun
  · exact nofun

/-- Where the descriptor is in memory, an inode is looked for at its place, in 32 bits. -/
theorem inodeOffset_inside (hmount : ext2Mount dev ext2Sb mem = .ok fs) (hlt : inodeNum < 2 ^ 32)
    (hpos : 1 ≤ inodeNum) (hle : inodeNum ≤ fs.diskSb.inodesCount) :
    inodeOffset fs inodeNum =
      if groupOf fs inodeNum < fs.bgdDescsCount % 2 ^ 27 then
        .ok (u32 (inodePlace dev fs inodeNum))
      else .error .outOfBounds := by
  obtain ⟨-, hipg, -, hsize, hdescs⟩ := ext2Mount_eq hmount
  rw [inodeOffset_eq hipg hle, sub32_of_le hlt hpos]
  unfold FsInstance.inodeTable
  have hroom : ((inodeNum - 1) / fs.diskSb.inodesPerGroup + 1) * groupDescSize ≤ fs.descsSize ↔
      groupOf fs inodeNum < fs.bgdDescsCount % 2 ^ 27 := by
    rw [hsize, Nat.mul_le_mul_right_iff (show 0 < groupDescSize by decide)]
    exact Nat.succ_le_iff
  by_cases hin : groupOf fs inodeNum < fs.bgdDescsCount % 2 ^ 27
  · have hword : (inodeNum - 1) / fs.diskSb.inodesPerGroup * groupDescSize + 8 + 4 ≤
        fs.descsSize := by
      have h := hroom.2 hin
      rw [Nat.add_mul] at h
      unfold groupDescSize at h ⊢
      omega
    rw [if_pos (hroom.2 hin), if_pos hin, hdescs, deviceU32_fsReadBytes _ _ _ hword]
    show Except.ok (u32 _) = .ok (u32 _)
    congr 1
    unfold inodePlace groupOf u32
    rw [Nat.mul_comm fs.diskSb.inodeSize, ← Nat.add_mod]
  · rw [if_neg (mt hroom.1 hin), if_neg hin]
    rfl

/-- An inode number is treated as it should be exactly if it is past the last one, or is one,
its descriptor lies in the first 4 GiB of the table, and the inode in those of the device. -/
theorem makeInitInode_located_iff (hmount : ext2Mount dev ext2Sb mem = .ok fs)
    (hlt : inodeNum < 2 ^ 32) :
    Located dev fs inodeAsBytes inodeNum ↔
      fs.diskSb.inodesCount < inodeNum ∨
      (1 ≤ inodeNum ∧ groupOf fs inodeNum < fs.bgdDescsCount % 2 ^ 27 ∧
        inodePlace dev fs inodeNum < 2 ^ 32) := by
  obtain ⟨-, hipg, -, -, -⟩ := ext2Mount_eq hmount
  constructor
  · intro h
    by_cases hpast : fs.diskSb.inodesCount < inodeNum
    · exact .inl hpast
    · have hle := Nat.not_lt.1 hpast
      have hpos : 1 ≤ inodeNum := by
        -- 0 passes the assertion, and goes around to the greatest number
        by_contra hzero
        obtain rfl : inodeNum = 0 := by omega
        have hrefused := h.refused (.inl rfl)
        unfold makeInitInode at hrefused
        cases hoffset : inodeOffset fs 0 with
        | error e =>
          rw [hoffset] at hrefused
          injection hrefused with _ he
          rw [Except.error.inj he] at hoffset
          exact inodeOffset_ne_assertion hipg (Nat.zero_le _) hoffset
        | ok offset =>
          rw [hoffset] at hrefused
          injection hrefused with hreads
          cases hreads
      have hread := h.read hpos hle
      unfold makeInitInode at hread
      rw [inodeOffset_inside hmount hlt hpos hle] at hread
      by_cases hin : groupOf fs inodeNum < fs.bgdDescsCount % 2 ^ 27
      · rw [if_pos hin] at hread
        have hplace : u32 (inodePlace dev fs inodeNum) = inodePlace dev fs inodeNum :=
          (Prod.mk.inj (List.singleton_inj.1 hread)).1
        refine .inr ⟨hpos, hin, ?_⟩
        rw [← hplace]
        exact Nat.mod_lt _ (by decide)
      · rw [if_neg hin] at hread
        cases hread
  · intro h
    refine ⟨groupOf_lt hmount, fun hpos hle => ?_, fun hout => ?_⟩
    · obtain ⟨-, hin, hplace⟩ := h.resolve_left (Nat.not_lt.2 hle)
      unfold makeInitInode
      rw [inodeOffset_inside hmount hlt hpos hle, if_pos hin, u32_of_lt hplace]
    · have hpast : fs.diskSb.inodesCount < inodeNum := by
        rcases h with h | ⟨hpos, -, -⟩
        · exact h
        · exact hout.resolve_left (by omega)
      unfold makeInitInode
      rw [inodeOffset_past hpast]

end Mounted

/-- Two groups of sixteen inodes, in blocks of 1024 bytes. The inodes of the second group lie
4 GiB into the device. -/
def twoGroupDevice : Device := fun o =>
  if o = 1024 then 32 else if o = 1064 then 16 else if o = 1112 then 128
  else if o = 2056 then 5 else if o = 2090 then 0x40 else 0

/-- The same device, mounted. -/
def twoGroupFs : FsInstance where
  diskSb := superblockOf twoGroupDevice
  blockSize := 1024
  bgdtOffset := 2048
  bgdDescsCount := 2
  bgdDescs := fsReadBytes twoGroupDevice (fun _ => 0) 0 64 2048
  descsSize := 64

theorem twoGroupFs_mounted :
    ext2Mount twoGroupDevice (fun _ => 0) (fun _ => 0) = .ok twoGroupFs := by
  unfold ext2Mount
  rw [diskSuperblock_read]
  rfl

/-- The second inode of the first group, the root. -/
theorem rootInode_located : Located twoGroupDevice twoGroupFs (fun _ => 0) 2 :=
  (makeInitInode_located_iff twoGroupFs_mounted (by decide)).2
    (.inr ⟨by decide, by decide, by decide⟩)

/-- The first inode of the second group is looked for at the start of the device, and the
number 0 is not refused. -/
theorem secondGroup_not_located :
    ¬ Located twoGroupDevice twoGroupFs (fun _ => 0) 17 ∧
      ¬ Located twoGroupDevice twoGroupFs (fun _ => 0) 0 := by
  constructor
  · intro h
    have hread := h.read (by decide) (by decide)
    have hzero : (makeInitInode twoGroupDevice twoGroupFs (fun _ => 0) 17).reads =
        [(0, 128)] := by decide
    rw [hzero] at hread
    revert hread
    decide
  · intro h
    have hrefused := h.refused (.inl rfl)
    have hreads : (makeInitInode twoGroupDevice twoGroupFs (fun _ => 0) 0).outcome =
        .error .outOfBounds := by decide
    rw [hrefused] at hreads
    cases hreads

end X86Kernel.Ext2
