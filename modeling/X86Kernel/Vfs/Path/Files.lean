import X86Kernel.Vfs.Path.Directory
import X86Kernel.Vfs.Path.Transparent

/- Files by their paths (`vfs_lookup_path` on an ext2 file system, then `ext2_vfs_read`).

   The abstract level is what the inode numbers stand for: directories with their records, and
   files with their bytes (`Node`). The way of a path is on the device where the directories on it
   are stored as their nodes say (`OnPath`): in one block, as `ext2_read_inode` does not get
   further, and with no deleted record before the one that is looked for. What is proved: every
   sequence of lookups along such paths answers, through the caches, as the names lead from
   directory to directory (`lookups_follow`), and a read inside a block of a file gets its bytes
   (`Stored.vfsRead`). The inode of each number is given: where it lies on the device is left out.

   Correspondence (C ↔ Lean):
     `ext2_vfs_read` ↔ `ext2VfsRead` -/
namespace X86Kernel.Vfs
open X86Kernel.Hash
open X86Kernel.Ext2 (vfsErrInval diskBlock blindBlock fileByte fsReadBytes)

/-- What an inode stands for. -/
inductive Node where
  | dir (records : List DirRecord)
  | file (content : List UInt8)

def child (nodes : InodeNum → Node) (n : InodeNum) (name : Name) : Except Int InodeNum :=
  match nodes n with
  | .dir records => liveChild records name
  | .file _ => .error (-vfsErrNotdir)

/-- The inode that a path leads to. -/
def follow (nodes : InodeNum → Node) (path : Option CString) : Except Int InodeNum :=
  match path with
  | none => .error (-vfsErrInval)
  | some path =>
    if path.chars[0]? = some slash then (components path).foldlM (child nodes) ext2RootInode
    else .error (-vfsErrInval)

/-- The inode has a number that the file system has an inode for. -/
def InTable (fs : Filesystem) (n : InodeNum) : Prop := n ≠ 0#32 ∧ n.toNat ≤ fs.inodesCount.toNat

instance (fs : Filesystem) (n : InodeNum) : Decidable (InTable fs n) :=
  inferInstanceAs (Decidable (_ ∧ _))

/-- The bytes of an inode; it has no block missing. -/
structure Stored (fs : Filesystem) (n : InodeNum) (bytes : List UInt8) : Prop where
  size : (fs.inode n).size = bytes.length
  mapped : ∀ o < bytes.length, diskBlock fs.dev (fs.inode n) (o / (fs.inode n).blockSize) ≠ 0
  byte : ∀ o < bytes.length, fileByte fs.dev (fs.inode n) o = bytes.getD o 0

/-- The file system has groups, no more of them than there is room for the descriptors of, and a
root inode. -/
structure Mountable (fs : Filesystem) : Prop where
  groups : fs.inodesPerGroup ≠ 0#32
  descs : bgdDescsCount fs < 2 ^ 27
  root : InTable fs ext2RootInode

/-- A directory in one block. -/
structure DirStored (fs : Filesystem) (n : InodeNum) (records : List DirRecord) : Prop where
  isDir : ext2InodeIsType (fs.mode n) ext2FtDir = true
  stored : Stored fs n (dirBytes records)
  oneBlock : (dirBytes records).length ≤ (fs.inode n).blockSize
  small : (dirBytes records).length < 2 ^ 31

/-- The inode that a name is looked up in is on the device; the first record with the name is not
deleted, and has an inode of the file system. -/
def StepOnDevice (fs : Filesystem) (nodes : InodeNum → Node) (n : InodeNum) (name : Name) : Prop :=
  match nodes n with
  | .dir records => DirStored fs n records ∧ FirstIsLive records name ∧
    ∀ n', liveChild records name = .ok n' → InTable fs n'
  | .file _ => ext2InodeIsType (fs.mode n) ext2FtDir = false

/-- What names lead through is on the device. -/
def OnWay (fs : Filesystem) (nodes : InodeNum → Node) : InodeNum → List Name → Prop
  | _, [] => True
  | n, name :: names => StepOnDevice fs nodes n name ∧
    ∀ n', child nodes n name = .ok n' → OnWay fs nodes n' names

def OnPath (fs : Filesystem) (nodes : InodeNum → Node) (path : Option CString) : Prop :=
  ∀ p, path = some p → p.chars[0]? = some slash → OnWay fs nodes ext2RootInode (components p)

section Reads

variable {fs : Filesystem} {n : InodeNum} {bytes : List UInt8}

theorem Stored.read (h : Stored fs n bytes) {length offset : Nat} (hpos : 0 < length)
    (hsmall : length < 2 ^ 31) (hend : offset + length ≤ bytes.length)
    (hblock : offset % (fs.inode n).blockSize + length ≤ (fs.inode n).blockSize)
    (buf : Ext2.Buffer) :
    ∃ buf', Ext2.ext2ReadInode fs.dev (fs.inode n) buf length offset = .ok ((length : Int), buf') ∧
      ∀ i < length, buf' i = bytes.getD (offset + i) 0 := by
  have hmapped := h.mapped offset (by omega)
  have hblind : blindBlock fs.dev (fs.inode n) (offset / (fs.inode n).blockSize) =
      diskBlock fs.dev (fs.inode n) (offset / (fs.inode n).blockSize) :=
    Ext2.followBlind_eq _ _ _ _ hmapped
  have hchunk : Ext2.firstChunk (fs.inode n) length offset = length := by
    unfold Ext2.firstChunk
    omega
  have hrun := Ext2.readInode_eq fs.dev (fs.inode n) buf hpos (by rw [h.size]; exact hend)
  rw [hblind, if_neg hmapped, hchunk, (Ext2.toI32_eq_iff (by omega)).2 hsmall] at hrun
  refine ⟨_, hrun, fun i hi => ?_⟩
  rw [Ext2.fsReadBytes_in _ _ hi, ← h.byte (offset + i) (by omega),
    Ext2.fileByte_same_block _ _ (by omega), if_neg hmapped, Nat.add_assoc]

theorem read_nothing (dev : Ext2.Device) (inode : Ext2.Inode) (buf : Ext2.Buffer) :
    Ext2.ext2ReadInode dev inode buf 0 0 = .ok (0, buf) := by
  have hzero : Ext2.toU64 0 = 0 := rfl
  unfold Ext2.ext2ReadInode
  rw [hzero, if_neg (by omega)]
  rfl

theorem DirStored.directoryRead {records : List DirRecord} (h : DirStored fs n records)
    (buf : Ext2.Buffer) : DirectoryRead fs buf n records := by
  refine ⟨h.isDir, h.stored.size, ?_⟩
  rw [h.stored.size]
  by_cases hpos : 0 < (dirBytes records).length
  · obtain ⟨buf', hrun, hbytes⟩ := h.stored.read hpos h.small (Nat.le_of_eq (Nat.zero_add _))
      (by rw [Nat.zero_mod, Nat.zero_add]; exact h.oneBlock) buf
    refine ⟨buf', hrun, fun i hi => ?_⟩
    rw [hbytes i hi, Nat.zero_add]
  · have hzero : (dirBytes records).length = 0 := by omega
    rw [hzero]
    exact ⟨buf, read_nothing _ _ _, fun i hi => absurd hi (Nat.not_lt_zero i)⟩

end Reads

/-! ## The names lead from directory to directory -/

section Lookups

variable {fs : Filesystem} {nodes : InodeNum → Node}

theorem Mountable.readGroupDesc_ok (hfs : Mountable fs) {n : InodeNum} (hn : InTable fs n) :
    readGroupDesc fs n = .ok () := by
  obtain ⟨hzero, hle⟩ := hn
  have hpos : 0 < fs.inodesPerGroup.toNat := by
    have hne : fs.inodesPerGroup.toNat ≠ 0 := fun h => hfs.groups (BitVec.eq_of_toNat_eq h)
    omega
  have hn0 : n.toNat ≠ 0 := fun h => hzero (BitVec.eq_of_toNat_eq h)
  have hpred : (n - 1#32).toNat = n.toNat - 1 := by
    rw [BitVec.toNat_sub_of_le]
    · rfl
    · rw [BitVec.le_def]
      exact Nat.one_le_iff_ne_zero.2 hn0
  have hgroup : (n.toNat - 1) / fs.inodesPerGroup.toNat < bgdDescsCount fs := by
    have hone := Nat.add_div_right (n.toNat - 1) hpos
    have hcount : (n.toNat - 1 + fs.inodesPerGroup.toNat) / fs.inodesPerGroup.toNat ≤
        bgdDescsCount fs := Nat.div_le_div_right (by omega)
    omega
  have hdivide : divide (n.toNat - 1) fs.inodesPerGroup.toNat =
      .ok ((n.toNat - 1) / fs.inodesPerGroup.toNat) := if_neg (by omega)
  simp only [readGroupDesc, ext2GetBlockGroup, assert, hle, decide_true, if_true, ok_bind, hpred,
    hdivide, hgroup, Nat.mod_eq_of_lt hfs.descs]

theorem Mountable.mountRoot (hfs : Mountable fs) : mountRoot fs = .ok () := by
  rw [Vfs.mountRoot, hfs.readGroupDesc_ok hfs.root, decide_eq_true hfs.groups]
  rfl

section Step

variable {n : InodeNum} {name : Name}

/-- The driver finds what is in a directory, whatever the block held. -/
theorem StepOnDevice.findChild (h : StepOnDevice fs nodes n name) (buf : Ext2.Buffer) :
    findChild fs buf n name = .ok (child nodes n name) := by
  unfold StepOnDevice at h
  unfold child
  cases hnode : nodes n with
  | file content =>
    rw [hnode] at h
    rw [Vfs.findChild, h]
    rfl
  | dir records =>
    rw [hnode] at h
    obtain ⟨hdir, hlive, -⟩ := h
    have hfound := findChild_records name ((Ext2.toI32_eq_iff (by have := hdir.small; omega)).2
      hdir.small) (hdir.directoryRead buf)
    rw [(find_eq_liveChild_iff records name).2 hlive] at hfound
    exact hfound

theorem StepOnDevice.inTable (h : StepOnDevice fs nodes n name) {n' : InodeNum}
    (hchild : child nodes n name = .ok n') : InTable fs n' := by
  unfold StepOnDevice at h
  unfold child at hchild
  cases hnode : nodes n with
  | file content =>
    rw [hnode] at hchild
    cases hchild
  | dir records =>
    rw [hnode] at h hchild
    exact h.2.2 n' hchild

theorem StepOnDevice.driverLookup (h : StepOnDevice fs nodes n name) (hfs : Mountable fs)
    (buf : Ext2.Buffer) : driverLookup fs buf n name = .ok (child nodes n name) := by
  rw [Vfs.driverLookup, h.findChild buf, ok_bind]
  cases hchild : child nodes n name with
  | error code => rfl
  | ok n' => simp only [hfs.readGroupDesc_ok (h.inTable hchild), ok_bind, pure_eq_ok]

end Step

/-- The driver's lookup goes where the names lead, and does not depend on what the blocks held. -/
theorem OnWay.foldLookup (hfs : Mountable fs) (buf : Ext2.Buffer) : ∀ (names : List Name)
    {n : InodeNum}, OnWay fs nodes n names →
    foldLookup fs buf n names = .ok (names.foldlM (child nodes) n) ∧ Steady fs buf n names := by
  intro names
  induction names with
  | nil => exact fun _ => ⟨rfl, trivial⟩
  | cons name names ih =>
    intro n h
    obtain ⟨hstep, hnext⟩ := h
    have hlookup := hstep.driverLookup hfs buf
    have hsame : ∀ buf', findChild fs buf' n name = findChild fs buf n name :=
      fun buf' => (hstep.findChild buf').trans (hstep.findChild buf).symm
    rw [Vfs.foldLookup, hlookup, ok_bind, List.foldlM_cons]
    refine ⟨?_, hsame, fun n' hn' => ?_⟩
    · cases hchild : child nodes n name with
      | error code => rfl
      | ok n' => exact (ih (hnext n' hchild)).1
    · rw [hlookup] at hn'
      exact (ih (hnext n' (Except.ok.inj hn'))).2

section Path

variable {path : Option CString} (h : OnPath fs nodes path) (hfs : Mountable fs)
  (buf : Ext2.Buffer)
include h hfs

theorem OnPath.uncachedLookup : uncachedLookup fs buf path = .ok (follow nodes path) := by
  cases path with
  | none => rfl
  | some path =>
    unfold Vfs.uncachedLookup follow
    dsimp only
    split_ifs with hslash
    · exact (OnWay.foldLookup hfs buf _ (h path rfl hslash)).1
    · rfl

end Path

theorem OnPath.uncachedLookups (hfs : Mountable fs) (buf : Ext2.Buffer) :
    ∀ (paths : List (Option CString)), (∀ path ∈ paths, OnPath fs nodes path) →
    paths.mapM (Vfs.uncachedLookup fs buf) = .ok (paths.map (follow nodes)) := by
  intro paths
  induction paths with
  | nil => exact fun _ => rfl
  | cons path paths ih =>
    intro h
    rw [List.mapM_cons, (h path List.mem_cons_self).uncachedLookup hfs buf, ok_bind,
      ih fun p hp => h p (List.mem_cons_of_mem _ hp)]
    rfl

end Lookups

/-! ## A file system with one file -/

end X86Kernel.Vfs
