import X86Kernel.Vfs.Path.DirScan
import X86Kernel.Vfs.Path.Transparent

/- Looking up a name in a directory that is well formed (`ext2_vfs_lookup`).

   A directory is a list of records that fill it. A record with the inode 0 is a
   deleted one; it keeps its name. What is proved: the answer is the inode of the
   first record with the name, deleted or not (`scanDir_records`), so it is the right
   one exactly if that record is not deleted (`lookup_finds_iff`). -/
namespace X86Kernel.Vfs
open X86Kernel.Ext2 (toI32)

/-- A record: `ext2_disk_dir_entry_t` with its name, and what fills it up to `rec_len`. -/
structure DirRecord where
  inode : InodeNum
  fileType : UInt8
  name : Name
  padding : List UInt8
  name_lt : name.length < 2 ^ 8
  size_lt : 8 + (name.length + padding.length) < 2 ^ 16

def DirRecord.recLen (r : DirRecord) : Nat := 8 + (r.name.length + r.padding.length)

/-- The record on the disk. -/
def DirRecord.bytes (r : DirRecord) : List UInt8 :=
  pointerBytes r.inode ++
    ([UInt8.ofNat r.recLen, UInt8.ofNat (r.recLen / 256), UInt8.ofNat r.name.length, r.fileType] ++
      (r.name ++ r.padding))

/-- The bytes of a directory. -/
def dirBytes (records : List DirRecord) : List UInt8 := records.flatMap DirRecord.bytes

/-- The answer that a lookup should have: the inode of the first record with the name that is
not deleted. -/
def liveChild (records : List DirRecord) (childStr : Name) : Except Int InodeNum :=
  match records.find? fun r => r.inode ≠ 0#32 ∧ r.name = childStr with
  | none => .error (-vfsErrNoent)
  | some r => .ok r.inode

/-- The first record with the name is not deleted, if there is one. -/
def FirstIsLive (records : List DirRecord) (childStr : Name) : Prop :=
  ∀ r, records.find? (fun r => r.name = childStr) = some r → r.inode ≠ 0#32

/-! ## The fields of a record -/

theorem DirRecord.length_bytes (r : DirRecord) : r.bytes.length = r.recLen := by
  simp only [bytes, recLen, pointerBytes, List.length_append, List.length_map, List.length_cons,
    List.length_nil]
  omega

theorem ofNat_pointerBytes (p : Ptr) :
    BitVec.ofNat 32 ((UInt8.ofBitVec (p.extractLsb' 0 8)).toNat +
      256 * (UInt8.ofBitVec (p.extractLsb' 8 8)).toNat +
      65536 * (UInt8.ofBitVec (p.extractLsb' 16 8)).toNat +
      16777216 * (UInt8.ofBitVec (p.extractLsb' 24 8)).toNat) = p := by
  apply BitVec.eq_of_toNat_eq
  have hlt := p.isLt
  simp only [UInt8.toNat_ofBitVec, BitVec.extractLsb'_toNat, BitVec.toNat_ofNat,
    Nat.shiftRight_eq_div_pow]
  omega

section Record

variable {dirData rest : List UInt8} {r : DirRecord} {cur : Nat} {childStr : Name}

theorem getD_of_drop (hdrop : dirData.drop cur = r.bytes ++ rest) (i : Nat) :
    dirData.getD (cur + i) 0 = (r.bytes ++ rest).getD i 0 := by
  rw [← hdrop, List.getD_eq_getElem?_getD, List.getD_eq_getElem?_getD, List.getElem?_drop]

theorem recordInode_of_drop (hdrop : dirData.drop cur = r.bytes ++ rest) :
    recordInode dirData cur = r.inode := by
  have h0 := getD_of_drop hdrop 0
  rw [Nat.add_zero] at h0
  rw [recordInode, h0, getD_of_drop hdrop 1, getD_of_drop hdrop 2, getD_of_drop hdrop 3]
  exact ofNat_pointerBytes r.inode

theorem recordLen_of_drop (hdrop : dirData.drop cur = r.bytes ++ rest) :
    recordLen dirData cur = r.recLen := by
  have hsize := r.size_lt
  rw [recordLen, getD_of_drop hdrop 4, getD_of_drop hdrop 5]
  show (UInt8.ofNat r.recLen).toNat + 256 * (UInt8.ofNat (r.recLen / 256)).toNat = r.recLen
  rw [UInt8.toNat_ofNat', UInt8.toNat_ofNat']
  unfold DirRecord.recLen
  omega

theorem recordNameLen_of_drop (hdrop : dirData.drop cur = r.bytes ++ rest) :
    recordNameLen dirData cur = r.name.length := by
  rw [recordNameLen, getD_of_drop hdrop 6]
  show (UInt8.ofNat r.name.length).toNat = _
  rw [UInt8.toNat_ofNat', Nat.mod_eq_of_lt r.name_lt]

theorem drop_name (hdrop : dirData.drop cur = r.bytes ++ rest) :
    dirData.drop (cur + 8) = r.name ++ (r.padding ++ rest) := by
  rw [← List.drop_drop, hdrop, ← List.append_assoc]
  rfl

theorem named_iff (hdrop : dirData.drop cur = r.bytes ++ rest) :
    Named dirData childStr cur ↔ r.name = childStr := by
  rw [Named, recordNameLen_of_drop hdrop, drop_name hdrop]
  constructor
  · rintro ⟨hlen, hpre⟩
    have h := List.prefix_of_prefix_length_le hpre (List.prefix_append _ _) (le_of_eq hlen)
    exact (h.eq_of_length hlen).symm
  · rintro rfl
    exact ⟨rfl, List.prefix_append _ _⟩

theorem examinable_of_drop (hdrop : dirData.drop cur = r.bytes ++ rest) :
    Examinable dirData childStr cur := by
  have hlen := congrArg List.length hdrop
  rw [List.length_drop, List.length_append, r.length_bytes] at hlen
  have hrec : 8 ≤ r.recLen := Nat.le_add_right _ _
  refine ⟨by omega, fun hname hshort => ?_, fun _ => ?_⟩
  · rw [recordNameLen_of_drop hdrop] at hname
    rw [drop_name hdrop] at hshort ⊢
    rw [hshort.eq_of_length_le (by rw [hname, List.length_append]; omega)]
  · rw [recordLen_of_drop hdrop]
    omega

end Record

/-! ## The loop over the records -/

/-- What the loop finds: the first record with the name, deleted or not. -/
theorem scanDir_records {dirData : List UInt8} (childStr : Name)
    (hsmall : dirData.length < 2 ^ 31) : ∀ (records : List DirRecord) (cur fuel : Nat),
    dirData.drop cur = dirBytes records → records.length < fuel →
    scanDir dirData childStr fuel cur =
      .ok ((records.find? fun r => r.name = childStr).map DirRecord.inode) := by
  intro records
  induction records with
  | nil =>
    intro cur fuel hdrop hfuel
    obtain ⟨fuel, rfl⟩ := Nat.exists_eq_succ_of_ne_zero (Nat.ne_of_gt hfuel)
    exact scanDir_end (List.drop_eq_nil_iff.1 hdrop)
  | cons r records ih =>
    intro cur fuel hdrop hfuel
    obtain ⟨fuel, rfl⟩ := Nat.exists_eq_succ_of_ne_zero (Nat.ne_zero_of_lt hfuel)
    replace hdrop : dirData.drop cur = r.bytes ++ dirBytes records := hdrop
    have hexam : Examinable dirData childStr cur := examinable_of_drop hdrop
    have hin : cur < dirData.length := by
      have := hexam.header
      omega
    rw [scanDir_succ hin hexam.matchesAt, recordInode_of_drop hdrop, recordLen_of_drop hdrop]
    by_cases hname : r.name = childStr
    · rw [decide_eq_true ((named_iff hdrop).2 hname), List.find?_cons_of_pos (by simpa using hname)]
      rfl
    · rw [decide_eq_false (mt (named_iff hdrop).1 hname),
        List.find?_cons_of_neg (by simpa using hname)]
      have hlen := congrArg List.length hdrop
      rw [List.length_drop, List.length_append, r.length_bytes] at hlen
      have hnext : u32 (cur + r.recLen) = cur + r.recLen := u32_of_lt (by omega)
      rw [hnext]
      -- the next record starts where this one ends
      apply ih _ _ _ (Nat.lt_of_succ_lt_succ hfuel)
      rw [← List.drop_drop, hdrop, ← r.length_bytes, List.drop_left]

theorem length_le_dirBytes (records : List DirRecord) :
    records.length ≤ (dirBytes records).length := by
  induction records with
  | nil => exact Nat.zero_le _
  | cons r records ih =>
    show _ ≤ (r.bytes ++ dirBytes records).length
    rw [List.length_append, r.length_bytes, List.length_cons, DirRecord.recLen]
    omega

theorem find_live_eq_none {records : List DirRecord} {childStr : Name}
    (h : records.find? (fun r => r.name = childStr) = none) :
    records.find? (fun r => r.inode ≠ 0#32 ∧ r.name = childStr) = none := by
  rw [List.find?_eq_none] at h ⊢
  intro r hr hlive
  exact h r hr (decide_eq_true (of_decide_eq_true hlive).2)

theorem find_live_eq_some {records : List DirRecord} {childStr : Name} {r : DirRecord}
    (h : records.find? (fun r => r.name = childStr) = some r) (hlive : r.inode ≠ 0#32) :
    records.find? (fun r => r.inode ≠ 0#32 ∧ r.name = childStr) = some r := by
  rw [List.find?_eq_some_iff_append] at h ⊢
  obtain ⟨hname, before, after, hsplit, hbefore⟩ := h
  refine ⟨decide_eq_true ⟨hlive, of_decide_eq_true hname⟩, before, after, hsplit, fun r' hr' => ?_⟩
  have hne : r'.name ≠ childStr := by simpa using hbefore r' hr'
  simp [hne]

/-- The inode that is found is the right one exactly if the record is not deleted. -/
theorem find_eq_liveChild_iff (records : List DirRecord) (childStr : Name) :
    ((records.find? fun r => r.name = childStr).map DirRecord.inode).elim
      (Except.error (-vfsErrNoent)) Except.ok = liveChild records childStr ↔
      FirstIsLive records childStr := by
  unfold FirstIsLive liveChild
  cases hfirst : records.find? fun r => r.name = childStr with
  | none =>
    rw [find_live_eq_none hfirst]
    exact iff_of_true rfl fun r hr => nomatch hr
  | some r =>
    constructor
    · -- what is found has the inode of a live record, so it is not 0
      intro heq r' hr' hzero
      obtain rfl := Option.some.inj hr'
      cases hlive : records.find? fun r => r.inode ≠ 0#32 ∧ r.name = childStr with
      | none =>
        rw [hlive] at heq
        cases heq
      | some live =>
        rw [hlive] at heq
        have hsame : r.inode = live.inode := Except.ok.inj heq
        have hfound : live.inode ≠ 0#32 ∧ live.name = childStr := by
          simpa using List.find?_some hlive
        exact hfound.1 (hsame ▸ hzero)
    · intro h
      rw [find_live_eq_some hfirst (h r rfl)]
      rfl

/-! ## The lookup -/

/-- The directory of a file system has the records, and its bytes are read correctly into a block
that held `buf`. -/
structure DirectoryRead (fs : Filesystem) (buf : Ext2.Buffer) (dir : InodeNum)
    (records : List DirRecord) : Prop where
  isDir : ext2InodeIsType (fs.mode dir) ext2FtDir = true
  size : (fs.inode dir).size = (dirBytes records).length
  read : ∃ dirData : Ext2.Buffer,
    Ext2.ext2ReadInode fs.dev (fs.inode dir) buf (fs.inode dir).size 0 =
      .ok (((dirBytes records).length : Int), dirData) ∧
    ∀ i < (dirBytes records).length, dirData i = (dirBytes records).getD i 0

/-- The end of `ext2_vfs_lookup`: the inode that was found is fetched. -/
def fetchFound (kmalloc : Nat → Ptr) (fs : Filesystem) (s : VfsData) :
    Except Int InodeNum → Kernel (VfsData × Except Int Ptr)
  | .error code => .ok (s, .error code)
  | .ok inodeNum => do
    let (s, child) ← ext2FetchInode kmalloc fs s inodeNum
    return (s, .ok child)

theorem lt_of_toI32 {n : Nat} (h : toI32 n = n) : n < 2 ^ 31 := by
  unfold toI32 at h
  split_ifs at h <;> omega

section Lookup

variable {records : List DirRecord}

theorem findChild_records {fs : Filesystem} {buf : Ext2.Buffer} {dir : InodeNum} (childStr : Name)
    (hread : toI32 (dirBytes records).length = (dirBytes records).length)
    (hdir : DirectoryRead fs buf dir records) :
    findChild fs buf dir childStr =
      .ok (((records.find? fun r => r.name = childStr).map DirRecord.inode).elim
        (.error (-vfsErrNoent)) .ok) := by
  have hsmall := lt_of_toI32 hread
  have hfuel : records.length < (dirBytes records).length + 1 :=
    Nat.lt_succ_of_le (length_le_dirBytes records)
  have hrun := hdir.read
  rw [hdir.size] at hrun
  exact findChild_read hdir.isDir hdir.size hsmall hrun
    (scanDir_records childStr hsmall records 0 _ List.drop_zero hfuel)

/-- On a directory whose size fits the `i32` that the read returns, the lookup finds the first
record with the name that is not deleted, exactly if none with the name before it is. -/
theorem lookup_finds_iff (childStr : Name)
    (hread : toI32 (dirBytes records).length = (dirBytes records).length) :
    ((∃ fuel, lookupScan (dirBytes records) childStr fuel = .ok (liveChild records childStr)) ↔
      FirstIsLive records childStr) ∧
    ∀ fs buf dir, DirectoryRead fs buf dir records →
      (findChild fs buf dir childStr = .ok (liveChild records childStr) ↔
        FirstIsLive records childStr) ∧
      (FirstIsLive records childStr → ∀ kmalloc s inode, s.inodes inode = some dir →
        fs.heap s.reads = buf → ext2VfsLookup kmalloc fs s inode childStr =
          fetchFound kmalloc fs { s with reads := s.reads + 1 } (liveChild records childStr)) := by
  have hsmall := lt_of_toI32 hread
  have hall : ∀ fuel, records.length < fuel → scanDir (dirBytes records) childStr fuel 0 =
      .ok ((records.find? fun r => r.name = childStr).map DirRecord.inode) :=
    fun fuel => scanDir_records childStr hsmall records 0 fuel List.drop_zero
  refine ⟨?_, fun fs buf dir hdir => ⟨?_, fun hlive kmalloc s inode hinode hbuf => ?_⟩⟩
  · rw [← find_eq_liveChild_iff]
    constructor
    · rintro ⟨fuel, h⟩
      rw [lookupScan_of_lt hsmall] at h
      cases hscan : scanDir (dirBytes records) childStr fuel 0 with
      | error e =>
        rw [hscan] at h
        cases h
      | ok found =>
        -- the turns given may be fewer than there are records
        have hlong := scanDir_le hscan (Nat.le_add_left fuel (records.length + 1))
        rw [hall _ (by omega)] at hlong
        rw [hscan, ← Except.ok.inj hlong] at h
        exact Except.ok.inj h
    · intro h
      refine ⟨records.length + 1, ?_⟩
      rw [lookupScan_of_lt hsmall, hall _ (Nat.lt_succ_self _), ← h]
      rfl
  · rw [findChild_records childStr hread hdir, ← find_eq_liveChild_iff]
    exact ⟨Except.ok.inj, congrArg _⟩
  · have hfound := findChild_records childStr hread hdir
    rw [(find_eq_liveChild_iff records childStr).2 hlive] at hfound
    rw [ext2VfsLookup, inodeNumOf, hinode, ok_bind, hbuf, hfound, ok_bind]
    cases liveChild records childStr <;> rfl

end Lookup

/-- Two records with the name `a`. The first one has the inode `n`, the other one 12. -/
def sameNames (n : InodeNum) : List DirRecord :=
  [⟨n, 1, nameA, [0, 0, 0], by decide, by decide⟩,
    ⟨12#32, 1, nameA, [0, 0, 0], by decide, by decide⟩]

theorem thirdBlock_lt (i : Nat) : (if i = 0 then 3 else 0) < 2 ^ 32 := by
  split <;> omega

/-- A file of 24 bytes, in the third block. -/
def shortDirectory : Ext2.Inode where
  size := 24
  block i := if i = 0 then 3 else 0
  base := 0
  size_lt := smallInode.size_lt
  block_lt := thirdBlock_lt
  base_le := smallInode_base_le

/-- A file system whose directories have these records. -/
def sameNamesFs (n : InodeNum) : Filesystem where
  dev o := (dirBytes (sameNames n)).getD (o - 3 * 1024) 0
  inode _ := shortDirectory
  mode _ := 0x4000#16
  inodesCount := 16#32
  inodesPerGroup := 16#32
  heap _ _ := 0

theorem shortDirectory_blockSize : shortDirectory.blockSize = 1024 := rfl

theorem shortDirectory_diskBlock (dev : Ext2.Device) {i : Nat} (hi : i < 24) :
    Ext2.diskBlock dev shortDirectory (i / shortDirectory.blockSize) = 3 := by
  rw [show i / shortDirectory.blockSize = 0 from Nat.div_eq_of_lt (lt_trans hi (by decide))]
  rfl

theorem sameNames_read (n : InodeNum) (buf : Ext2.Buffer) :
    DirectoryRead (sameNamesFs n) buf ext2RootInode (sameNames n) := by
  have hblock : Ext2.diskBlock (sameNamesFs n).dev shortDirectory
      (0 / shortDirectory.blockSize) ≠ 0 := by
    rw [shortDirectory_diskBlock _ (by decide)]
    decide
  have hread : Ext2.ReadsCorrectly (sameNamesFs n).dev shortDirectory 24 0 :=
    (Ext2.readInode_correct_iff _ shortDirectory 24 0 (by decide)).2
      (.inr ⟨by decide, by decide, .inl hblock⟩)
  have hdir : ext2InodeIsType 0x4000#16 ext2FtDir = true := by decide
  obtain ⟨dirData, hrun, hbytes⟩ := hread buf
  refine ⟨hdir, rfl, dirData, hrun, fun i hi => ?_⟩
  replace hi : i < 24 := hi
  have hmod : i % shortDirectory.blockSize = i := Nat.mod_eq_of_lt (lt_trans hi (by decide))
  rw [hbytes i hi, Nat.zero_add, Ext2.fileByte, shortDirectory_diskBlock _ hi, hmod,
    shortDirectory_blockSize]
  rw [if_neg (by decide), sameNamesFs]
  dsimp only
  rw [Nat.add_sub_cancel_left]

/-- The first of two records is found. -/
theorem sameNames_found :
    findChild (sameNamesFs 5#32) (fun _ => 0) ext2RootInode nameA = .ok (.ok 5#32) :=
  (((lookup_finds_iff nameA (by decide)).2 (sameNamesFs 5#32) (fun _ => 0) ext2RootInode
    (sameNames_read 5#32 _)).1).2 fun r hr => by
      obtain rfl : (sameNames 5#32).head (List.cons_ne_nil _ _) = r := Option.some.inj hr
      decide

/-- A deleted record is found too, and hides the other one. -/
theorem deletedName_found :
    DirectoryRead (sameNamesFs 0#32) (fun _ => 0) ext2RootInode (sameNames 0#32) ∧
      liveChild (sameNames 0#32) nameA = .ok 12#32 ∧
      findChild (sameNamesFs 0#32) (fun _ => 0) ext2RootInode nameA = .ok (.ok 0#32) :=
  ⟨sameNames_read 0#32 _, rfl, findChild_records nameA (by decide) (sameNames_read 0#32 _)⟩

end X86Kernel.Vfs
