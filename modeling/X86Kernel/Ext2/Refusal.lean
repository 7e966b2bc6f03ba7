import X86Kernel.Ext2.BlockTree

/- Reads outside of the file (`ext2_read_inode`).

   The length is unsigned, the offset signed, both of 64 bits, and what is compared
   with the size of the file is their sum modulo 2^64. A negative offset with a
   length that brings the sum back to zero is let through, and so is a length that
   goes once around.

   The reads of the device are noted by the walk of the block tree and by the loop
   (`ext2ReadInodeReads`). What is proved: exactly which requests are answered as
   they should be (`outside_refused_iff`). -/
namespace X86Kernel.Ext2

/-! ## The reads of the device -/

/-- What notes the calls of `fs_read_bytes`: the offset and the length. -/
abbrev Logged := StateM (List (Nat × Nat))

def loggedReadU32 (dev : Device) (blockSize block index : Nat) : Logged Nat := fun log =>
  (ext2ReadU32 dev blockSize block index, log ++ [(block * blockSize + u32 (index * 4), 4)])

/-- `ext2_get_inode_block_index`, with its reads. -/
def loggedBlockIndex (dev : Device) (inode : Inode) (index : Nat) : Logged Nat :=
  blockIndexWalk (fun a b => pure (u32 (a * b))) (fun a b => pure (sub32 a b))
    (loggedReadU32 dev inode.blockSize) inode index

/-- The reads of `readLoop`. -/
def readLoopReads (dev : Device) (inode : Inode) (length : Nat) :
    Nat → (fileOffset remaining : Nat) → List (Nat × Nat)
  | 0, _, _ => []
  | fuel + 1, fileOffset, remaining =>
    if remaining > 0 then
      let fileBlockIndex := u32 (fileOffset / inode.blockSize)
      let fileBlockOff := fileOffset % inode.blockSize
      let chunkLength := min (inode.blockSize - fileBlockOff) remaining
      let walk : Nat × List (Nat × Nat) := (loggedBlockIndex dev inode fileBlockIndex).run []
      let blockIndex := walk.1
      if blockIndex = 0 then walk.2
      else
        walk.2 ++ (blockIndex * inode.blockSize + fileBlockOff, chunkLength) ::
          readLoopReads dev inode length fuel ((fileOffset + chunkLength) % 2 ^ 64)
            ((remaining + 2 ^ 64 - length) % 2 ^ 64)
    else []

/-- The reads of `ext2ReadInode`. -/
def ext2ReadInodeReads (dev : Device) (inode : Inode) (length : Nat) (fileOffset : Int) :
    List (Nat × Nat) :=
  if (length + toU64 fileOffset) % 2 ^ 64 > inode.size then []
  else readLoopReads dev inode length (length + 1) (toU64 fileOffset) length

/-- The request is for bytes of the file. -/
def InsideFile (inode : Inode) (length : Nat) (fileOffset : Int) : Prop :=
  0 ≤ fileOffset ∧ fileOffset + length ≤ inode.size

/-- A request that is not inside the file is refused: the device is not read, and the buffer
stays as it was. -/
def OutsideRefused (dev : Device) (inode : Inode) (length : Nat) (fileOffset : Int) : Prop :=
  ¬ InsideFile inode length fileOffset →
    (∀ buf, ext2ReadInode dev inode buf length fileOffset = .ok (-vfsErrInval, buf)) ∧
      ext2ReadInodeReads dev inode length fileOffset = []

/-! ## Noting the reads changes nothing -/

theorem loggedBlockIndex_fst (dev : Device) (inode : Inode) (index : Nat)
    (log : List (Nat × Nat)) :
    ((loggedBlockIndex dev inode index).run log).1 = ext2GetInodeBlockIndex dev inode index := by
  unfold loggedBlockIndex blockIndexWalk ext2GetInodeBlockIndex
  simp only [pure_bind]
  split_ifs <;> rfl

/-- Only a block with a direct pointer is found without a read. -/
theorem loggedBlockIndex_snd (dev : Device) (inode : Inode) (index : Nat) :
    ((loggedBlockIndex dev inode index).run []).2 = [] ↔ index < indirectBlocks := by
  unfold loggedBlockIndex blockIndexWalk
  dsimp only
  by_cases h : index < indirectBlocks
  · rw [if_pos h]
    exact iff_of_true rfl h
  · rw [if_neg h]
    refine iff_of_false ?_ h
    simp only [pure_bind]
    split_ifs <;> simp [loggedReadU32, StateT.run, bind, StateT.bind]

/-! ## Exactly the requests that are answered -/

theorem ext2ReadInodeReads_eq (dev : Device) (inode : Inode) {length : Nat} {fileOffset : Int}
    (hpos : 0 < length) (hin : (length + toU64 fileOffset) % 2 ^ 64 ≤ inode.size) :
    ext2ReadInodeReads dev inode length fileOffset = [] ↔
      u32 (toU64 fileOffset / inode.blockSize) < indirectBlocks ∧
        ext2GetInodeBlockIndex dev inode (u32 (toU64 fileOffset / inode.blockSize)) = 0 := by
  unfold ext2ReadInodeReads
  rw [if_neg (Nat.not_lt.2 hin), readLoopReads, if_pos hpos, ← loggedBlockIndex_snd dev inode,
    ← loggedBlockIndex_fst dev inode _ []]
  dsimp only
  split_ifs with hzero
  · simp [hzero]
  · simp [hzero]

theorem toI32_eq_inval_iff (n : Nat) : toI32 n = -vfsErrInval ↔ n % 2 ^ 32 = 2 ^ 32 - 7 := by
  unfold toI32 vfsErrInval
  split_ifs <;> omega

theorem length_pos_of_outside {inode : Inode} {length : Nat} {fileOffset : Int}
    (hlow : -2 ^ 63 ≤ fileOffset) (hhigh : fileOffset < 2 ^ 63)
    (hout : ¬ InsideFile inode length fileOffset)
    (hin : (length + toU64 fileOffset) % 2 ^ 64 ≤ inode.size) : 0 < length := by
  have hsize := inode.size_lt
  unfold InsideFile at hout
  unfold toU64 at hin
  omega

/-- A request outside of the file is refused as it should be exactly if the sum of offset and
length, modulo 2^64, is past the end. One exception: it is let through, but finds a zero among
the direct pointers, and its length ends in the 32 bits of the error code. -/
theorem outside_refused_iff (dev : Device) (inode : Inode) {length : Nat} {fileOffset : Int}
    (hlow : -2 ^ 63 ≤ fileOffset) (hhigh : fileOffset < 2 ^ 63) :
    OutsideRefused dev inode length fileOffset ↔
      InsideFile inode length fileOffset ∨ inode.size < (length + toU64 fileOffset) % 2 ^ 64 ∨
        (u32 (toU64 fileOffset / inode.blockSize) < indirectBlocks ∧
          inode.block (u32 (toU64 fileOffset / inode.blockSize)) = 0 ∧
          length % 2 ^ 32 = 2 ^ 32 - 7) := by
  by_cases hinside : InsideFile inode length fileOffset
  · exact iff_of_true (fun hout => absurd hinside hout) (.inl hinside)
  by_cases hpast : inode.size < (length + toU64 fileOffset) % 2 ^ 64
  · refine iff_of_true (fun _ => ⟨fun buf => ?_, ?_⟩) (.inr (.inl hpast))
    · rw [ext2ReadInode, if_pos hpast]
    · rw [ext2ReadInodeReads, if_pos hpast]
  -- the sum went around, so the loop is entered: its first block decides
  have hin := Nat.not_lt.1 hpast
  have hpos := length_pos_of_outside hlow hhigh hinside hin
  have hdirect : u32 (toU64 fileOffset / inode.blockSize) < indirectBlocks →
      ext2GetInodeBlockIndex dev inode (u32 (toU64 fileOffset / inode.blockSize)) =
        inode.block (u32 (toU64 fileOffset / inode.blockSize)) := by
    intro h
    rw [ext2GetInodeBlockIndex, if_pos h]
  unfold OutsideRefused
  rw [ext2ReadInodeReads_eq dev inode hpos hin]
  simp only [hinside, hpast, false_or, not_false_eq_true, true_implies]
  constructor
  · rintro ⟨hanswer, hsmall, hzero⟩
    have hcode := hanswer fun _ => 0
    rw [readInode_once dev inode _ hpos hin] at hcode
    exact ⟨hsmall, hdirect hsmall ▸ hzero,
      (toI32_eq_inval_iff length).1 (Prod.mk.inj (Except.ok.inj hcode)).1⟩
  · rintro ⟨hsmall, hzero, hlength⟩
    have hzero' := (hdirect hsmall).trans hzero
    refine ⟨fun buf => ?_, hsmall, hzero'⟩
    rw [readInode_once dev inode buf hpos hin, if_pos hzero', (toI32_eq_inval_iff length).2 hlength]

/-- One byte at offset 4096 of a file of two blocks of 1 KiB is refused. -/
theorem past_end_refused : OutsideRefused labelledDevice twoBlockFile 1 4096 :=
  (outside_refused_iff labelledDevice twoBlockFile (by decide) (by decide)).2
    (.inr (.inl (by decide)))

/-- One byte before the start of the file is not refused: the walk reads block 0 as a table. -/
theorem before_start_read : ¬ OutsideRefused labelledDevice twoBlockFile 1 (-1) := by
  intro h
  obtain ⟨hanswer, -⟩ := h (by unfold InsideFile; omega)
  have hcode := hanswer fun _ => 0
  rw [readInode_once labelledDevice twoBlockFile _ (by decide) (by decide)] at hcode
  have hone := (Prod.mk.inj (Except.ok.inj hcode)).1
  revert hone
  decide

end X86Kernel.Ext2
