import X86Kernel.Core
import Mathlib.Tactic.Ring
import Mathlib.Tactic.Linarith
import Mathlib.Tactic.Positivity

/- Reading an ext2 file (`kernel/filesystem/Ext2/fetch.c`): the walk of the
   block tree and the loop over the blocks of a read.

   The abstract file is the byte string the ext2 format assigns to an inode: a
   logical block is reached by a path of table indices from one of the fifteen
   inode pointers, and a zero pointer anywhere on the path is a hole, which
   reads as zeros (`fileByte`).

   What is proved: `ext2_get_inode_block_index` follows exactly that path, but
   without looking for zero pointers on the way (`getInodeBlockIndex_eq`), and
   `readInode_correct_iff`, the exact set of reads that `ext2_read_inode`
   serves correctly. The loop subtracts the whole length after the first chunk,
   so it never reaches a second block, and it leaves a hole unwritten.

   `fs_read_bytes` is taken to deliver the device bytes asked for.

   Correspondence (C ↔ Lean):
     `fs_read_bytes`              ↔ `fsReadBytes`
     `ext2_read_u32`              ↔ `ext2ReadU32`
     `ext2_get_inode_block_index` ↔ `ext2GetInodeBlockIndex`
     `ext2_read_inode`            ↔ `ext2ReadInode` (its loop: `readLoop`) -/
namespace X86Kernel.Ext2

/-- The bytes of the block device. -/
abbrev Device := Nat → UInt8

/-- Memory from `vbuffer` on. -/
abbrev Buffer := Nat → UInt8

/-- What a read uses of an inode in memory: `disk.size` and `disk.block` of
`ext2_inode_t`, and `block_size` of the mounted instance (`1024 << base`). -/
structure Inode where
  size : Nat
  block : Nat → Nat
  base : Nat
  size_lt : size < 2 ^ 32
  block_lt : ∀ i, block i < 2 ^ 32
  base_le : base ≤ 21

/-- `EXT2_BLOCK_SIZE(base)`. -/
def Inode.blockSize (inode : Inode) : Nat := 1024 * 2 ^ inode.base

def indirectBlocks : Nat := 12

def vfsErrInval : Int := 7

/-- `fs_read_bytes` into the buffer at `data`. -/
def fsReadBytes (dev : Device) (buf : Buffer) (data length offset : Nat) : Buffer :=
  fun i => if data ≤ i ∧ i < data + length then dev (offset + (i - data)) else buf i

/-- A little-endian 32-bit word of the device. -/
def deviceU32 (dev : Device) (offset : Nat) : Nat :=
  (dev offset).toNat + 256 * (dev (offset + 1)).toNat + 65536 * (dev (offset + 2)).toNat +
    16777216 * (dev (offset + 3)).toNat

def ext2ReadU32 (dev : Device) (blockSize block index : Nat) : Nat :=
  deviceU32 dev (block * blockSize + u32 (index * 4))

def ext2GetInodeBlockIndex (dev : Device) (inode : Inode) (index : Nat) : Nat :=
  let blockSize := inode.blockSize
  let ptrs := blockSize / 4
  if index < indirectBlocks then inode.block index
  else
    let index := sub32 index indirectBlocks
    if index < ptrs then ext2ReadU32 dev blockSize (inode.block indirectBlocks) index
    else
      let index := sub32 index ptrs
      if index < u32 (ptrs * ptrs) then
        let doubleBlock := inode.block (indirectBlocks + 1)
        let index1 := index / ptrs
        let index2 := index % ptrs
        let block := ext2ReadU32 dev blockSize doubleBlock index1
        ext2ReadU32 dev blockSize block index2
      else
        let index := sub32 index (u32 (ptrs * ptrs))
        let tripleBlock := inode.block (indirectBlocks + 2)
        let index1 := index / u32 (ptrs * ptrs)
        let remainder := index % u32 (ptrs * ptrs)
        let index2 := remainder / ptrs
        let index3 := remainder % ptrs
        let doubleBlock := ext2ReadU32 dev blockSize tripleBlock index1
        let block := ext2ReadU32 dev blockSize doubleBlock index2
        ext2ReadU32 dev blockSize block index3

/-- The loop of `ext2_read_inode`. `cur_buffer` is not advanced (`vbuffer` is),
and `remaining_length` drops by the whole length. -/
def readLoop (dev : Device) (inode : Inode) (length : Nat) :
    Nat → (buf : Buffer) → (curBuffer vbuffer fileOffset remaining : Nat) → Kernel Buffer
  | 0, _, _, _, _, _ => .error .diverges
  | fuel + 1, buf, curBuffer, vbuffer, fileOffset, remaining =>
    if remaining > 0 then
      let fileBlockIndex := u32 (fileOffset / inode.blockSize)
      let fileBlockOff := fileOffset % inode.blockSize
      let chunkLength := min (inode.blockSize - fileBlockOff) remaining
      let blockIndex := ext2GetInodeBlockIndex dev inode fileBlockIndex
      if blockIndex = 0 then .ok buf
      else
        let buf := fsReadBytes dev buf curBuffer chunkLength
          (blockIndex * inode.blockSize + fileBlockOff)
        readLoop dev inode length fuel buf curBuffer (vbuffer + chunkLength)
          ((fileOffset + chunkLength) % 2 ^ 64) ((remaining + 2 ^ 64 - length) % 2 ^ 64)
    else .ok buf

/-- A 64-bit value returned as `i32`. -/
def toI32 (n : Nat) : Int := if n % 2 ^ 32 < 2 ^ 31 then n % 2 ^ 32 else (n % 2 ^ 32 : Int) - 2 ^ 32

/-- A signed 64-bit value used as `usize`. -/
def toU64 (z : Int) : Nat := (z % 2 ^ 64).toNat

/-- `ext2_read_inode`: the value returned and the buffer after the call. A read
that makes progress takes at most one turn of the loop for each byte. -/
def ext2ReadInode (dev : Device) (inode : Inode) (buf : Buffer) (length : Nat)
    (fileOffset : Int) : Kernel (Int × Buffer) :=
  if (length + toU64 fileOffset) % 2 ^ 64 > inode.size then .ok (-vfsErrInval, buf)
  else
    match readLoop dev inode length (length + 1) buf 0 0 (toU64 fileOffset) length with
    | .error e => .error e
    | .ok buf' => .ok (toI32 length, buf')

/-! ## The file an inode describes -/

/-- Where logical block `b` hangs in the block tree with `p` pointers to a table:
the inode pointer, and the table indices below it. -/
def treePath (p b : Nat) : Nat × List Nat :=
  if b < 12 then (b, [])
  else if b < 12 + p then (12, [b - 12])
  else if b < 12 + p + p ^ 2 then (13, [(b - 12 - p) / p, (b - 12 - p) % p])
  else
    let r := b - 12 - p - p ^ 2
    (14, [r / p ^ 2, r % p ^ 2 / p, r % p ^ 2 % p])

/-- Entry `i` of the pointer table in disk block `block`. -/
def tableEntry (dev : Device) (blockSize block i : Nat) : Nat :=
  deviceU32 dev (block * blockSize + 4 * i)

/-- Follow table indices from a pointer; a zero pointer stays zero. -/
def follow (dev : Device) (blockSize : Nat) : Nat → List Nat → Nat
  | ptr, [] => ptr
  | ptr, i :: path =>
    if ptr = 0 then 0 else follow dev blockSize (tableEntry dev blockSize ptr i) path

/-- The same, reading block 0 as a table where a pointer on the way is zero. -/
def followBlind (dev : Device) (blockSize : Nat) : Nat → List Nat → Nat
  | ptr, [] => ptr
  | ptr, i :: path => followBlind dev blockSize (tableEntry dev blockSize ptr i) path

/-- The disk block of logical block `b`; `0` is a hole. -/
def diskBlock (dev : Device) (inode : Inode) (b : Nat) : Nat :=
  follow dev inode.blockSize (inode.block (treePath (inode.blockSize / 4) b).1)
    (treePath (inode.blockSize / 4) b).2

/-- The disk block reached when zero pointers are not noticed. -/
def blindBlock (dev : Device) (inode : Inode) (b : Nat) : Nat :=
  followBlind dev inode.blockSize (inode.block (treePath (inode.blockSize / 4) b).1)
    (treePath (inode.blockSize / 4) b).2

/-- Byte `o` of the file. -/
def fileByte (dev : Device) (inode : Inode) (o : Nat) : UInt8 :=
  let block := diskBlock dev inode (o / inode.blockSize)
  if block = 0 then 0 else dev (block * inode.blockSize + o % inode.blockSize)

/-- A read does what it should: whatever the buffer held, the call returns
`length` and the buffer then starts with the file's bytes from `offset` on. -/
def ReadsCorrectly (dev : Device) (inode : Inode) (length offset : Nat) : Prop :=
  ∀ buf, ∃ buf', ext2ReadInode dev inode buf length offset = .ok ((length : Int), buf') ∧
    ∀ i < length, buf' i = fileByte dev inode (offset + i)

/-! ## The block tree walk -/

theorem blockSize_pos (inode : Inode) : 0 < inode.blockSize := by
  unfold Inode.blockSize; positivity

theorem blockSize_lt (inode : Inode) : inode.blockSize < 2 ^ 32 := by
  have h : 2 ^ inode.base ≤ 2 ^ 21 := Nat.pow_le_pow_right (by decide) inode.base_le
  unfold Inode.blockSize; omega

theorem blockSize_eq (inode : Inode) : inode.blockSize = 4 * (inode.blockSize / 4) := by
  unfold Inode.blockSize; omega

theorem follow_zero (dev : Device) (bs : Nat) (path : List Nat) : follow dev bs 0 path = 0 := by
  cases path <;> simp [follow]

theorem followBlind_eq (dev : Device) (bs : Nat) : ∀ (path : List Nat) (ptr : Nat),
    follow dev bs ptr path ≠ 0 → followBlind dev bs ptr path = follow dev bs ptr path
  | [], _, _ => rfl
  | i :: path, ptr, h => by
    by_cases h0 : ptr = 0
    · rw [h0, follow_zero] at h; exact absurd rfl h
    · simp only [follow, if_neg h0] at h ⊢
      exact followBlind_eq dev bs path _ h

theorem readU32_eq (dev : Device) (bs block : Nat) {i : Nat} (h : 4 * i < 2 ^ 32) :
    ext2ReadU32 dev bs block i = tableEntry dev bs block i := by
  unfold ext2ReadU32 tableEntry
  rw [u32_of_lt (by omega), Nat.mul_comm i 4]

/-- The code follows the path of the block tree, where the indices on it are those of
words in a block and the square of `ptrs` fits into 32 bits. -/
theorem getInodeBlockIndex_of_lt (dev : Device) (inode : Inode) {b : Nat} (hb : b < 2 ^ 32)
    (hsquare : 12 + inode.blockSize / 4 ≤ b →
      inode.blockSize / 4 * (inode.blockSize / 4) < 2 ^ 32)
    (hindex : ∀ i ∈ (treePath (inode.blockSize / 4) b).2, 4 * i < 2 ^ 32) :
    ext2GetInodeBlockIndex dev inode b = blindBlock dev inode b := by
  have hbs := blockSize_eq inode
  have hlt := blockSize_lt inode
  unfold ext2GetInodeBlockIndex blindBlock indirectBlocks
  dsimp only
  generalize hp : inode.blockSize / 4 = p at hbs hsquare hindex ⊢
  unfold treePath at hindex ⊢
  by_cases h1 : b < 12
  · simp [h1, followBlind]
  · rw [if_neg h1, sub32_of_le (by omega) (by omega)]
    rw [if_neg h1] at hindex ⊢
    by_cases h2 : b < 12 + p
    · rw [if_pos h2] at hindex ⊢
      rw [if_pos (by omega)]
      simp only [followBlind]
      exact readU32_eq _ _ _ (hindex _ (by simp))
    · rw [if_neg h2] at hindex ⊢
      rw [if_neg (by omega), sub32_of_le (by omega) (by omega),
        u32_of_lt (hsquare (by omega))]
      rw [pow_two] at hindex ⊢
      by_cases h3 : b < 12 + p + p * p
      · rw [if_pos h3] at hindex ⊢
        rw [if_pos (by omega)]
        simp only [followBlind]
        rw [readU32_eq _ _ _ (hindex _ (by simp)), readU32_eq _ _ _ (hindex _ (by simp))]
      · have hpp := hsquare (by omega)
        rw [if_neg h3] at hindex ⊢
        rw [if_neg (by omega), sub32_of_le (by omega) (by omega)]
        simp only [followBlind]
        rw [readU32_eq _ _ _ (hindex _ (by simp)), readU32_eq _ _ _ (hindex _ (by simp)),
          readU32_eq _ _ _ (hindex _ (by simp))]

theorem treePath_le (p b : Nat) : ∀ i ∈ (treePath p b).2, i ≤ b := by
  have hsub : ∀ c, b - c ≤ b := fun c => Nat.sub_le b c
  unfold treePath
  split_ifs
  · simp
  · simp
  · simp only [List.mem_cons, List.not_mem_nil, or_false, forall_eq_or_imp, forall_eq]
    have hdiv := Nat.div_le_self (b - 12 - p) p
    have hmod := Nat.mod_le (b - 12 - p) p
    omega
  · simp only [List.mem_cons, List.not_mem_nil, or_false, forall_eq_or_imp, forall_eq]
    have htop := Nat.div_le_self (b - 12 - p - p ^ 2) (p ^ 2)
    have hrest := Nat.mod_le (b - 12 - p - p ^ 2) (p ^ 2)
    have hdiv := Nat.div_le_self ((b - 12 - p - p ^ 2) % p ^ 2) p
    have hmod := Nat.mod_le ((b - 12 - p - p ^ 2) % p ^ 2) p
    omega

/-- For a block inside the file no 32-bit product or difference on the way wraps: if `b` is
past the first table then `ptrs ≤ b`, and `b * ptrs` is a quarter of a file offset. -/
theorem getInodeBlockIndex_eq (dev : Device) (inode : Inode) {b : Nat}
    (hb : b * inode.blockSize < 2 ^ 32) :
    ext2GetInodeBlockIndex dev inode b = blindBlock dev inode b := by
  have hbs := blockSize_eq inode
  have hpos := blockSize_pos inode
  have hbp : 4 * (b * (inode.blockSize / 4)) < 2 ^ 32 := by
    calc 4 * (b * (inode.blockSize / 4)) = b * (4 * (inode.blockSize / 4)) := by ring
      _ = b * inode.blockSize := by rw [← hbs]
      _ < 2 ^ 32 := hb
  have hle : b ≤ b * (inode.blockSize / 4) := Nat.le_mul_of_pos_right b (by omega)
  apply getInodeBlockIndex_of_lt dev inode (by omega)
  · intro hpast
    have hmul : inode.blockSize / 4 * (inode.blockSize / 4) ≤ b * (inode.blockSize / 4) :=
      Nat.mul_le_mul_right _ (by omega)
    omega
  · intro i hi
    have := treePath_le _ _ i hi
    omega

/-! ## The read loop -/

/-- The first chunk of a read: what is left of its first block, or all of it. -/
def firstChunk (inode : Inode) (length offset : Nat) : Nat :=
  min (inode.blockSize - offset % inode.blockSize) length

/-- A nonempty read that is not refused writes its first chunk and nothing else, and not even
that when the pointer it finds is zero. -/
theorem readInode_once (dev : Device) (inode : Inode) (buf : Buffer) {length : Nat}
    {fileOffset : Int} (hpos : 0 < length)
    (hin : (length + toU64 fileOffset) % 2 ^ 64 ≤ inode.size) :
    ext2ReadInode dev inode buf length fileOffset = .ok (toI32 length,
      if ext2GetInodeBlockIndex dev inode (u32 (toU64 fileOffset / inode.blockSize)) = 0 then buf
      else fsReadBytes dev buf 0
        (min (inode.blockSize - toU64 fileOffset % inode.blockSize) length)
        (ext2GetInodeBlockIndex dev inode (u32 (toU64 fileOffset / inode.blockSize)) *
          inode.blockSize + toU64 fileOffset % inode.blockSize)) := by
  obtain ⟨n, rfl⟩ : ∃ n, length = n + 1 := ⟨length - 1, by omega⟩
  have hrem : (n + 1 + 2 ^ 64 - (n + 1)) % 2 ^ 64 = 0 := by omega
  unfold ext2ReadInode
  rw [if_neg (Nat.not_lt.2 hin)]
  simp only [readLoop, hrem]
  by_cases hz : ext2GetInodeBlockIndex dev inode (u32 (toU64 fileOffset / inode.blockSize)) = 0
  · simp [hz]
  · simp [hz]

theorem readInode_eq (dev : Device) (inode : Inode) (buf : Buffer) {length offset : Nat}
    (hpos : 0 < length) (hin : offset + length ≤ inode.size) :
    ext2ReadInode dev inode buf length offset = .ok (toI32 length,
      if blindBlock dev inode (offset / inode.blockSize) = 0 then buf
      else fsReadBytes dev buf 0 (firstChunk inode length offset)
        (blindBlock dev inode (offset / inode.blockSize) * inode.blockSize +
          offset % inode.blockSize)) := by
  have hsize := inode.size_lt
  have hoff : toU64 offset = offset := by
    unfold toU64
    omega
  have hblk : offset / inode.blockSize * inode.blockSize < 2 ^ 32 :=
    Nat.lt_of_le_of_lt (Nat.div_mul_le_self _ _) (by omega)
  have hu : u32 (offset / inode.blockSize) = offset / inode.blockSize :=
    u32_of_lt (Nat.lt_of_le_of_lt (Nat.div_le_self _ _) (by omega))
  rw [readInode_once dev inode buf hpos (by omega), hoff, hu,
    getInodeBlockIndex_eq dev inode hblk]
  rfl

theorem toI32_eq_iff {n : Nat} (h : n < 2 ^ 32) : toI32 n = (n : Int) ↔ n < 2 ^ 31 := by
  unfold toI32
  rw [Nat.mod_eq_of_lt h]
  split <;> omega

theorem fileByte_same_block (dev : Device) (inode : Inode) {offset i : Nat}
    (h : offset % inode.blockSize + i < inode.blockSize) :
    fileByte dev inode (offset + i) =
      if diskBlock dev inode (offset / inode.blockSize) = 0 then 0
      else dev (diskBlock dev inode (offset / inode.blockSize) * inode.blockSize +
        (offset % inode.blockSize + i)) := by
  have hsplit := Nat.div_add_mod offset inode.blockSize
  have hpos := blockSize_pos inode
  have heq : offset + i = offset % inode.blockSize + i + inode.blockSize *
  (offset / inode.blockSize) := by
    omega
  have hdiv : (offset + i) / inode.blockSize = offset / inode.blockSize := by
    rw [heq, Nat.add_mul_div_left _ _ hpos, Nat.div_eq_of_lt h, Nat.zero_add]
  have hmod : (offset + i) % inode.blockSize = offset % inode.blockSize + i := by
    rw [heq, Nat.add_mul_mod_self_left, Nat.mod_eq_of_lt h]
  simp only [fileByte, hdiv, hmod]

/-! ## Exactly the reads that are served -/

/-- The reads `ext2_read_inode` gets right: nothing is asked for; or less than
2 GiB of a single block, and that block is mapped — or one of its tables is
missing and the block found by reading block 0 as the table holds zeros there. -/
def ReadsOneMappedBlock (dev : Device) (inode : Inode) (length offset : Nat) : Prop :=
  length = 0 ∨
  (length < 2 ^ 31 ∧ offset % inode.blockSize + length ≤ inode.blockSize ∧
    (diskBlock dev inode (offset / inode.blockSize) ≠ 0 ∨
      (blindBlock dev inode (offset / inode.blockSize) ≠ 0 ∧
        ∀ i < length, dev (blindBlock dev inode (offset / inode.blockSize) * inode.blockSize +
          (offset % inode.blockSize + i)) = 0)))

theorem fsReadBytes_in (dev : Device) (buf : Buffer) {length offset i : Nat} (h : i < length) :
    fsReadBytes dev buf 0 length offset i = dev (offset + i) := by
  simp [fsReadBytes, h]

theorem fsReadBytes_out (dev : Device) (buf : Buffer) {length offset i : Nat} (h : length ≤ i) :
    fsReadBytes dev buf 0 length offset i = buf i := by
  simp [fsReadBytes, Nat.not_lt.mpr h]

theorem add_one_ne (b : UInt8) : b + 1 ≠ b := by
  intro h
  have hnat := congrArg UInt8.toNat h
  have hlt := b.toNat_lt
  rw [UInt8.toNat_add, UInt8.toNat_one] at hnat
  omega

/-- A correct read writes every byte: no byte of the answer can come from the
buffer, whose contents are arbitrary. -/
theorem correct_writes {dev : Device} {inode : Inode} {length offset : Nat}
    (hpos : 0 < length) (hin : offset + length ≤ inode.size)
    (hc : ReadsCorrectly dev inode length offset) {i : Nat} (hi : i < length) :
    blindBlock dev inode (offset / inode.blockSize) ≠ 0 ∧ i < firstChunk inode length offset := by
  by_contra hcon
  obtain ⟨buf', hok, hbytes⟩ := hc (fun _ => fileByte dev inode (offset + i) + 1)
  rw [readInode_eq dev inode _ hpos hin] at hok
  have hbuf' := (Prod.mk.inj (Except.ok.inj hok)).2
  have hi' := hbytes i hi
  rw [← hbuf'] at hi'
  by_cases hz : blindBlock dev inode (offset / inode.blockSize) = 0
  · rw [if_pos hz] at hi'
    exact add_one_ne _ hi'
  · have hout : firstChunk inode length offset ≤ i := by
      by_contra hlt; exact hcon ⟨hz, by omega⟩
    rw [if_neg hz, fsReadBytes_out dev _ hout] at hi'
    exact add_one_ne _ hi'

/-- The reads that `ext2_read_inode` serves correctly, exactly. -/
theorem readInode_correct_iff (dev : Device) (inode : Inode) (length offset : Nat)
    (hin : offset + length ≤ inode.size) :
    ReadsCorrectly dev inode length offset ↔ ReadsOneMappedBlock dev inode length offset := by
  have hsize := inode.size_lt
  rcases Nat.eq_zero_or_pos length with rfl | hpos
  · refine ⟨fun _ => .inl rfl, fun _ buf => ⟨buf, ?_, fun i hi => absurd hi (Nat.not_lt_zero i)⟩⟩
    have hoff : toU64 offset = offset := by unfold toU64; omega
    unfold ext2ReadInode
    rw [hoff, if_neg (by omega)]
    rfl
  · constructor
    · intro hc
      have hlt : length < 2 ^ 31 := by
        obtain ⟨buf', hok, -⟩ := hc (fun _ => 0)
        rw [readInode_eq dev inode _ hpos hin] at hok
        exact (toI32_eq_iff (by omega)).mp (Prod.mk.inj (Except.ok.inj hok)).1
      -- the last byte is in the first chunk, so the read stays in its block
      obtain ⟨hblind, hlast⟩ := correct_writes hpos hin hc (i := length - 1) (by omega)
      have hmod := Nat.mod_lt offset (blockSize_pos inode)
      have hfit : offset % inode.blockSize + length ≤ inode.blockSize := by
        unfold firstChunk at hlast; omega
      refine .inr ⟨hlt, hfit, ?_⟩
      by_cases hhole : diskBlock dev inode (offset / inode.blockSize) = 0
      · refine .inr ⟨hblind, fun i hi => ?_⟩
        obtain ⟨buf', hok, hbytes⟩ := hc (fun _ => 0)
        rw [readInode_eq dev inode _ hpos hin, if_neg hblind] at hok
        have hi' := hbytes i hi
        rw [← (Prod.mk.inj (Except.ok.inj hok)).2,
          fsReadBytes_in dev _ (correct_writes hpos hin hc hi).2,
          fileByte_same_block dev inode (by omega), if_pos hhole, Nat.add_assoc] at hi'
        exact hi'
      · exact .inl hhole
    · rintro (h0 | ⟨hlt, hfit, hmapped⟩) buf
      · omega
      have hblind : blindBlock dev inode (offset / inode.blockSize) ≠ 0 := by
        rcases hmapped with hm | ⟨hb, -⟩
        · rw [blindBlock, followBlind_eq _ _ _ _ hm]; exact hm
        · exact hb
      have hchunk : firstChunk inode length offset = length := by unfold firstChunk; omega
      refine ⟨_, by rw [readInode_eq dev inode buf hpos hin, (toI32_eq_iff (by omega)).mpr hlt], ?_⟩
      intro i hi
      rw [if_neg hblind, hchunk, fsReadBytes_in dev _ hi, fileByte_same_block dev inode (by omega),
        Nat.add_assoc]
      by_cases hhole : diskBlock dev inode (offset / inode.blockSize) = 0
      · rw [if_pos hhole]
        exact (hmapped.resolve_left (not_not_intro hhole)).2 i hi
      · rw [if_neg hhole, blindBlock, followBlind_eq _ _ _ _ hhole]
        rfl

/-- A file of two blocks of 1 KiB, stored in disk blocks 1 and 2. -/
def twoBlockFile : Inode :=
  { size := 2048, block := fun i => if i < 2 then i + 1 else 0, base := 0, size_lt := by decide,
    block_lt := by intro i; split <;> omega, base_le := by decide }

/-- A device whose bytes name their block. -/
def labelledDevice : Device := fun o => UInt8.ofNat (o / 1024)

/-- Four bytes inside the second block are read correctly. -/
theorem short_read_correct : ReadsCorrectly labelledDevice twoBlockFile 4 1500 :=
  (readInode_correct_iff labelledDevice twoBlockFile 4 1500 (by decide)).mpr
    (.inr ⟨by decide, by decide, .inl (by decide)⟩)

/-- Reading the whole two-block file does not: the second block never arrives. -/
theorem whole_file_read_incorrect : ¬ ReadsCorrectly labelledDevice twoBlockFile 2048 0 := by
  intro hc
  have h := (correct_writes (by decide) (by decide) hc (i := 1024) (by decide)).2
  exact absurd h (by decide)

end X86Kernel.Ext2
