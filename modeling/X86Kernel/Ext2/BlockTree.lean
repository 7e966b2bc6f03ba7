import X86Kernel.Ext2.Fetch

/- The walk of the block tree for every block size of the format, 1 KiB to 64 KiB
   (`ext2_get_inode_block_index`).

   The text of the function is given once more with its 32-bit products, its
   32-bit differences and `ext2_read_u32` as parameters (`blockIndexWalk`). With
   the operations of the machine it is the function (`blockIndexWalk_machine`).
   With operations that fail where they wrap around, and that note each table and
   index that is read, it shows what the function does on the way.

   What is proved: up to the last block the tree can hold, nothing wraps around,
   each index is inside its table, the pointers are those of the block's place in
   the tree, and no two blocks have one place (`blockTree_walk`). -/
namespace X86Kernel.Ext2

/-- `ext2_get_inode_block_index` over its operations. -/
def blockIndexWalk {m : Type → Type} [Monad m] (mul sub readU32 : Nat → Nat → m Nat)
    (inode : Inode) (index : Nat) : m Nat := do
  let ptrs := inode.blockSize / 4
  if index < indirectBlocks then return inode.block index
  else
    let index ← sub index indirectBlocks
    if index < ptrs then readU32 (inode.block indirectBlocks) index
    else
      let index ← sub index ptrs
      -- the source writes the product in four places, here it is taken once
      let square ← mul ptrs ptrs
      if index < square then
        let doubleBlock := inode.block (indirectBlocks + 1)
        let index1 := index / ptrs
        let index2 := index % ptrs
        let block ← readU32 doubleBlock index1
        readU32 block index2
      else
        let index ← sub index square
        let tripleBlock := inode.block (indirectBlocks + 2)
        let index1 := index / square
        let remainder := index % square
        let index2 := remainder / ptrs
        let index3 := remainder % ptrs
        let doubleBlock ← readU32 tripleBlock index1
        let block ← readU32 doubleBlock index2
        readU32 block index3

theorem blockIndexWalk_machine (dev : Device) (inode : Inode) (index : Nat) :
    blockIndexWalk (m := Id) (fun a b => u32 (a * b)) sub32
      (ext2ReadU32 dev inode.blockSize) inode index = ext2GetInodeBlockIndex dev inode index := by
  unfold blockIndexWalk ext2GetInodeBlockIndex
  split_ifs <;> rfl

/-! ## Operations that do not wrap around -/

/-- What fails where an operation wraps around, and notes the entries that are
read: the block of the table, and the index. -/
abbrev Checked := StateT (List (Nat × Nat)) Option

def checkedMul (a b : Nat) : Checked Nat := fun log =>
  if a * b < 2 ^ 32 then some (u32 (a * b), log) else none

def checkedSub (a b : Nat) : Checked Nat := fun log =>
  if b ≤ a then some (sub32 a b, log) else none

def checkedReadU32 (dev : Device) (blockSize block index : Nat) : Checked Nat := do
  let _ ← checkedMul index 4
  modify (· ++ [(block, index)])
  return ext2ReadU32 dev blockSize block index

/-- The walk with these operations. -/
def checkedWalk (dev : Device) (inode : Inode) (index : Nat) : Checked Nat :=
  blockIndexWalk checkedMul checkedSub (checkedReadU32 dev inode.blockSize) inode index

section Run

variable {log : List (Nat × Nat)}

theorem checkedMul_run {a b : Nat} (h : a * b < 2 ^ 32) :
    (checkedMul a b).run log = some (a * b, log) := by
  rw [StateT.run, checkedMul, if_pos h, u32_of_lt h]

theorem checkedSub_run {a b : Nat} (ha : a < 2 ^ 32) (h : b ≤ a) :
    (checkedSub a b).run log = some (a - b, log) := by
  rw [StateT.run, checkedSub, if_pos h, sub32_of_le ha h]

theorem checkedReadU32_run (dev : Device) (bs block : Nat) {i : Nat} (h : 4 * i < 2 ^ 32) :
    (checkedReadU32 dev bs block i).run log =
      some (tableEntry dev bs block i, log ++ [(block, i)]) := by
  have hmul : i * 4 < 2 ^ 32 := by omega
  simp [checkedReadU32, checkedMul_run hmul, readU32_eq dev bs block h]

end Run

/-! ## The place of a block -/

/-- The tables and indices that are read on the way from a pointer. -/
def pathReads (dev : Device) (blockSize : Nat) : Nat → List Nat → List (Nat × Nat)
  | _, [] => []
  | ptr, i :: path =>
    (ptr, i) :: pathReads dev blockSize (tableEntry dev blockSize ptr i) path

/-- No pointer to a table on the way is zero. -/
def PathMapped (dev : Device) (blockSize : Nat) : Nat → List Nat → Prop
  | _, [] => True
  | ptr, i :: path => ptr ≠ 0 ∧ PathMapped dev blockSize (tableEntry dev blockSize ptr i) path

theorem follow_of_mapped (dev : Device) (bs : Nat) : ∀ (path : List Nat) (ptr : Nat),
    PathMapped dev bs ptr path → follow dev bs ptr path = followBlind dev bs ptr path
  | [], _, _ => rfl
  | i :: path, ptr, h => by
    rw [follow, if_neg h.1, followBlind]
    exact follow_of_mapped dev bs path _ h.2

/-- The block at a place in the tree: the indices are the digits of a number to
base `p`, counted from the first block of their kind. -/
def treeIndex (p : Nat) : Nat × List Nat → Nat
  | (slot, []) => slot
  | (_, [i]) => 12 + i
  | (_, [i, j]) => 12 + p + (i * p + j)
  | (_, i :: j :: k :: _) => 12 + p + p ^ 2 + ((i * p + j) * p + k)

/-- The blocks a tree can hold. -/
def treeBlocks (p : Nat) : Nat := 12 + p + p ^ 2 + p ^ 3

theorem treeIndex_treePath (p b : Nat) : treeIndex p (treePath p b) = b := by
  unfold treePath
  split_ifs with h₁ h₂ h₃
  · rfl
  · simp only [treeIndex]
    omega
  · have hdigits := Nat.div_add_mod' (b - 12 - p) p
    simp only [treeIndex]
    omega
  · -- the first digit is left over from the square, the other two from its remainder
    have hhigh := Nat.div_add_mod' (b - 12 - p - p ^ 2) (p ^ 2)
    have hlow := Nat.div_add_mod' ((b - 12 - p - p ^ 2) % p ^ 2) p
    have hsquare : ∀ i j k, (i * p + j) * p + k = i * p ^ 2 + (j * p + k) := by
      intro i j k
      ring
    simp only [treeIndex, hsquare, hlow, hhigh]
    omega

theorem treePath_lt {p b : Nat} (hp : 0 < p) (hb : b < treeBlocks p) :
    ∀ i ∈ (treePath p b).2, i < p := by
  unfold treeBlocks at hb
  unfold treePath
  split_ifs with h₁ h₂ h₃
  · simp
  · simp only [List.mem_singleton, forall_eq]
    omega
  · have hdiv : (b - 12 - p) / p < p := Nat.div_lt_of_lt_mul (by rw [← pow_two]; omega)
    simp only [List.mem_cons, List.not_mem_nil, or_false, forall_eq_or_imp, forall_eq]
    exact ⟨hdiv, Nat.mod_lt _ hp⟩
  · have hcube : p ^ 3 = p ^ 2 * p := by ring
    have hsquare : p ^ 2 = p * p := by ring
    have htop : (b - 12 - p - p ^ 2) / p ^ 2 < p := Nat.div_lt_of_lt_mul (by omega)
    have hrest : (b - 12 - p - p ^ 2) % p ^ 2 < p * p := by
      rw [← hsquare]
      exact Nat.mod_lt _ (Nat.pow_pos hp)
    simp only [List.mem_cons, List.not_mem_nil, or_false, forall_eq_or_imp, forall_eq]
    exact ⟨htop, Nat.div_lt_of_lt_mul hrest, Nat.mod_lt _ hp⟩

theorem pathReads_index {dev : Device} {bs : Nat} : ∀ {path : List Nat} {ptr : Nat}
    {read : Nat × Nat}, read ∈ pathReads dev bs ptr path → read.2 ∈ path
  | [], _, _, h => by cases h
  | i :: path, ptr, read, h => by
    rcases List.mem_cons.1 h with rfl | h
    · exact List.mem_cons_self
    · exact List.mem_cons_of_mem _ (pathReads_index h)

/-! ## The walk -/

/-- What the walk does, where the square of `ptrs` and the words of a table fit into 32
bits. -/
theorem checkedWalk_run (dev : Device) (inode : Inode) {b : Nat} (hb : b < 2 ^ 32)
    (hsquare : inode.blockSize / 4 * (inode.blockSize / 4) < 2 ^ 32)
    (hindex : ∀ i ∈ (treePath (inode.blockSize / 4) b).2, 4 * i < 2 ^ 32) :
    (checkedWalk dev inode b).run [] = some (blindBlock dev inode b,
      pathReads dev inode.blockSize (inode.block (treePath (inode.blockSize / 4) b).1)
        (treePath (inode.blockSize / 4) b).2) := by
  unfold checkedWalk blockIndexWalk blindBlock indirectBlocks
  dsimp only
  generalize inode.blockSize / 4 = p at hsquare hindex ⊢
  unfold treePath at hindex ⊢
  by_cases h₁ : b < 12
  · simp [h₁, followBlind, pathReads]
  · rw [if_neg h₁] at hindex ⊢
    simp only [if_neg h₁, StateT.run_bind, checkedSub_run hb (Nat.not_lt.1 h₁), Option.bind_eq_bind,
      Option.bind_some]
    by_cases h₂ : b < 12 + p
    · rw [if_pos h₂] at hindex ⊢
      have hlt : b - 12 < p := by omega
      have hi := hindex (b - 12) (by simp)
      simp [hlt, checkedReadU32_run _ _ _ hi, followBlind, pathReads]
    · rw [if_neg h₂] at hindex ⊢
      have hge : ¬ b - 12 < p := by omega
      simp only [if_neg hge, StateT.run_bind,
        checkedSub_run (show b - 12 < 2 ^ 32 by omega) (Nat.not_lt.1 hge),
        checkedMul_run hsquare, Option.bind_eq_bind, Option.bind_some]
      rw [pow_two] at hindex ⊢
      by_cases h₃ : b < 12 + p + p * p
      · rw [if_pos h₃] at hindex ⊢
        have hlt : b - 12 - p < p * p := by omega
        have hi := hindex ((b - 12 - p) / p) (by simp)
        have hj := hindex ((b - 12 - p) % p) (by simp)
        simp [hlt, checkedReadU32_run _ _ _ hi, checkedReadU32_run _ _ _ hj, followBlind,
          pathReads]
      · rw [if_neg h₃] at hindex ⊢
        have hge : ¬ b - 12 - p < p * p := by omega
        have hi := hindex ((b - 12 - p - p * p) / (p * p)) (by simp)
        have hj := hindex ((b - 12 - p - p * p) % (p * p) / p) (by simp)
        have hk : 4 * ((b - 12 - p - p * p) % p) < 2 ^ 32 := by
          simpa using hindex ((b - 12 - p - p * p) % (p * p) % p) (by simp)
        simp [hge, checkedSub_run (show b - 12 - p < 2 ^ 32 by omega) (Nat.not_lt.1 hge),
          checkedReadU32_run _ _ _ hi, checkedReadU32_run _ _ _ hj, checkedReadU32_run _ _ _ hk,
          followBlind, pathReads]

/-- In the block sizes of the format a table has at most 2^14 pointers. -/
theorem ptrs_le {inode : Inode} (hbase : inode.base ≤ 6) : inode.blockSize / 4 ≤ 2 ^ 14 := by
  have hpow : 2 ^ inode.base ≤ 2 ^ 6 := Nat.pow_le_pow_right (by decide) hbase
  unfold Inode.blockSize
  omega

/-- `ext2_get_inode_block_index` on a block that the tree can hold: no product and no
difference wraps around, the pointer is the one at the place of the block, each table that is
read is on the path to that place and its index inside of it, and the place is that of no
other block. -/
theorem blockTree_walk (dev : Device) (inode : Inode) (hbase : inode.base ≤ 6) {b : Nat}
    (hb : b < 2 ^ 32) (htree : b < treeBlocks (inode.blockSize / 4))
    (hmapped : PathMapped dev inode.blockSize (inode.block (treePath (inode.blockSize / 4) b).1)
      (treePath (inode.blockSize / 4) b).2) :
    ext2GetInodeBlockIndex dev inode b = diskBlock dev inode b ∧
    (∃ reads, (checkedWalk dev inode b).run [] = some (ext2GetInodeBlockIndex dev inode b, reads) ∧
      reads = pathReads dev inode.blockSize (inode.block (treePath (inode.blockSize / 4) b).1)
        (treePath (inode.blockSize / 4) b).2 ∧
      ∀ read ∈ reads, read.2 < inode.blockSize / 4) ∧
    ∀ b', treePath (inode.blockSize / 4) b' = treePath (inode.blockSize / 4) b → b' = b := by
  have hle := ptrs_le hbase
  have hbs := blockSize_eq inode
  have hpos := blockSize_pos inode
  have hsquare : inode.blockSize / 4 * (inode.blockSize / 4) < 2 ^ 32 := by
    calc inode.blockSize / 4 * (inode.blockSize / 4) ≤ 2 ^ 14 * 2 ^ 14 := Nat.mul_le_mul hle hle
      _ < 2 ^ 32 := by decide
  have hinside := treePath_lt (by omega) htree
  have hindex : ∀ i ∈ (treePath (inode.blockSize / 4) b).2, 4 * i < 2 ^ 32 := by
    intro i hi
    have := hinside i hi
    omega
  have hblind := getInodeBlockIndex_of_lt dev inode hb (fun _ => hsquare) hindex
  refine ⟨?_, ⟨_, ?_, rfl, fun read hread => hinside _ (pathReads_index hread)⟩, ?_⟩
  · rw [hblind, diskBlock, blindBlock]
    exact (follow_of_mapped dev _ _ _ hmapped).symm
  · rw [hblind]
    exact checkedWalk_run dev inode hb hsquare hindex
  · -- a place gives back its block
    intro b' he
    rw [← treeIndex_treePath (inode.blockSize / 4) b', he, treeIndex_treePath]

theorem megabyte_lt : 2 ^ 20 < 2 ^ 32 := by decide

theorem doubleIndirect_base_le : 0 ≤ 21 := Nat.zero_le 21

theorem doubleIndirect_lt (i : Nat) : (if i = 13 then 5 else 0) < 2 ^ 32 := by
  split <;> omega

/-- Block 268 of a file in blocks of 1 KiB is the first one below the double indirect pointer;
its tables are the blocks 5 and 6. -/
def doubleIndirectFile : Inode :=
  { size := 2 ^ 20, block := fun i => if i = 13 then 5 else 0, base := 0
    size_lt := megabyte_lt, block_lt := doubleIndirect_lt, base_le := doubleIndirect_base_le }

/-- A device with pointers to 6 and 7 at the start of the blocks 5 and 6. -/
def tablesDevice : Device := fun o => if o = 5 * 1024 then 6 else if o = 6 * 1024 then 7 else 0

theorem doubleIndirectFile_walk :
    ext2GetInodeBlockIndex tablesDevice doubleIndirectFile 268 =
      diskBlock tablesDevice doubleIndirectFile 268 ∧
    (∃ reads, (checkedWalk tablesDevice doubleIndirectFile 268).run [] =
        some (ext2GetInodeBlockIndex tablesDevice doubleIndirectFile 268, reads) ∧
      reads = pathReads tablesDevice doubleIndirectFile.blockSize
        (doubleIndirectFile.block (treePath (doubleIndirectFile.blockSize / 4) 268).1)
        (treePath (doubleIndirectFile.blockSize / 4) 268).2 ∧
      ∀ read ∈ reads, read.2 < doubleIndirectFile.blockSize / 4) ∧
    ∀ b', treePath (doubleIndirectFile.blockSize / 4) b' =
      treePath (doubleIndirectFile.blockSize / 4) 268 → b' = 268 :=
  blockTree_walk tablesDevice doubleIndirectFile (by decide) (by decide) (by decide)
    ⟨by decide, by decide, trivial⟩

end X86Kernel.Ext2
