import X86Kernel.Block.Disk

/- The buffer that a drive is given (`kernel/services/block/type/disk.c`).

   A request of the block layer has a virtual buffer, a request to the drive a list
   of physical pieces. The list has one entry: the first byte of the buffer is
   translated, and the others are taken to follow it. What is proved: the pieces are
   the buffer exactly if the frames of its pages follow one another
   (`storRequest_serves_iff`). -/
namespace X86Kernel.Disk
open X86Kernel.Ide

/-- The physical bytes of the pieces, one after the other. -/
def chunkBytes (sectorSize : Nat) (chunkList : List (Nat × Nat)) : List Nat :=
  chunkList.flatMap fun chunk => (List.range (chunk.2 * sectorSize)).map (chunk.1 + ·)

/-- The physical bytes of a virtual buffer. -/
def bufferBytes (frame : Nat → Option Nat) (vbuffer size : Nat) : List Nat :=
  (List.range size).map fun i => virtToPhys frame (vbuffer + i)

/-- The request to the drive is for the buffer of the block request, and for its blocks. -/
structure Serves (frame : Nat → Option Nat) (b : Block) (r : BlockRequest)
    (storRequest : StorRequest) : Prop where
  bytes : chunkBytes (b.stor (b.hwOf (b.diskOf r.device))).sectorSize storRequest.chunkList =
    bufferBytes frame r.vbuffer (r.blockCount * b.blockSize r.device)
  lba : storRequest.lba * (b.stor (b.hwOf (b.diskOf r.device))).sectorSize =
    r.blockOffset * b.blockSize r.device
  sectors : (storRequest.chunkList.map (·.2)).sum *
      (b.stor (b.hwOf (b.diskOf r.device))).sectorSize =
    r.blockCount * b.blockSize r.device

/-- The pages of a buffer lie in frames that follow one another. -/
def FramesInOrder (frame : Nat → Option Nat) (vbuffer size : Nat) : Prop :=
  ∀ j, (vbuffer / pageSize + j) * pageSize < vbuffer + size →
    frame (vbuffer / pageSize + j) = (frame (vbuffer / pageSize)).map (· + j)

/-- Every byte of a buffer is mapped. -/
def Mapped (frame : Nat → Option Nat) (vbuffer size : Nat) : Prop :=
  ∀ i < size, ∃ f, frame ((vbuffer + i) / pageSize) = some f

theorem virtToPhys_some {frame : Nat → Option Nat} {vaddr f : Nat}
    (h : frame (vaddr / pageSize) = some f) :
    virtToPhys frame vaddr = f * pageSize + vaddr % pageSize := by
  rw [virtToPhys, h]

theorem virtToPhys_add_iff {frame : Nat → Option Nat} {vbuffer size : Nat}
    (hmapped : Mapped frame vbuffer size) :
    (∀ i < size, virtToPhys frame vbuffer + i = virtToPhys frame (vbuffer + i)) ↔
      FramesInOrder frame vbuffer size := by
  have hsplit := Nat.div_add_mod' vbuffer pageSize
  constructor
  · intro h j hj
    cases j with
    | zero => simp
    | succ j =>
      -- the first byte of the page
      have hlast := Nat.mod_lt vbuffer (show 0 < pageSize by decide)
      obtain ⟨i, hi⟩ : ∃ i, (vbuffer / pageSize + (j + 1)) * pageSize = vbuffer + i := by
        refine ⟨(vbuffer / pageSize + (j + 1)) * pageSize - vbuffer, ?_⟩
        rw [Nat.add_mul, Nat.add_mul]
        omega
      have hlt : i < size := by omega
      obtain ⟨f, hf⟩ := hmapped i hlt
      obtain ⟨f₀, hf₀⟩ := hmapped 0 (by omega)
      have hbyte := h i hlt
      rw [Nat.add_zero] at hf₀
      rw [virtToPhys_some hf, virtToPhys_some hf₀, ← hi, Nat.mul_mod_left] at hbyte
      rw [← hi, Nat.mul_div_cancel _ (show 0 < pageSize by decide)] at hf
      rw [hf, hf₀]
      have hframe : f = f₀ + (j + 1) := by
        rw [Nat.add_mul] at hi
        unfold pageSize at hbyte hi hsplit
        omega
      rw [hframe]
      rfl
  · intro h i hi
    obtain ⟨f₀, hf₀⟩ := hmapped 0 (by omega)
    rw [Nat.add_zero] at hf₀
    obtain ⟨j, hj⟩ : ∃ j, (vbuffer + i) / pageSize = vbuffer / pageSize + j :=
      Nat.exists_eq_add_of_le (Nat.div_le_div_right (Nat.le_add_right vbuffer i))
    have hpage := Nat.div_add_mod' (vbuffer + i) pageSize
    rw [hj] at hpage
    have hf : frame ((vbuffer + i) / pageSize) = some (f₀ + j) := by
      rw [hj, h j (by omega), hf₀]
      rfl
    rw [virtToPhys_some hf, virtToPhys_some hf₀]
    rw [Nat.add_mul] at hpage ⊢
    omega

theorem chunkBytes_eq_iff {frame : Nat → Option Nat} {vbuffer sectorSize sectors size : Nat}
    (hsize : sectors * sectorSize = size) (hmapped : Mapped frame vbuffer size) :
    chunkBytes sectorSize [(virtToPhys frame vbuffer, sectors)] = bufferBytes frame vbuffer size ↔
      FramesInOrder frame vbuffer size := by
  rw [← virtToPhys_add_iff hmapped, chunkBytes, List.flatMap_singleton, hsize, bufferBytes,
    List.map_inj_left]
  simp only [List.mem_range]

theorem mul_mod_div_eq_iff {n size : Nat} (hpos : 0 < size) :
    n * size % 2 ^ 64 / size * size = n * size ↔ n * size < 2 ^ 64 := by
  constructor
  · intro h
    have hle := Nat.div_mul_le_self (n * size % 2 ^ 64) size
    have hlt := Nat.mod_lt (n * size) (show 0 < 2 ^ 64 by decide)
    omega
  · intro h
    rw [Nat.mod_eq_of_lt h, Nat.mul_div_cancel _ hpos]

section Request

variable {frame : Nat → Option Nat} {s : System} {addr : Ptr} {r : BlockRequest}

theorem blockDiskMakeStorRequest_eq (hr : s.outer.requests addr = some r)
    (haligned : r.vbuffer % s.outer.blockSize r.device = 0) :
    blockDiskMakeStorRequest frame s addr = .ok (storRequestOf frame s.outer addr r) := by
  unfold blockDiskMakeStorRequest
  rw [hr]
  simp [haligned, assert]

/-- On an aligned buffer that is mapped, the request to the drive is the one it should be
exactly if the frames of the buffer follow one another, and the first byte to transfer has a
number of 64 bits. -/
theorem storRequest_serves_iff (hr : s.outer.requests addr = some r)
    (hpos : 0 < s.outer.blockSize r.device)
    (haligned : r.vbuffer % s.outer.blockSize r.device = 0)
    (hspace : r.vbuffer + r.blockCount * s.outer.blockSize r.device ≤ 2 ^ 32)
    (hmapped : Mapped frame r.vbuffer (r.blockCount * s.outer.blockSize r.device)) :
    (∃ storRequest, blockDiskMakeStorRequest frame s addr = .ok storRequest ∧
      Serves frame s.outer r storRequest) ↔
      FramesInOrder frame r.vbuffer (r.blockCount * s.outer.blockSize r.device) ∧
        r.blockOffset * s.outer.blockSize r.device < 2 ^ 64 := by
  rw [blockDiskMakeStorRequest_eq hr haligned]
  -- the length of the buffer is a number of 32 bits, so only the offset can be cut
  have hsectors : r.blockCount * s.outer.blockSize r.device % 2 ^ 64 /
      s.outer.blockSize r.device * s.outer.blockSize r.device =
      r.blockCount * s.outer.blockSize r.device :=
    (mul_mod_div_eq_iff hpos).2 (by omega)
  constructor
  · rintro ⟨storRequest, hrun, h⟩
    obtain rfl := Except.ok.inj hrun
    exact ⟨(chunkBytes_eq_iff hsectors hmapped).1 h.bytes, (mul_mod_div_eq_iff hpos).1 h.lba⟩
  · rintro ⟨horder, hoffset⟩
    refine ⟨_, rfl, (chunkBytes_eq_iff hsectors hmapped).2 horder,
      (mul_mod_div_eq_iff hpos).2 hoffset, ?_⟩
    rw [storRequestOf, List.map_singleton, List.sum_singleton]
    exact hsectors

end Request

/-- The blocks of two pages, at 0x1000. -/
def twoPageRequest : BlockRequest where
  device := .disk 0
  io := .read
  blockOffset := 0
  blockCount := 16
  vbuffer := 0x1000
  cb := .user

/-- A request at address 16. -/
def twoPageSystem : System :=
  IdeVars.init
    { twoDisks with requests := fun a => if a = 16#32 then some twoPageRequest else none }

/-- The two pages in two frames that follow one another. -/
theorem twoPages_served :
    ∃ storRequest, blockDiskMakeStorRequest identity twoPageSystem 16#32 = .ok storRequest ∧
      Serves identity twoPageSystem.outer twoPageRequest storRequest :=
  (storRequest_serves_iff rfl (by decide) (by decide) (by decide) fun _ _ => ⟨_, rfl⟩).2
    ⟨fun _ _ => rfl, by decide⟩

/-- The page after 0x1000 in a frame further away. -/
def apart : Nat → Option Nat := fun p => if p = 2 then some 9 else some p

/-- The two pages in frames 1 and 9: the drive is given frames 1 and 2. -/
theorem twoPages_apart_not_served :
    ∃ storRequest, blockDiskMakeStorRequest apart twoPageSystem 16#32 = .ok storRequest ∧
      storRequest.chunkList = [(0x1000, 16)] ∧ virtToPhys apart 0x2000 = 0x9000 ∧
      ¬ Serves apart twoPageSystem.outer twoPageRequest storRequest := by
  refine ⟨_, blockDiskMakeStorRequest_eq rfl (by decide), by decide, by decide, fun h => ?_⟩
  have hmapped : Mapped apart twoPageRequest.vbuffer 8192 := by
    intro i _
    unfold apart
    split_ifs
    · exact ⟨9, rfl⟩
    · exact ⟨_, rfl⟩
  have horder := (chunkBytes_eq_iff (by decide) hmapped).1 h.bytes
  exact absurd (horder 1 (by decide)) (by decide)

end X86Kernel.Disk
