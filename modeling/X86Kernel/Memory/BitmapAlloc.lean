import X86Kernel.Boot.BootData
import X86Kernel.Lib.Run

/- The boot-time allocator of physical pages (`kernel/memory/phys_alloc/bitmap_alloc.c`): one
   bit for each page below 2 GiB, set while the page is free.

   What is proved: what each operation does to the bits of all pages, up to the passes over
   the memory map (`initBitmap_bits`). The loop that clears the array takes one turn for each
   page, eight times as many as the array has bytes; it leaves the array with more than
   256 MiB of memory (`resetPagesAllocated_outOfBounds`).

   The array is a function on byte indices; an index that it does not have is a fault. It is
   a static array, all zero at the start. The calls that take pages and give them back, and
   `reserve_kernel_memory`, are in the modules after this one.

   Correspondence (C ↔ Lean):
     `pages_allocated`       ↔ `Bitmap`
     `reset_pages_allocated` ↔ `resetPagesAllocated`
     `alloc_page_at`         ↔ `allocPageAt`
     `free_page_at`          ↔ `freePageAt`
     `alloc_page_region`     ↔ `allocPageRegion`
     `init_bitmap_phys_allocator` ↔ `initBitmap` (up to the kernel's own pages) -/
namespace X86Kernel.BitmapAlloc
open X86Kernel.Boot

/-- `PAGES_ARR_SIZE`. -/
def pagesArrSize : Nat := 0x80000000 / pageSize / 8

/-- `pages_allocated`. -/
structure Bitmap where
  bytes : Nat → BitVec 8

def Bitmap.zero : Bitmap := ⟨fun _ => 0#8⟩

/-- The bit of page `f` is set. -/
def Bitmap.Free (b : Bitmap) (f : Nat) : Prop :=
  f / 8 < pagesArrSize ∧ (b.bytes (f / 8)).getLsbD (f % 8) = true

def store (b : Bitmap) (i : Nat) (v : BitVec 8) : Kernel Bitmap :=
  if i < pagesArrSize then .ok ⟨fun j => if j = i then v else b.bytes j⟩ else .error .outOfBounds

def resetLoop : Nat → Nat → Bitmap → Kernel Bitmap
  | 0, _, b => .ok b
  | n + 1, i, b => do
    let b ← store b i 0#8
    resetLoop n (i + 1) b

/-- `reset_pages_allocated`: a byte for each page. -/
def resetPagesAllocated (maxMemory : Nat) (b : Bitmap) : Kernel Bitmap :=
  resetLoop (maxMemory / pageSize) 0 b

/-- `1ull << (page_index % BIT_TO_BYTE)`, as `u8`. -/
def pageBit (pageIndex : Nat) : BitVec 8 := 1#8 <<< (pageIndex % 8)

def allocPageAt (addr : Nat) (b : Bitmap) : Kernel Bitmap :=
  let pageIndex := addr / pageSize
  store b (pageIndex / 8) (b.bytes (pageIndex / 8) &&& ~~~ pageBit pageIndex)

def freePageAt (addr : Nat) (b : Bitmap) : Kernel Bitmap :=
  let pageIndex := addr / pageSize
  store b (pageIndex / 8) (b.bytes (pageIndex / 8) ||| pageBit pageIndex)

def allocPageRegion (fromAddr toAddr : Nat) (b : Bitmap) : Kernel Bitmap :=
  foreachPage allocPageAt pageTurns fromAddr toAddr b

/-- `init_bitmap_phys_allocator` before the pages of the kernel are reserved. -/
def initBitmap (mmap : List MmapEntry) (b : Bitmap) : Kernel Bitmap := do
  let b ← resetPagesAllocated (getMaxMemory mmap) b
  let b ← bootForeachFreePage freePageAt mmap b
  bootForeachReservedRegion allocPageRegion mmap b

/-! ## The bits -/

theorem getLsbD_pageBit (f k : Nat) (hk : k < 8) : (pageBit f).getLsbD k = decide (k = f % 8) := by
  unfold pageBit
  rw [BitVec.getLsbD_shiftLeft]
  simp only [hk, decide_true, Bool.true_and, BitVec.getLsbD_one]
  by_cases h : k = f % 8
  · simp [h]
  · simp only [h, decide_false]
    by_cases hlt : k < f % 8
    · simp [hlt]
    · have hne : k - f % 8 ≠ 0 := by omega
      simp [hne]

theorem allocPageAt_ok {pa : Nat} (b : Bitmap) (hpa : pa < 0x80000000) :
    ∃ b', allocPageAt pa b = .ok b' ∧ ∀ f, b'.Free f ↔ b.Free f ∧ f ≠ pa / pageSize := by
  have hin : pa / pageSize / 8 < pagesArrSize := by
    unfold pagesArrSize pageSize
    omega
  refine ⟨_, if_pos hin, fun f => ?_⟩
  simp only [Bitmap.Free]
  by_cases hbyte : f / 8 = pa / pageSize / 8
  · rw [if_pos hbyte, ← hbyte, BitVec.getLsbD_and, BitVec.getLsbD_not,
      getLsbD_pageBit _ _ (Nat.mod_lt f (by decide))]
    have hiff : f % 8 = pa / pageSize % 8 ↔ f = pa / pageSize := by omega
    simp only [Nat.mod_lt f (show 0 < 8 by decide), decide_true, Bool.true_and, Bool.and_eq_true,
      Bool.not_eq_true', decide_eq_false_iff_not, hiff, and_assoc]
  · have hne : f ≠ pa / pageSize := fun h => hbyte (h ▸ rfl)
    simp only [if_neg hbyte, hne, ne_eq, not_false_eq_true, and_true]

theorem freePageAt_ok {pa : Nat} (b : Bitmap) (hpa : pa < 0x80000000) :
    ∃ b', freePageAt pa b = .ok b' ∧ ∀ f, b'.Free f ↔ b.Free f ∨ f = pa / pageSize := by
  have hin : pa / pageSize / 8 < pagesArrSize := by
    unfold pagesArrSize pageSize
    omega
  refine ⟨_, if_pos hin, fun f => ?_⟩
  simp only [Bitmap.Free]
  by_cases hbyte : f / 8 = pa / pageSize / 8
  · rw [if_pos hbyte, ← hbyte, BitVec.getLsbD_or,
      getLsbD_pageBit _ _ (Nat.mod_lt f (by decide))]
    have hiff : f % 8 = pa / pageSize % 8 ↔ f = pa / pageSize := by omega
    simp only [hbyte, hin, true_and, Bool.or_eq_true, decide_eq_true_eq, hiff]
  · have hne : f ≠ pa / pageSize := fun h => hbyte (h ▸ rfl)
    simp only [if_neg hbyte, hne, or_false]

/-! ## The passes -/

theorem freePages_ok : ∀ (ps : List Nat) (b : Bitmap), (∀ pa ∈ ps, pa < 0x80000000) →
    ∃ b', ps.foldlM (fun b pa => freePageAt pa b) b = .ok b' ∧
      ∀ f, b'.Free f ↔ b.Free f ∨ ∃ pa ∈ ps, f = pa / pageSize := by
  apply Lib.foldlM_ok (C := (· < 0x80000000))
    (R := fun (b : Bitmap) ps (b' : Bitmap) =>
      ∀ f, b'.Free f ↔ b.Free f ∨ ∃ pa ∈ ps, f = pa / pageSize)
  · intro b f
    simp
  · intro b pa ps hpa
    obtain ⟨b₁, hb₁, hbits₁⟩ := freePageAt_ok b hpa
    refine ⟨b₁, hb₁, fun b₂ hbits₂ f => ?_⟩
    rw [hbits₂, hbits₁, List.exists_mem_cons_iff, or_assoc]

theorem allocPages_ok : ∀ (ps : List Nat) (b : Bitmap), (∀ pa ∈ ps, pa < 0x80000000) →
    ∃ b', ps.foldlM (fun b pa => allocPageAt pa b) b = .ok b' ∧
      ∀ f, b'.Free f ↔ b.Free f ∧ ∀ pa ∈ ps, f ≠ pa / pageSize := by
  apply Lib.foldlM_ok (C := (· < 0x80000000))
    (R := fun (b : Bitmap) ps (b' : Bitmap) =>
      ∀ f, b'.Free f ↔ b.Free f ∧ ∀ pa ∈ ps, f ≠ pa / pageSize)
  · intro b f
    simp
  · intro b pa ps hpa
    obtain ⟨b₁, hb₁, hbits₁⟩ := allocPageAt_ok b hpa
    refine ⟨b₁, hb₁, fun b₂ hbits₂ f => ?_⟩
    rw [hbits₂, hbits₁, List.forall_mem_cons, and_assoc]

theorem allocPageRegion_ok {r : Nat × Nat} (hr : Aligned r) (hend : r.2 ≤ 0x80000000) (b : Bitmap) :
    ∃ b', allocPageRegion r.1 r.2 b = .ok b' ∧ ∀ f, b'.Free f ↔ b.Free f ∧ ¬ InRegion r f := by
  obtain ⟨b', hb', hbits⟩ := allocPages_ok (pagesOf r.1 r.2) b fun pa hpa => by
    rw [mem_pagesOf hr.1 hr.2.1] at hpa
    omega
  refine ⟨b', ?_, fun f => ?_⟩
  · rw [allocPageRegion, foreachPage_pagesOf allocPageAt hr.1 hr.2.1 hr.2.2 (by omega), hb']
  · rw [hbits, inRegion_iff hr]

theorem allocPageRegions_ok : ∀ (rs : List (Nat × Nat)) (b : Bitmap),
    (∀ r ∈ rs, Aligned r ∧ r.2 ≤ 0x80000000) →
    ∃ b', rs.foldlM (fun b r => allocPageRegion r.1 r.2 b) b = .ok b' ∧
      ∀ f, b'.Free f ↔ b.Free f ∧ ∀ r ∈ rs, ¬ InRegion r f := by
  apply Lib.foldlM_ok (C := fun r => Aligned r ∧ r.2 ≤ 0x80000000)
    (R := fun (b : Bitmap) rs (b' : Bitmap) => ∀ f, b'.Free f ↔ b.Free f ∧ ∀ r ∈ rs, ¬ InRegion r f)
  · intro b f
    simp
  · rintro b r rs ⟨hr, hend⟩
    obtain ⟨b₁, hb₁, hbits₁⟩ := allocPageRegion_ok hr hend b
    refine ⟨b₁, hb₁, fun b₂ hbits₂ f => ?_⟩
    rw [hbits₂, hbits₁, List.forall_mem_cons, and_assoc]

theorem resetLoop_ok : ∀ (n i : Nat), i + n ≤ pagesArrSize →
    resetLoop n i Bitmap.zero = .ok Bitmap.zero := by
  intro n
  induction n with
  | zero => intro i _; rfl
  | succ n ih =>
    intro i hle
    have hstore : store Bitmap.zero i 0#8 = .ok Bitmap.zero := by
      rw [store, if_pos (by omega)]
      simp only [Bitmap.zero, ite_self]
    rw [resetLoop, hstore, ok_bind]
    exact ih (i + 1) (by omega)

theorem resetLoop_outOfBounds : ∀ (n i : Nat) (b : Bitmap), i ≤ pagesArrSize →
    pagesArrSize < i + n → resetLoop n i b = .error .outOfBounds := by
  intro n
  induction n with
  | zero => intro i b _ _; omega
  | succ n ih =>
    intro i b hi hlt
    by_cases hin : i < pagesArrSize
    · rw [resetLoop, store, if_pos hin, ok_bind]
      exact ih (i + 1) _ hin (by omega)
    · rw [resetLoop, store, if_neg hin]
      rfl

/-- With more pages than the array has bytes, the loop leaves the array. -/
theorem resetPagesAllocated_outOfBounds {maxMemory : Nat} (b : Bitmap)
    (h : pagesArrSize < maxMemory / pageSize) :
    resetPagesAllocated maxMemory b = .error .outOfBounds :=
  resetLoop_outOfBounds _ 0 b (Nat.zero_le _) (by omega)

/-- The bits after the passes, where no page is past the array: the pages that are declared free
and in no reserved region. -/
theorem initBitmap_pages {mmap : List MmapEntry}
    (hfits : getMaxMemory mmap / pageSize ≤ pagesArrSize)
    (hfree : ∀ pa ∈ mmap.flatMap MmapEntry.freePages, pa < 0x80000000)
    (hres : ∀ r ∈ mmap.filterMap MmapEntry.reservedRegion ++ [((0 : Nat), stor1MiB)],
      Aligned r ∧ r.2 ≤ 0x80000000) :
    ∃ b, initBitmap mmap Bitmap.zero = .ok b ∧ ∀ f, b.Free f ↔
      (∃ pa ∈ mmap.flatMap MmapEntry.freePages, f = pa / pageSize) ∧
      ∀ r ∈ mmap.filterMap MmapEntry.reservedRegion ++ [((0 : Nat), stor1MiB)],
        ¬ InRegion r f := by
  have hreset : resetPagesAllocated (getMaxMemory mmap) Bitmap.zero = .ok Bitmap.zero :=
    resetLoop_ok _ 0 (by omega)
  obtain ⟨b₁, hb₁, hbits₁⟩ := freePages_ok (mmap.flatMap MmapEntry.freePages) Bitmap.zero hfree
  obtain ⟨b₂, hb₂, hbits₂⟩ := allocPageRegions_ok
    (mmap.filterMap MmapEntry.reservedRegion ++ [((0 : Nat), stor1MiB)]) b₁ hres
  refine ⟨b₂, ?_, fun f => ?_⟩
  · rw [initBitmap, hreset, ok_bind, bootForeachFreePage_eq, hb₁, ok_bind,
      bootForeachReservedRegion_eq, hb₂]
  · have hzero : ¬ Bitmap.zero.Free f := by simp [Bitmap.Free, Bitmap.zero]
    rw [hbits₂, hbits₁]
    simp only [hzero, false_or]

theorem initBitmap_bits {mmap : List MmapEntry} (hbelow : Below mmap 0x80000000)
    (hfits : getMaxMemory mmap / pageSize ≤ pagesArrSize) :
    ∃ b, initBitmap mmap Bitmap.zero = .ok b ∧ ∀ f, b.Free f ↔
      (∃ pa ∈ mmap.flatMap MmapEntry.freePages, f = pa / pageSize) ∧
      ∀ r ∈ mmap.filterMap MmapEntry.reservedRegion ++ [((0 : Nat), stor1MiB)],
        ¬ InRegion r f := by
  refine initBitmap_pages hfits (fun pa hpa => ?_) hbelow.reservedRegions
  obtain ⟨e, he, hpa⟩ := List.mem_flatMap.1 hpa
  exact hbelow.freePages he hpa

end X86Kernel.BitmapAlloc
