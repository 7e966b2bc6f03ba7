import X86Kernel.Boot.Paging
import X86Kernel.Memory.BitmapAlloc.AllocPages

/- The initialisation of the boot-time allocator (`init_bitmap_phys_allocator`), with the pages of
   the kernel.

   What is proved: it writes outside its array exactly if `reset_pages_allocated` does, which
   takes one turn for each page and not for each byte, or if an available entry of the memory map
   ends in the last page below 4 GiB: the end is rounded up to 0 for `max_memory` and down for the
   pages that are freed (`init_inBounds_iff`). Otherwise a page is free afterwards exactly if it
   is declared free and neither in a reserved region nor in the image
   (`initBitmapPhysAllocator_ok`).

   `kernel_size` is left out, nothing here reads it.

   Correspondence (C ↔ Lean):
     `reserve_kernel_memory`      ↔ `reserveKernelMemory`
     `init_bitmap_phys_allocator` ↔ `initBitmapPhysAllocator` -/
namespace X86Kernel.BitmapAlloc
open X86Kernel.Boot

/-- `reserve_kernel_memory`. -/
def reserveKernelMemory (img : Image) (b : Bitmap) : Kernel Bitmap :=
  allocPageRegion (roundPageDown img.kernelBeginPa) (roundPageUp img.kernelEndPa) b

/-- `init_bitmap_phys_allocator`; the array is a static one. -/
def initBitmapPhysAllocator (img : Image) (mmap : List MmapEntry) : Kernel Pool := do
  let b ← initBitmap mmap Bitmap.zero
  let b ← reserveKernelMemory img b
  return ⟨b, 0, []⟩

/-! ## The image -/

/-- The pages of the image, from 1 MiB on. -/
def kernelRegion (img : Image) : Nat × Nat := (stor1MiB, img.kernelEndPa)

theorem kernelRegion_aligned (img : Image) :
    Aligned (kernelRegion img) ∧ (kernelRegion img).2 ≤ 0x80000000 := by
  obtain ⟨D, K, B, P, E, -, -, -, -, hE, habove, hin, -, hstart, hfits⟩ := img.frames
  have hend : img.kernelEndPa = (E - 0xBFF00) * pageSize := by
    rw [Image.kernelEndPa, hE, Nat.sub_mul]
    rfl
  refine ⟨⟨(by decide : pageSize ∣ stor1MiB), ?_, ?_⟩, ?_⟩
  · show pageSize ∣ img.kernelEndPa
    rw [hend]
    exact Nat.dvd_mul_left _ _
  · show stor1MiB ≤ img.kernelEndPa
    rw [hend]
    unfold stor1MiB pageSize
    omega
  · show img.kernelEndPa ≤ 0x80000000
    rw [hend]
    unfold pageSize
    omega

theorem reserveKernelMemory_eq (img : Image) (b : Bitmap) :
    reserveKernelMemory img b = allocPageRegion (kernelRegion img).1 (kernelRegion img).2 b := by
  obtain ⟨⟨-, ⟨k, hk⟩, -⟩, hle⟩ := kernelRegion_aligned img
  have hk' : img.kernelEndPa = pageSize * k := hk
  have hle' : img.kernelEndPa ≤ 0x80000000 := hle
  have hdown : roundPageDown img.kernelBeginPa = stor1MiB := by
    unfold roundPageDown Image.kernelBeginPa
    decide
  have hup : roundPageUp img.kernelEndPa = img.kernelEndPa := by
    have h := le_roundPageUp (show img.kernelEndPa ≤ 2 ^ 32 - pageSize by unfold pageSize; omega)
    obtain ⟨j, hj⟩ := dvd_roundPageUp img.kernelEndPa
    unfold pageSize at *
    omega
  rw [reserveKernelMemory, hdown, hup]
  rfl

/-! ## Faults -/

theorem foldlM_outOfBounds {f : Bitmap → Nat → Kernel Bitmap} {Q : Nat → Prop}
    (hok : ∀ b pa, ¬ Q pa → ∃ b', f b pa = .ok b')
    (hbad : ∀ b pa, Q pa → f b pa = .error .outOfBounds) : ∀ (ps : List Nat) (b : Bitmap),
    (∃ pa ∈ ps, Q pa) → ps.foldlM f b = .error .outOfBounds := by
  intro ps
  induction ps with
  | nil =>
    intro b h
    obtain ⟨pa, hpa, -⟩ := h
    cases hpa
  | cons p ps ih =>
    intro b h
    rw [List.foldlM_cons]
    by_cases hp : Q p
    · rw [hbad b p hp]
      rfl
    · obtain ⟨b', hb'⟩ := hok b p hp
      rw [hb', ok_bind]
      apply ih b'
      obtain ⟨pa, hpa, hq⟩ := h
      cases List.mem_cons.1 hpa with
      | inl heq => exact absurd (heq ▸ hq) hp
      | inr hmem => exact ⟨pa, hmem, hq⟩

theorem freePages_outOfBounds (ps : List Nat) (b : Bitmap) (h : ∃ pa ∈ ps, 0x80000000 ≤ pa) :
    ps.foldlM (fun b pa => freePageAt pa b) b = .error .outOfBounds := by
  refine foldlM_outOfBounds (fun b pa hpa => ?_) (fun b pa hpa => ?_) ps b h
  · obtain ⟨b', hb', -⟩ := freePageAt_ok b (Nat.not_le.1 hpa)
    exact ⟨b', hb'⟩
  · apply if_neg
    unfold pagesArrSize pageSize
    omega

/-! ## The initialisation -/

/-- The end of every available entry with a page to free counts for `max_memory`: rounded up, it
does not wrap. -/
def EndsCounted (mmap : List MmapEntry) : Prop :=
  ∀ e ∈ mmap, e.type = multibootMemoryAvailable →
    roundPageUp e.addrLow.toNat < roundPageDown e.endLow → e.endLow ≤ 2 ^ 32 - pageSize

instance (mmap : List MmapEntry) : Decidable (EndsCounted mmap) :=
  inferInstanceAs (Decidable (∀ e ∈ mmap, _))

section Passes

variable {mmap : List MmapEntry} (hfits : getMaxMemory mmap / pageSize ≤ pagesArrSize)
include hfits

theorem reservedRegions_inside :
    ∀ r ∈ mmap.filterMap MmapEntry.reservedRegion ++ [((0 : Nat), stor1MiB)],
      Aligned r ∧ r.2 ≤ 0x80000000 := by
  apply reservedRegions_of_end
  intro e he
  have hmax := le_getMaxMemory he
  unfold pagesArrSize pageSize at hfits
  omega

theorem freePages_inside (hends : EndsCounted mmap) :
    ∀ pa ∈ mmap.flatMap MmapEntry.freePages, pa < 0x80000000 := by
  intro pa hpa
  obtain ⟨e, he, hpa⟩ := List.mem_flatMap.1 hpa
  obtain ⟨hav, hpa⟩ := window_of_freePages hpa
  obtain ⟨-, hge, hlt⟩ := mem_window.1 hpa
  have hend := hends e he hav (by omega)
  have hup := (le_roundPageUp hend).1
  have hdown := roundPageDown_le e.endLow
  have hmax := le_getMaxMemory he
  unfold pagesArrSize pageSize at hfits
  omega

end Passes

/-- An end that does not count leaves a page to free at the top of the address space. -/
theorem freePages_top {mmap : List MmapEntry} (hends : ¬ EndsCounted mmap) :
    ∃ pa ∈ mmap.flatMap MmapEntry.freePages, 0x80000000 ≤ pa := by
  unfold EndsCounted at hends
  push Not at hends
  obtain ⟨e, he, hav, hlow, hend⟩ := hends
  have hlt := endLow_lt e
  have hdown : roundPageDown e.endLow = 0xFFFFF000 := by
    unfold roundPageDown pageSize at *
    omega
  obtain ⟨j, hj⟩ := dvd_roundPageUp e.addrLow.toNat
  refine ⟨0xFFFFE000, List.mem_flatMap.2 ⟨e, he, ?_⟩, by decide⟩
  rw [MmapEntry.freePages, if_pos hav, mem_pagesOf (dvd_max_stor1MiB _) (dvd_roundPageDown _),
    hdown]
  refine ⟨by decide, Nat.max_le.2 ⟨?_, by decide⟩, by decide⟩
  rw [hdown, hj] at hlow
  rw [hj]
  unfold pageSize at *
  omega

/-- The free pages after the initialisation. -/
theorem initBitmapPhysAllocator_ok (img : Image) {mmap : List MmapEntry}
    (hfits : getMaxMemory mmap / pageSize ≤ pagesArrSize) (hends : EndsCounted mmap) :
    ∃ p, initBitmapPhysAllocator img mmap = .ok p ∧ p.lastFreeGroupIndex = 0 ∧ p.handed = [] ∧
      ∀ f, p.bitmap.Free f ↔ (∃ pa ∈ mmap.flatMap MmapEntry.freePages, f = pa / pageSize) ∧
        (∀ r ∈ mmap.filterMap MmapEntry.reservedRegion ++ [((0 : Nat), stor1MiB)],
          ¬ InRegion r f) ∧ ¬ InRegion (kernelRegion img) f := by
  obtain ⟨b₁, hb₁, hbits₁⟩ := initBitmap_pages hfits (freePages_inside hfits hends)
    (reservedRegions_inside hfits)
  obtain ⟨hal, hle⟩ := kernelRegion_aligned img
  obtain ⟨b₂, hb₂, hbits₂⟩ := allocPageRegion_ok hal hle b₁
  refine ⟨⟨b₂, 0, []⟩, ?_, rfl, rfl, fun f => ?_⟩
  · rw [initBitmapPhysAllocator, hb₁, ok_bind, reserveKernelMemory_eq, hb₂]
    rfl
  · show b₂.Free f ↔ _
    rw [hbits₂, hbits₁, and_assoc]

theorem initBitmapPhysAllocator_outOfBounds (img : Image) {mmap : List MmapEntry}
    (h : ¬ (getMaxMemory mmap / pageSize ≤ pagesArrSize ∧ EndsCounted mmap)) :
    initBitmapPhysAllocator img mmap = .error .outOfBounds := by
  by_cases hfits : getMaxMemory mmap / pageSize ≤ pagesArrSize
  · have hreset : resetPagesAllocated (getMaxMemory mmap) Bitmap.zero = .ok Bitmap.zero :=
      resetLoop_ok _ 0 (by omega)
    have hends : ¬ EndsCounted mmap := fun hends => h ⟨hfits, hends⟩
    rw [initBitmapPhysAllocator, initBitmap, hreset, ok_bind, bootForeachFreePage_eq,
      freePages_outOfBounds _ _ (freePages_top hends)]
    rfl
  · rw [initBitmapPhysAllocator, initBitmap,
      resetPagesAllocated_outOfBounds _ (Nat.not_le.1 hfits)]
    rfl

/-- Every index that is written is in the array, exactly if the map has no more pages than the
array has bytes and every end counts. -/
theorem init_inBounds_iff (img : Image) (mmap : List MmapEntry) :
    initBitmapPhysAllocator img mmap ≠ .error .outOfBounds ↔
      getMaxMemory mmap / pageSize ≤ pagesArrSize ∧ EndsCounted mmap := by
  constructor
  · intro hok
    by_contra h
    exact hok (initBitmapPhysAllocator_outOfBounds img h)
  · intro h
    obtain ⟨p, hp, -⟩ := initBitmapPhysAllocator_ok img h.1 h.2
    rw [hp]
    intro hfault
    cases hfault

theorem booted_apart {img : Image} {mmap : List MmapEntry} {p : Pool} {s : Paging.Space}
    (hp : initBitmapPhysAllocator img mmap = .ok p) (hs : Booted img s) :
    ∀ f, Paging.InUse s f → ¬ p.bitmap.Free f := by
  intro f hf hfree
  obtain ⟨hfits, hends⟩ := (init_inBounds_iff img mmap).1 (by rw [hp]; exact fun h => by cases h)
  obtain ⟨p', hp', -, -, hbits⟩ := initBitmapPhysAllocator_ok img hfits hends
  obtain rfl : p = p' := Except.ok.inj (hp.symm.trans hp')
  obtain ⟨hge, hlt⟩ := hs.inBoot f hf
  apply ((hbits f).1 hfree).2.2
  refine ⟨hge, ?_⟩
  show f * pageSize < img.imageEnd - vaPaOff
  have := img.start_le
  omega

/-- 1 GiB of memory, as an emulator reports it above 1 MiB. -/
def oneGiB : List MmapEntry := [⟨0x100000#32, 0#32, 0x3FF00000#32, 0#32, 1#32⟩]

/-- Memory up to the middle of the last page below 4 GiB. -/
def upToLastPage : List MmapEntry := [⟨0x100000#32, 0#32, 0xFFEFF800#32, 0#32, 1#32⟩]

/-- With 1 GiB the bytes of 262144 pages are cleared in an array of 65536; the other map has a
`max_memory` of 0, and all its pages are freed. -/
theorem oneGiB_leaves_array :
    initBitmapPhysAllocator smallImage oneGiB = .error .outOfBounds ∧
      getMaxMemory oneGiB / pageSize = 262144 ∧
      initBitmapPhysAllocator smallImage upToLastPage = .error .outOfBounds ∧
      getMaxMemory upToLastPage = 0 := by
  refine ⟨initBitmapPhysAllocator_outOfBounds _ ?_, by decide +kernel,
    initBitmapPhysAllocator_outOfBounds _ ?_, by decide +kernel⟩
  · decide +kernel
  · decide +kernel

/-- The second MiB. -/
def secondMiB : List MmapEntry := [⟨0x100000#32, 0#32, 0x100000#32, 0#32, 1#32⟩]

theorem secondMiB_free : ∃ p, initBitmapPhysAllocator smallImage secondMiB = .ok p ∧
    p.lastFreeGroupIndex = 0 ∧ p.handed = [] ∧ ∀ f, p.bitmap.Free f ↔ 323 ≤ f ∧ f < 512 := by
  obtain ⟨p, hp, hhint, hhanded, hbits⟩ := initBitmapPhysAllocator_ok smallImage
    (show getMaxMemory secondMiB / pageSize ≤ pagesArrSize by decide +kernel)
    (show EndsCounted secondMiB by decide +kernel)
  refine ⟨p, hp, hhint, hhanded, fun f => ?_⟩
  have hpages : secondMiB.flatMap MmapEntry.freePages = pagesOf 0x100000 0x200000 := by
    decide +kernel
  have hreserved : secondMiB.filterMap MmapEntry.reservedRegion = [] := by decide +kernel
  have hkernel : kernelRegion smallImage = (0x100000, 0x143000) := by decide +kernel
  rw [hbits, hpages, hreserved, hkernel]
  constructor
  · intro h
    obtain ⟨⟨pa, hpa, rfl⟩, -, hnot⟩ := h
    rw [mem_pagesOf (by decide) (by decide)] at hpa
    unfold InRegion pageSize at *
    omega
  · intro h
    refine ⟨⟨f * pageSize, ?_, (Nat.mul_div_cancel f (by decide)).symm⟩, ?_, ?_⟩
    · rw [mem_pagesOf (by decide) (by decide)]
      refine ⟨Nat.dvd_mul_left _ _, ?_⟩
      unfold pageSize
      omega
    · intro r hr
      obtain rfl := List.mem_singleton.1 hr
      unfold InRegion stor1MiB pageSize
      omega
    · unfold InRegion pageSize
      omega

end X86Kernel.BitmapAlloc
