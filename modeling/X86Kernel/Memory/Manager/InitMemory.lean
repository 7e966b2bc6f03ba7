import X86Kernel.Memory.Manager.HandOver
import X86Kernel.Memory.Manager.Mapping
import X86Kernel.Memory.Manager.Regions

/- The memory of the kernel at boot (`kernel/memory/core/init.c`): the bitmap, the descriptors,
   the heap and the regions, one after the other.

   What is proved: once `init_heap` is through, with frames that no other page is mapped to, the
   rest of `init_memory` returns. The regions are then the image, the descriptors and the heap,
   there are intervals for 125 more, and along all calls that follow they are a set of ranges
   (`initRegions_run`). `initMemory_regions` is this for `init_memory` on any memory map.

   The allocator of the moment (`mm_set_allocator_type`) is the one that each function here is
   given. The message of `verify_flags` is left out.

   Correspondence (C ↔ Lean):
     `boot_has_memory` ↔ `bootHasMemory`
     `verify_flags`    ↔ `verifyFlags`
     `clamp`           ↔ `clamp`
     `div_up`, of a number of bytes by `PAGE_SIZE` ↔ `pagesOfBytes`
     `kernel_size`     ↔ `kernelSize`
     `init_memory`     ↔ `initMemory` (`initHeapMemory`, `initRegions`) -/
namespace X86Kernel.Manager
open X86Kernel.Lib X86Kernel.Lib.ColorTree X86Kernel.Boot X86Kernel.BitmapAlloc X86Kernel.Paging
  X86Kernel.Rb X86Kernel.Frame X86Kernel.Heap X86Kernel.VirtRegion

/-! ## Sizes -/

/-- `mbd->flags & MULTIBOOT_INFO_MEM_MAP`. -/
def bootHasMemory (flags : BitVec 32) : Bool := flags &&& 0x40#32 ≠ 0#32

def verifyFlags (flags : BitVec 32) : Kernel Unit :=
  if bootHasMemory flags then .ok () else .error .abort

def clamp (v min max : Nat) : Nat := if v < min then min else if max < v then max else v

/-- `div_up(size, PAGE_SIZE)`, in 64 bits. -/
def pagesOfBytes (size : Nat) : Nat := (size + (pageSize - 1)) / pageSize

def kernelSize (img : Image) : Nat :=
  sub32 (roundPageUp img.kernelEndPa) (roundPageDown img.kernelBeginPa)

/-- From 8 MiB to 128 MiB. -/
def heapInitSize (maxMemory : Nat) : Nat := clamp (maxMemory / 16) 0x800000 0x8000000

/-- From 32 MiB to 256 MiB. -/
def heapMaxSize (maxMemory : Nat) : Nat := clamp (maxMemory / 4) 0x2000000 0x10000000

/-! ## The steps -/

/-- `init_memory`, up to `init_heap`, with the end of the descriptors. -/
def initHeapMemory (img : Image) (mmap : List MmapEntry) (space : Space) (s : HeapVars Mem) :
    Kernel (HeapVars Mem × Nat) := do
  let p ← initBitmapPhysAllocator img mmap
  let (space, _, frames, _, pfnEnd) ← initPfnDescriptors img mmap space p mmAreaVirt
  let s ← initHeap (memWorld mmAreaVirt) { s with world := { s.world with frames, space } }
    (roundPageUp pfnEnd) (heapMaxSize (getMaxMemory mmap)) (heapInitSize (getMaxMemory mmap))
  return (s, pfnEnd)

/-- The rest of `init_memory`. -/
def initRegions (img : Image) (fuel pfnEnd maxSize : Nat) (s : HeapVars Mem) :
    Kernel (HeapVars Mem) := do
  let heapBegin := roundPageUp pfnEnd
  let s ← initVirtRegion mmAreaVirt fuel s
  let s ← kvregionMark mmAreaVirt fuel s 0xC0000000 (pagesOfBytes (kernelSize img)) .kernelImg
    "Kernel"
  let s ← kvregionMark mmAreaVirt fuel s mmAreaVirt (pagesOfBytes (sub32 pfnEnd mmAreaVirt)) .pfn
    "Page Descriptors"
  kvregionMark mmAreaVirt fuel s heapBegin
    (pagesOfBytes (sub32 (u32 (heapBegin + maxSize)) heapBegin)) .heap "Heap"

def initMemory (flags : BitVec 32) (fuel : Nat) (img : Image) (mmap : List MmapEntry)
    (space : Space) (s : HeapVars Mem) : Kernel (HeapVars Mem) := do
  verifyFlags flags
  let (s, pfnEnd) ← initHeapMemory img mmap space s
  initRegions img fuel pfnEnd (heapMaxSize (getMaxMemory mmap)) s

/-! ## The regions -/

/-- The calls of `kvregion_mark` in `init_memory`. -/
def kernelMark (img : Image) : Mark :=
  ⟨0xC0000000, pagesOfBytes (kernelSize img), .kernelImg, "Kernel"⟩

def pfnMark (pfnEnd : Nat) : Mark :=
  ⟨mmAreaVirt, pagesOfBytes (sub32 pfnEnd mmAreaVirt), .pfn, "Page Descriptors"⟩

def heapMark (heapBegin maxSize : Nat) : Mark :=
  ⟨heapBegin, pagesOfBytes (sub32 (u32 (heapBegin + maxSize)) heapBegin), .heap, "Heap"⟩

/-- The regions that `init_memory` registers. -/
def firstRegions (img : Image) (pfnEnd maxSize : Nat) : Set VirtInterval :=
  {(heapMark (roundPageUp pfnEnd) maxSize).interval, (pfnMark pfnEnd).interval,
    (kernelMark img).interval}

theorem kernelMark_proper (img : Image) :
    (kernelMark img).Proper ∧ (kernelMark img).interval.toAddr ≤ mmAreaVirt := by
  obtain ⟨D, K, B, P, E, -, -, -, -, hE, habove, hin, -, hstart, hfits⟩ := img.frames
  have hend : img.kernelEndPa = (E - 0xBFF00) * pageSize := by
    rw [Image.kernelEndPa, hE, Nat.sub_mul]
    rfl
  have hsize : kernelSize img = (E - 0xC0000) * pageSize := by
    rw [kernelSize, hend, Image.kernelBeginPa]
    unfold roundPageUp roundPageDown u32 sub32 stor1MiB pageSize
    omega
  have hcount : pagesOfBytes (kernelSize img) = E - 0xC0000 := by
    rw [hsize]
    unfold pagesOfBytes pageSize
    omega
  unfold Mark.Proper Mark.interval kernelMark mmAreaVirt
  simp only [hcount]
  unfold pageSize
  omega

theorem pfnMark_proper {pfnEnd : Nat} (hlo : mmAreaVirt < pfnEnd) (hhi : pfnEnd ≤ 0xE0000000) :
    (pfnMark pfnEnd).Proper ∧ (pfnMark pfnEnd).interval.toAddr = roundPageUp pfnEnd := by
  have hsub : sub32 pfnEnd mmAreaVirt = pfnEnd - mmAreaVirt :=
    sub32_of_le (by omega) hlo.le
  unfold Mark.Proper Mark.interval pfnMark
  simp only [hsub]
  unfold pagesOfBytes roundPageUp u32 mmAreaVirt pageSize at *
  omega

theorem heapMark_proper {heapBegin maxSize : Nat} (hpos : 0 < maxSize)
    (hend : heapBegin + maxSize ≤ 0xF0000000) : (heapMark heapBegin maxSize).Proper := by
  have hsub : sub32 (u32 (heapBegin + maxSize)) heapBegin = maxSize := by
    rw [u32_of_lt (by omega), sub32_of_le (by omega) (by omega)]
    omega
  unfold Mark.Proper heapMark
  simp only [hsub]
  unfold pagesOfBytes pageSize
  omega

theorem Mark.apart_of_le {c d : Mark} (hc : c.Proper) (hd : d.Proper)
    (h : d.interval.toAddr ≤ c.va) : Apart c.va (c.count * pageSize) d.interval.span := by
  have hlt : d.va < d.va + d.count * pageSize :=
    Nat.lt_add_of_pos_right (Nat.mul_pos hd.1 (by decide))
  exact (apart_iff (Nat.mul_pos hc.1 (by decide)) hlt).2 (.inr h)

/-! ## Three pages -/

/-- `tabledSpace` with three pages from 0xD0001000 on, in the frames from 3 on. -/
def threePages : Space :=
  (((tabledSpace 832).put 2 1 0x3003).put 2 2 0x4003).put 2 3 0x5003

theorem recursive_threePages : Recursive threePages where
  here := (recursive_tabledSpace 832).here
  self := (recursive_tabledSpace 832).self
  own := (recursive_tabledSpace 832).own

/-- A frame from 3 on is behind one page. -/
theorem entry_threePages (q : Nat) : frameOf (threePages.entry q) ≤ 2 ∨
    q / 1024 = 832 ∧ (q % 1024 = 1 ∧ threePages.entry q = 0x3003 ∨
      q % 1024 = 2 ∧ threePages.entry q = 0x4003 ∨ q % 1024 = 3 ∧ threePages.entry q = 0x5003) := by
  have hpde : threePages.pde (q / 1024) = (tabledSpace 832).pde (q / 1024) := rfl
  rw [Space.entry]
  by_cases hp : present (threePages.pde (q / 1024)) = true
  · rw [if_pos hp]
    rw [hpde] at hp ⊢
    rcases frameOf_tabledSpace hp with ⟨-, hframe⟩ | ⟨he, hframe⟩
    · left
      rw [hframe]
      show frameOf (if q % 1024 = 1023 then 0x1003 else if q % 1024 = 832 then 0x2003 else 0) ≤ 2
      split_ifs <;> decide
    · rw [hframe]
      have hmem : threePages.mem 2 (q % 1024) = if q % 1024 = 3 then 0x5003
          else if q % 1024 = 2 then 0x4003 else if q % 1024 = 1 then 0x3003 else 0 := by
        simp [threePages, tabledSpace, Space.put]
      rw [hmem]
      split_ifs with h₃ h₂ h₁
      · exact .inr ⟨he, .inr (.inr ⟨h₃, rfl⟩)⟩
      · exact .inr ⟨he, .inr (.inl ⟨h₂, rfl⟩)⟩
      · exact .inr ⟨he, .inl ⟨h₁, rfl⟩⟩
      · exact .inl (by decide)
  · rw [if_neg hp]
    exact .inl (by decide)

theorem descOf_threePages {w : Mem} (hw : w.space = threePages) (q : Nat) :
    (memWorld mmAreaVirt).descOf w q ≤ 2 ∨
      ∃ i < 3, q = 0xD0001 + i ∧ (memWorld mmAreaVirt).descOf w q = 3 + i := by
  by_cases hq : q < 2 ^ 20
  · have hpage : q * pageSize / pageSize = q := Nat.mul_div_cancel q (by decide)
    have hmod : q * pageSize % pageSize = 0 := Nat.mul_mod_left q pageSize
    have hdesc : (memWorld mmAreaVirt).descOf w q =
        (if present (threePages.entry q) then frameOf (threePages.entry q) else 0) := by
      simp only [memWorld, hw, recursive_threePages.virtToPhys
        (show q * pageSize < 2 ^ 32 by unfold pageSize; omega), hpage, hmod, Nat.or_zero]
      split_ifs
      · exact Nat.mul_div_cancel _ (by decide)
      · rfl
    rw [hdesc]
    rcases entry_threePages q with hlow | ⟨hdir, hentry⟩
    · left
      split_ifs
      · exact hlow
      · exact Nat.zero_le 2
    · right
      rcases hentry with ⟨hword, he⟩ | ⟨hword, he⟩ | ⟨hword, he⟩
      · exact ⟨0, by decide, by omega, by rw [he]; rfl⟩
      · exact ⟨1, by decide, by omega, by rw [he]; rfl⟩
      · exact ⟨2, by decide, by omega, by rw [he]; rfl⟩
  · -- no address of the window belongs to such a page
    have hlarge : 1024 ≤ (pageDirectory + 4 * getPdeIndex (q * pageSize)) / 2 ^ 22 := by
      unfold pageDirectory getPdeIndex pageSize
      omega
    have hnone :
        threePages.mem 1 ((pageDirectory + 4 * getPdeIndex (q * pageSize)) / 2 ^ 22) = 0 := by
      show (if _ = 1023 then _ else if _ = 832 then _ else 0) = 0
      rw [if_neg (by omega), if_neg (by omega)]
    have hfault : virtToPhys threePages (q * pageSize) = .error .outOfBounds := by
      rw [virtToPhys, loadWord, walk]
      show ((if present (threePages.mem 1 _) then _ else _) >>= _ >>= _) = _
      rw [getPdeIndex, hnone]
      rfl
    left
    simp only [memWorld, hw, hfault]
    exact Nat.zero_le 2

theorem alone_threePages {w : Mem} (hw : w.space = threePages) :
    AloneIn (memWorld mmAreaVirt) w 0xD0001000 (0xD0001000 + 0x3000) := by
  intro p q hlo hhi he
  have hown : ∀ i < 3, (memWorld mmAreaVirt).descOf w (0xD0001 + i) = 3 + i := by
    simp only [memWorld, hw]
    decide +kernel
  obtain ⟨i, hi, rfl⟩ : ∃ i < 3, p = 0xD0001 + i := by
    unfold pageSize at hlo hhi
    exact ⟨p - 0xD0001, by omega, by omega⟩
  rw [hown i hi] at he
  rcases descOf_threePages hw q with hlow | ⟨j, -, rfl, hj⟩
  · omega
  · omega

/-! ## The first regions -/

section First

variable {s t : HeapVars Mem} {pfnEnd maxSize initSize : Nat}

theorem initRegions_backed (img : Image)
    (hinit : initHeap (memWorld mmAreaVirt) s (roundPageUp pfnEnd) maxSize initSize = .ok t)
    (hlo : mmAreaVirt < pfnEnd) (hhi : pfnEnd ≤ 0xE0000000) (hpages : 3 * pageSize ≤ initSize)
    (hle : initSize ≤ maxSize) (hmax : maxSize ≤ 0x10000000)
    (hflags : ∀ i, (s.desc i).flags ≠ ⟨true, true, true⟩)
    (halone : AloneIn (memWorld mmAreaVirt) t.world (roundPageUp pfnEnd)
      (roundPageUp pfnEnd + initSize)) (fuel : Nat) :
    ∃ u tree, initRegions img (fuel + 1) pfnEnd maxSize t = .ok u ∧
      Backed mmAreaVirt 125 u tree ∧ ranges u tree = firstRegions img pfnEnd maxSize := by
  have hbegin : mmAreaVirt < roundPageUp pfnEnd ∧ roundPageUp pfnEnd ≤ 0xE0000000 := by
    unfold roundPageUp u32 mmAreaVirt pageSize at *
    omega
  have hpos : 0 < maxSize := by
    unfold pageSize at hpages
    omega
  obtain ⟨hkernel, hkernelEnd⟩ := kernelMark_proper img
  obtain ⟨hpfn, hpfnEnd⟩ := pfnMark_proper hlo hhi
  have hheap := heapMark_proper hpos (show roundPageUp pfnEnd + maxSize ≤ 0xF0000000 by omega)
  obtain ⟨u₀, hrun₀, h₀, hnone, hroom, hfresh⟩ := backed_initVirtRegion hinit (by omega) hpages hle
    (by omega) hflags halone fuel
  obtain ⟨u₁, tree₁, hrun₁, h₁, hranges₁⟩ := h₀.mark hroom hkernel hfresh fuel
  obtain ⟨u₂, tree₂, hrun₂, h₂, hranges₂⟩ :=
    h₁.mark (m := 126) h₁.room hpfn (.inr (.inl (by decide))) fuel
  obtain ⟨u₃, tree₃, hrun₃, h₃, hranges₃⟩ :=
    h₂.mark (m := 125) h₂.room hheap (.inr (.inl (by decide))) fuel
  refine ⟨u₃, tree₃, ?_, h₃, ?_⟩
  · have hcalls : ∀ u, initRegions img (fuel + 1) pfnEnd maxSize u =
        (do
          let u ← initVirtRegion mmAreaVirt (fuel + 1) u
          let u ← (kernelMark img).call mmAreaVirt (fuel + 1) u
          let u ← (pfnMark pfnEnd).call mmAreaVirt (fuel + 1) u
          (heapMark (roundPageUp pfnEnd) maxSize).call mmAreaVirt (fuel + 1) u) := fun _ => rfl
    rw [hcalls, hrun₀, ok_bind, hrun₁, ok_bind, hrun₂, ok_bind, hrun₃]
  · -- each range begins behind those before it
    have hfits₁ : (kernelMark img).Fits ∅ := fun i hi => absurd hi (Set.notMem_empty i)
    have hfits₂ : (pfnMark pfnEnd).Fits {(kernelMark img).interval} := by
      rintro i rfl
      exact Mark.apart_of_le hpfn hkernel hkernelEnd
    have hfits₃ : (heapMark (roundPageUp pfnEnd) maxSize).Fits
        {(pfnMark pfnEnd).interval, (kernelMark img).interval} := by
      rintro i (rfl | rfl)
      · exact Mark.apart_of_le hheap hpfn hpfnEnd.le
      · exact Mark.apart_of_le hheap hkernel (hkernelEnd.trans hbegin.1.le)
    rw [hranges₃, hranges₂, hranges₁, hnone, Mark.register_of_fits hfits₁, insert_empty_eq,
      Mark.register_of_fits hfits₂, Mark.register_of_fits hfits₃]
    rfl

/-- From the end of `init_heap` on: the rest of `init_memory` returns, and along any allowed calls
after it the regions are a set of ranges, which starts with the three of `init_memory`. -/
theorem initRegions_run (img : Image)
    (hinit : initHeap (memWorld mmAreaVirt) s (roundPageUp pfnEnd) maxSize initSize = .ok t)
    (hlo : mmAreaVirt < pfnEnd) (hhi : pfnEnd ≤ 0xE0000000) (hpages : 3 * pageSize ≤ initSize)
    (hle : initSize ≤ maxSize) (hmax : maxSize ≤ 0x10000000)
    (hflags : ∀ i, (s.desc i).flags ≠ ⟨true, true, true⟩)
    (halone : AloneIn (memWorld mmAreaVirt) t.world (roundPageUp pfnEnd)
      (roundPageUp pfnEnd + initSize)) (fuel : Nat) :
    ∃ u, initRegions img (fuel + 1) pfnEnd maxSize t = .ok u ∧
      (∀ probe (marks : List Mark), marks.length ≤ 125 → (∀ c ∈ marks, c.Proper) →
        Meets (regionStep mmAreaVirt (fuel + 1) probe) (Allowed probe) u (marks.map .mark)) ∧
      ∀ probe calls, Meets (regionStep mmAreaVirt (fuel + 1) probe) (Allowed probe) u calls →
        ∃ v, Lib.run (regionStep mmAreaVirt (fuel + 1) probe) u calls =
            .ok (v, (fold rangesStep (firstRegions img pfnEnd maxSize) calls).2) ∧
          Holds mmAreaVirt v (fold rangesStep (firstRegions img pfnEnd maxSize) calls).1 := by
  obtain ⟨u, tree, hrun, hback, hranges⟩ :=
    initRegions_backed img hinit hlo hhi hpages hle hmax hflags halone fuel
  have hholds : Holds mmAreaVirt u (firstRegions img pfnEnd maxSize) :=
    ⟨tree, hback.mono (Nat.zero_le _), hranges⟩
  exact ⟨u, hrun, fun probe marks hlen hproper => hback.meets hlen hproper,
    fun probe calls hcalls => hholds.run hcalls⟩

/-- The heap of three pages, behind one page for descriptors. -/
theorem threePages_run : ∃ r t u,
    buildFreeList (framesOf [.used, .used, .used, .unused, .unused, .unused, .used, .used]) =
      .ok r ∧
    initHeap (memWorld mmAreaVirt) (slabHeap r.1 (tabledSpace 832)) 0xD0001000 0x3000 0x3000 =
      .ok t ∧
    initRegions smallImage 1 0xD0001000 0x3000 t = .ok u ∧
      (∀ probe (marks : List Mark), marks.length ≤ 125 → (∀ c ∈ marks, c.Proper) →
        Meets (regionStep mmAreaVirt 1 probe) (Allowed probe) u (marks.map .mark)) ∧
      ∀ probe calls, Meets (regionStep mmAreaVirt 1 probe) (Allowed probe) u calls →
        ∃ v, Lib.run (regionStep mmAreaVirt 1 probe) u calls =
            .ok (v, (fold rangesStep (firstRegions smallImage 0xD0001000 0x3000) calls).2) ∧
          Holds mmAreaVirt v
            (fold rangesStep (firstRegions smallImage 0xD0001000 0x3000) calls).1 := by
  obtain ⟨r, t, hbuild, hinit, hspace⟩ : ∃ r t,
      buildFreeList (framesOf [.used, .used, .used, .unused, .unused, .unused, .used, .used]) =
        .ok r ∧
      initHeap (memWorld mmAreaVirt) (slabHeap r.1 (tabledSpace 832)) 0xD0001000 0x3000 0x3000 =
        .ok t ∧
      t.world.space = threePages := ⟨_, _, rfl, rfl, rfl⟩
  have hbegin : roundPageUp 0xD0001000 = 0xD0001000 := by decide
  have hheap := hinit
  rw [← hbegin] at hheap
  obtain ⟨u, hrun, hmarks, hcalls⟩ := initRegions_run smallImage hheap (by decide) (by decide)
    (by decide) (by decide) (by decide) (fun i => by simp [slabHeap])
    (by rw [hbegin]; exact alone_threePages hspace) 0
  exact ⟨r, t, u, hbuild, hinit, hrun, hmarks, hcalls⟩

/-- Once `init_heap` is through with frames of its own, on any memory map, `init_memory` returns,
and the regions are the image, the descriptors and the heap. -/
theorem initMemory_regions {flags : BitVec 32} {img : Image} {mmap : List MmapEntry} {space : Space}
    (hboot : Booted img space) (hmemory : bootHasMemory flags = true)
    (hflags : ∀ i, (s.desc i).flags ≠ ⟨true, true, true⟩)
    (hrun : initHeapMemory img mmap space s = .ok (t, pfnEnd))
    (halone : AloneIn (memWorld mmAreaVirt) t.world (roundPageUp pfnEnd)
      (roundPageUp pfnEnd + heapInitSize (getMaxMemory mmap))) (fuel : Nat) :
    ∃ u, initMemory flags (fuel + 1) img mmap space s = .ok u ∧
      Holds mmAreaVirt u (firstRegions img pfnEnd (heapMaxSize (getMaxMemory mmap))) := by
  obtain ⟨p, hp, hrest⟩ := exists_of_bind_eq_ok hrun
  obtain ⟨⟨space', p', frames, freeCount, addr⟩, hdescs, hrest⟩ := exists_of_bind_eq_ok hrest
  obtain ⟨v, hinit, hret⟩ := exists_of_bind_eq_ok hrest
  cases hret
  obtain ⟨-, -, -, -, -, -, -, -, -, -, hlo, hhi, -⟩ := initPfnDescriptors_ok hboot hp hdescs
  have hsizes : 3 * pageSize ≤ heapInitSize (getMaxMemory mmap) ∧
      heapInitSize (getMaxMemory mmap) ≤ heapMaxSize (getMaxMemory mmap) ∧
      heapMaxSize (getMaxMemory mmap) ≤ 0x10000000 := by
    unfold heapInitSize heapMaxSize clamp pageSize
    split_ifs <;> omega
  obtain ⟨u, tree, hregions, hback, hranges⟩ := initRegions_backed img hinit
    (lt_of_lt_of_le (Nat.lt_add_of_pos_right (by decide)) hlo) hhi.le hsizes.1 hsizes.2.1
    hsizes.2.2 hflags halone fuel
  refine ⟨u, ?_, tree, hback.mono (Nat.zero_le _), hranges⟩
  rw [initMemory, verifyFlags, if_pos hmemory, ok_bind, hrun, ok_bind]
  exact hregions

end First

end X86Kernel.Manager
