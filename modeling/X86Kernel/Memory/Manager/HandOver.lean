import X86Kernel.Memory.Manager.Accounting
import X86Kernel.Memory.Manager.BumpAlloc
import X86Kernel.Memory.PfnHandler

/- From the bitmap to the frame allocator (`init_pfn_descriptors`): the descriptors are put into
   pages from the bitmap, their types are set from the memory map, the bounds of the image, the
   pages of the descriptors and the page tables, and the free list is built from the types.

   What is proved: which frames are unused in the end (`initPfnDescriptors_unused`). These are the
   free pages of the bitmap at the start, less the page tables at the time of `init_phys_pages`
   and the pages of the descriptors, but of these the last one is missing, and what is behind
   it: the page that `init_phys_pages` calls the inclusive end is the exclusive end of the range
   that `mark_range` marks. So, on no memory map that gets this far, the free list is without
   pages that are in use (`descriptors_on_freeList`).

   Descriptors are kept apart from the memory they lie in: `memset` only walks over the pages it
   writes to, which faults where one is not mapped. `can_map_pages` only reads, and
   `paging_map_identity` does not look at what it says; it is left out.

   Correspondence (C ↔ Lean):
     `memset`               ↔ `memsetWalk`
     `mark_page_structure`  ↔ `markPageStructure`
     `boot_foreach_page_struct` ↔ `bootForeachPageStruct` (`pageStructLoop`)
     `init_phys_pages`      ↔ `initPhysPages`
     `pfn_mark_range`       ↔ `pfnMarkRange`
     `reserve_map_page_region` ↔ `reserveMapPageRegion`
     `init_frame_allocator` ↔ `initFrameAllocator`
     `init_pfn_descriptors` ↔ `initPfnDescriptors` -/
namespace X86Kernel.Manager
open Lib X86Kernel.Boot X86Kernel.BitmapAlloc X86Kernel.Paging X86Kernel.Frame

/-- `PAGING_FLAG_WRITE | PAGING_FLAG_PRESENT` -/
def pagingFlagsWritePresent : Nat := 0x11

/-! ## The descriptors -/

/-- The stores of `memset`, `n` words from `va` on. -/
def memsetWalk (s : Space) : Nat → Nat → Kernel Unit
  | 0, _ => .ok ()
  | n + 1, va => do
    let _ ← walk s va
    memsetWalk s n (va + 4)

/-! ## The types -/

def markPageStructure (pageStructPa : Nat) (d : Frames) : Kernel Frames :=
  modify d (pageStructPa / pageSize) fun e => { e with type := .physPages }

section PageStruct

variable {σ : Type} (callback : Nat → σ → Kernel σ)

/-- `for (u32 pdi = 0; pdi < ENTRIES_AMOUNT; ++pdi)`. -/
def pageStructLoop (s : Space) : Nat → Nat → σ → Kernel σ
  | 0, _, x => .ok x
  | n + 1, pdi, x => do
    let pt ← getPageTable s pdi
    if pt = 0 then pageStructLoop s n (pdi + 1) x
    else do
      let ptPa ← virtToPhys s pt
      let x ← callback ptPa x
      pageStructLoop s n (pdi + 1) x

def bootForeachPageStruct (img : Image) (s : Space) (x : σ) : Kernel σ := do
  let pdPa ← virtToPhys s img.pageDirectory
  let x ← callback pdPa x
  pageStructLoop callback s entriesAmount 0 x

end PageStruct

/-- `init_phys_pages`. -/
def initPhysPages (img : Image) (mmap : List MmapEntry) (s : Space) (bump : BumpVars)
    (d : Frames) : Kernel Frames := do
  let d ← markMemoryMap mmap d
  let (d, _) ← markRange d (roundPageDown img.kernelBeginPa) (roundPageDown img.kernelEndPa)
    .kernelImg 1 0
  let beginPa ← virtToPhys s bump.beginAddr
  let endPa ← virtToPhys s (sub32 bump.allocAddr pageSize)
  let (d, _) ← markRange d (roundPageDown beginPa) (roundPageDown endPa) .pfn 1 0
  bootForeachPageStruct markPageStructure img s d

def pfnMarkRange (d : Frames) (startPa count : Nat) (pageType : PageType) (pageFlags : Nat) :
    Kernel Frames := do
  let (d, _) ← markRange d startPa (u32 (startPa + count * pageSize)) pageType 1 pageFlags
  return d

/-- `reserve_map_page_region`. -/
def reserveMapPageRegion (startPa endPa : Nat) (x : Space × Pool × Frames) :
    Kernel (Space × Pool × Frames) := do
  let (s, p, d) := x
  let count := sub32 endPa startPa / pageSize
  let (s, p, _) ←
    pagingMapPages bitmapAllocPage s p startPa startPa count pagingFlagsWritePresent
  let d ← pfnMarkRange d startPa count .reserved pagingFlagsWritePresent
  return (s, p, d)

def initFrameAllocator (mmap : List MmapEntry) (s : Space) (p : Pool) (d : Frames) :
    Kernel (Space × Pool × Frames × Nat) := do
  let (s, p, d) ← bootForeachReservedRegion reserveMapPageRegion mmap (s, p, d)
  let (d, freeCount) ← buildFreeList d
  return (s, p, d, freeCount)

/-- `init_pfn_descriptors`, up to the `memset` of the descriptors. -/
def placeDescriptors (mmap : List MmapEntry) (s : Space) (p : Pool) (allocAddr : Nat) :
    Kernel (Space × Pool × BumpVars) := do
  let (s, p, bump) ← initBump s p allocAddr
  let count := getMaxMemory mmap / pageSize
  let (s, p, bump, descs) ← bumpAllocAlign s p bump (u32 (count * pageDescSize)) 0
  memsetWalk s (u32 (count * pageDescSize) / 4) descs
  return (s, p, bump)

/-- `init_pfn_descriptors`, with `pfn_data.free_count` and the address after the descriptors. -/
def initPfnDescriptors (img : Image) (mmap : List MmapEntry) (s : Space) (p : Pool)
    (allocAddr : Nat) : Kernel (Space × Pool × Frames × Nat × Nat) := do
  let (s, p, bump) ← placeDescriptors mmap s p allocAddr
  let d ← initPhysPages img mmap s bump (zeroed (getMaxMemory mmap / pageSize))
  let (s, p, d, freeCount) ← initFrameAllocator mmap s p d
  return (s, p, d, freeCount, bump.allocAddr)

/-! ## The descriptors are mapped -/

section Memset

variable {s : Space}

theorem memsetWalk_ok : ∀ (n : Nat) {va i : Nat}, memsetWalk s n va = .ok () → i < n →
    ∃ f, walk s (va + 4 * i) = .ok f := by
  intro n
  induction n with
  | zero => intro va i _ hi; omega
  | succ n ih =>
    intro va i hrun hi
    obtain ⟨f, hwalk, hrest⟩ := exists_of_bind_eq_ok hrun
    cases i with
    | zero => exact ⟨f, hwalk⟩
    | succ i =>
      obtain ⟨f', hf'⟩ := ih hrest (show i < n by omega)
      rw [Nat.add_assoc] at hf'
      exact ⟨f', by rw [Nat.mul_succ, Nat.add_comm (4 * i) 4]; exact hf'⟩

theorem memsetWalk_returns : ∀ (n : Nat) {va : Nat}, (∀ i < n, ∃ f, walk s (va + 4 * i) = .ok f) →
    memsetWalk s n va = .ok () := by
  intro n
  induction n with
  | zero => exact fun _ => rfl
  | succ n ih =>
    intro va hwalks
    obtain ⟨f, hf⟩ := hwalks 0 (Nat.succ_pos n)
    rw [Nat.mul_zero, Nat.add_zero] at hf
    rw [memsetWalk, hf, ok_bind]
    apply ih
    intro i hi
    obtain ⟨f', hf'⟩ := hwalks (i + 1) (Nat.succ_lt_succ hi)
    rw [Nat.mul_succ, Nat.add_comm (4 * i) 4, ← Nat.add_assoc] at hf'
    exact ⟨f', hf'⟩

end Memset

/-! ## The types -/

theorem pfnMarkPages_count {type : PageType} {flags refCount : Nat} : ∀ (n : Nat) {d d' : Frames}
    {i : Nat}, pfnMarkPages type flags refCount n d i = .ok d' → d'.count = d.count := by
  intro n
  induction n with
  | zero =>
    intro d d' i hrun
    cases hrun
    rfl
  | succ n ih =>
    intro d d' i hrun
    obtain ⟨d₁, hmark, hrest⟩ := exists_of_bind_eq_ok hrun
    unfold Frame.modify at hmark
    split_ifs at hmark
    cases hmark
    rw [ih hrest]
    rfl

theorem markRange_count {d d' : Frames} {start stop refCount flags : Nat} {type : PageType}
    {out : Option Nat} (hrun : markRange d start stop type refCount flags = .ok (d', out)) :
    d'.count = d.count := by
  obtain ⟨u, -, hrest⟩ := exists_of_bind_eq_ok hrun
  dsimp only at hrest
  split_ifs at hrest
  · cases hrest
    rfl
  · obtain ⟨d₁, hmark, hret⟩ := exists_of_bind_eq_ok hrest
    cases hret
    exact pfnMarkPages_count _ hmark
  · obtain ⟨d₁, hmark, hret⟩ := exists_of_bind_eq_ok hrest
    cases hret
    exact pfnMarkPages_count _ hmark

theorem markRange_unused {d d' : Frames} {start stop refCount flags : Nat} {type : PageType}
    {out : Option Nat} (hstart : pageSize ∣ start) (hstop : pageSize ∣ stop) (hlt : stop < 2 ^ 32)
    (htype : type ≠ .unused)
    (hrun : markRange d start stop type refCount flags = .ok (d', out)) :
    ∀ f, d'.Unused f ↔ d.Unused f ∧ ¬ InRegion (start, stop) f := by
  have hless : start < stop := by
    obtain ⟨u, hassert, -⟩ := exists_of_bind_eq_ok hrun
    by_contra hge
    rw [decide_eq_false hge] at hassert
    cases hassert
  obtain ⟨d₁, out₁, hrun₁, hcount, htypes⟩ := markRange_ok d (r := (start, stop))
    ⟨hstart, hstop, Nat.le_of_lt hless⟩ hless hlt type refCount flags
  obtain ⟨rfl, -⟩ := Prod.mk.inj (Except.ok.inj (hrun₁.symm.trans hrun))
  intro f
  unfold Frames.Unused
  rw [hcount, and_assoc]
  refine and_congr_right fun hf => ?_
  obtain ⟨hin, hout⟩ := htypes f hf
  by_cases hregion : InRegion (start, stop) f
  · rw [hin hregion]
    exact iff_of_false htype fun h => h.2 hregion
  · rw [hout hregion]
    exact (and_iff_left hregion).symm

theorem markPageStructure_unused {d d' : Frames} {pa : Nat}
    (hrun : markPageStructure pa d = .ok d') :
    pa / pageSize < d.count ∧ ∀ f, d'.Unused f ↔ d.Unused f ∧ f ≠ pa / pageSize := by
  unfold markPageStructure Frame.modify at hrun
  split_ifs at hrun with hin
  cases hrun
  refine ⟨hin, fun f => ?_⟩
  unfold Frames.Unused Frames.set
  dsimp only
  rw [and_assoc]
  refine and_congr_right fun _ => ?_
  by_cases hf : f = pa / pageSize
  · rw [if_pos hf]
    exact iff_of_false nofun fun h => h.2 hf
  · rw [if_neg hf]
    exact (and_iff_left hf).symm

theorem markPageStructure_returns {d : Frames} {f : Nat} (hf : f < d.count) :
    ∃ d', markPageStructure (f * pageSize) d = .ok d' ∧ d'.count = d.count := by
  have hframe : f * pageSize / pageSize = f := Nat.mul_div_cancel _ (by decide)
  refine ⟨d.set f { d.desc f with type := .physPages }, ?_, rfl⟩
  rw [markPageStructure, hframe, Frame.modify, if_pos hf]

theorem entry_pageTable {s : Space} (hs : Recursive s) {e : Nat} (he : e < 1024) :
    s.entry (pageTable e / pageSize) = s.pde e := by
  have hpage : pageTable e / pageSize = 1023 * 1024 + e := by
    unfold pageTable pageSize
    omega
  have htable : (1023 * 1024 + e) / 1024 = 1023 := by omega
  have hindex : (1023 * 1024 + e) % 1024 = e := by omega
  rw [hpage, Space.entry, htable, if_pos hs.here, hs.self, hindex]
  rfl

theorem virtToPhys_pageTable {s : Space} (hs : Recursive s) {e : Nat} (he : e < 1024)
    (hp : present (s.pde e) = true) :
    virtToPhys s (pageTable e) = .ok (frameOf (s.pde e) * pageSize) := by
  have hlt : pageTable e < 2 ^ 32 := by
    unfold pageTable pageSize
    omega
  have hoffset : pageTable e % pageSize = 0 := by
    unfold pageTable pageSize
    omega
  rw [hs.virtToPhys hlt, entry_pageTable hs he, if_pos hp, hoffset, Nat.or_zero]
  rfl

theorem pageStructLoop_unused {s : Space} (hs : Recursive s) : ∀ (n : Nat) {pdi : Nat}
    {d d' : Frames}, pdi + n ≤ 1024 → pageStructLoop markPageStructure s n pdi d = .ok d' →
    ∀ f, d'.Unused f ↔ d.Unused f ∧
      ∀ e, pdi ≤ e → e < pdi + n → present (s.pde e) = true → f ≠ frameOf (s.pde e) := by
  intro n
  induction n with
  | zero =>
    intro pdi d d' _ hrun
    cases hrun
    exact fun f => (and_iff_left fun e hge hlt => by omega).symm
  | succ n ih =>
    intro pdi d d' hle hrun
    rw [pageStructLoop, getPageTable, hs.load_dir (by omega), ok_bind] at hrun
    by_cases hp : present (s.pde pdi) = true
    · have hne : pageTable pdi ≠ 0 := by
        unfold pageTable
        omega
      simp only [hp, Bool.not_true, Bool.false_eq_true, if_false, pure_eq_ok, ok_bind, if_neg hne,
        virtToPhys_pageTable hs (show pdi < 1024 by omega) hp] at hrun
      obtain ⟨d₁, hmark, hrest⟩ := exists_of_bind_eq_ok hrun
      obtain ⟨-, hunused₁⟩ := markPageStructure_unused hmark
      have hunused := ih (by omega) hrest
      rw [Nat.mul_div_cancel _ (show 0 < pageSize by decide)] at hunused₁
      intro f
      rw [hunused, hunused₁, and_assoc]
      refine and_congr_right fun _ => ⟨fun h e hge hlt hpe => ?_, fun h => ?_⟩
      · by_cases he : e = pdi
        · rw [he]
          exact h.1
        · exact h.2 e (by omega) (by omega) hpe
      · exact ⟨h pdi (Nat.le_refl _) (by omega) hp, fun e hge hlt hpe =>
          h e (by omega) (by omega) hpe⟩
    · rw [Bool.not_eq_true] at hp
      simp only [hp, Bool.not_false, if_true, pure_eq_ok, ok_bind] at hrun
      have hunused := ih (by omega) hrun
      intro f
      rw [hunused]
      refine and_congr_right fun _ => ⟨fun h e hge hlt hpe => ?_, fun h e hge hlt hpe =>
        h e (by omega) (by omega) hpe⟩
      refine h e ?_ (by omega) hpe
      by_contra hlow
      obtain rfl : e = pdi := by omega
      rw [hp] at hpe
      cases hpe

theorem pageStructLoop_returns {s : Space} (hs : Recursive s) : ∀ (n : Nat) {pdi : Nat}
    {d : Frames}, pdi + n ≤ 1024 → (∀ f, InUse s f → f < d.count) →
    ∃ d', pageStructLoop markPageStructure s n pdi d = .ok d' := by
  intro n
  induction n with
  | zero => exact fun _ _ => ⟨_, rfl⟩
  | succ n ih =>
    intro pdi d hle htables
    rw [pageStructLoop, getPageTable, hs.load_dir (by omega), ok_bind]
    by_cases hp : present (s.pde pdi) = true
    · have hne : pageTable pdi ≠ 0 := by
        unfold pageTable
        omega
      obtain ⟨d₁, hmark, hcount⟩ := markPageStructure_returns (htables _ ⟨pdi, by omega, hp, rfl⟩)
      obtain ⟨d', hrest⟩ := @ih (pdi + 1) d₁ (by omega) (by rw [hcount]; exact htables)
      simp only [hp, Bool.not_true, Bool.false_eq_true, if_false, pure_eq_ok, ok_bind, if_neg hne,
        virtToPhys_pageTable hs (show pdi < 1024 by omega) hp, hmark]
      exact ⟨d', hrest⟩
    · rw [Bool.not_eq_true] at hp
      simp only [hp, Bool.not_false, if_true, pure_eq_ok, ok_bind]
      exact ih (by omega) htables

section PageDirectory

variable {img : Image} {s : Space} {d d' : Frames}

theorem virtToPhys_pageDirectory (hs : Recursive s)
    (hdir : s.entry (img.pageDirectory / pageSize) = s.dir * pageSize + pageEntryWriteKernelFlags) :
    virtToPhys s img.pageDirectory = .ok (s.dir * pageSize) := by
  obtain ⟨D, K, B, P, E, hD, -, -, -, -, -, hin, -⟩ := img.frames
  have hoffset : img.pageDirectory % pageSize = 0 := by
    rw [hD]
    exact Nat.mul_mod_left D pageSize
  have hlt : img.pageDirectory < 2 ^ 32 := by
    rw [hD]
    unfold pageSize
    omega
  have hframe : (s.dir * pageSize + pageEntryWriteKernelFlags) / pageSize = s.dir :=
    frameOf_table s.dir
  rw [hs.virtToPhys hlt, hdir, if_pos (present_table s.dir), hframe, hoffset, Nat.or_zero]

theorem bootForeachPageStruct_unused (hs : Recursive s)
    (hdir : s.entry (img.pageDirectory / pageSize) = s.dir * pageSize + pageEntryWriteKernelFlags)
    (hrun : bootForeachPageStruct markPageStructure img s d = .ok d') :
    s.dir < d.count ∧ ∀ f, d'.Unused f ↔ d.Unused f ∧ ¬ InUse s f := by
  unfold bootForeachPageStruct at hrun
  rw [virtToPhys_pageDirectory hs hdir, ok_bind] at hrun
  obtain ⟨d₁, hmark, hloop⟩ := exists_of_bind_eq_ok hrun
  obtain ⟨hlt, hunused₁⟩ := markPageStructure_unused hmark
  have hunused := pageStructLoop_unused hs entriesAmount (by decide) hloop
  rw [Nat.mul_div_cancel _ (show 0 < pageSize by decide)] at hlt hunused₁
  refine ⟨hlt, fun f => ?_⟩
  rw [hunused, hunused₁, and_assoc]
  refine and_congr_right fun _ => ⟨fun h hf => ?_, fun h => ⟨fun hf => ?_, fun e _ he hp hf => ?_⟩⟩
  · obtain ⟨e, he, hp, rfl⟩ := hf
    exact h.2 e (Nat.zero_le e) (by rw [Nat.zero_add]; exact he) hp rfl
  · exact h (hf ▸ dir_inUse hs)
  · exact h ⟨e, by rw [Nat.zero_add] at he; exact he, hp, hf.symm⟩

theorem bootForeachPageStruct_returns (hs : Recursive s)
    (hdir : s.entry (img.pageDirectory / pageSize) = s.dir * pageSize + pageEntryWriteKernelFlags)
    (htables : ∀ f, InUse s f → f < d.count) :
    ∃ d', bootForeachPageStruct markPageStructure img s d = .ok d' := by
  obtain ⟨d₁, hmark, hcount⟩ := markPageStructure_returns (htables s.dir (dir_inUse hs))
  obtain ⟨d', hloop⟩ := pageStructLoop_returns hs entriesAmount
    (show 0 + entriesAmount ≤ 1024 by decide)
    (show ∀ f, InUse s f → f < d₁.count by rw [hcount]; exact htables)
  refine ⟨d', ?_⟩
  rw [bootForeachPageStruct, virtToPhys_pageDirectory hs hdir, ok_bind, hmark, ok_bind]
  exact hloop

end PageDirectory

/-! ## The passes -/

theorem virtToPhys_frame {s : Space} (hs : Recursive s) {va f : Nat} (hva : va < 2 ^ 32)
    (hwalk : walk s va = .ok f) :
    ∃ pa, virtToPhys s va = .ok pa ∧ roundPageDown pa = f * pageSize := by
  rw [walk_eq_entry] at hwalk
  split_ifs at hwalk with hp
  cases hwalk
  refine ⟨_, hs.virtToPhys hva, ?_⟩
  have hoffset : va % pageSize < pageSize := Nat.mod_lt va (by decide)
  rw [if_pos hp, or_flags _ hoffset, roundPageDown, Nat.add_comm,
    Nat.add_mul_div_right _ _ (show 0 < pageSize by decide), Nat.div_eq_of_lt hoffset, Nat.zero_add]
  rfl

theorem markMemoryMap_count {mmap : List MmapEntry} {count : Nat} {d : Frames}
    (hinside : ∀ r ∈ mmap.filterMap MmapEntry.reservedRegion ++ [((0 : Nat), stor1MiB)],
      Aligned r ∧ r.2 ≤ 0x80000000) (hcount : count ≠ 1) (hle : count ≤ 2 ^ 20)
    (hrun : markMemoryMap mmap (zeroed count) = .ok d) : d.count = count := by
  obtain ⟨d₀, out, hd₀, hc₀, -⟩ := markAll_ok hcount hle
  obtain ⟨d₁, hd₁, hc₁, -⟩ := markRegions_ok markRangeUsable_ok _ d₀ (freeRegions_ok mmap)
  obtain ⟨d₂, hd₂, hc₂, -⟩ := markRegions_ok markRangeReserved_ok _ d₁ (reservedRegions_ok hinside)
  rw [markMemoryMap, hd₀] at hrun
  simp only [ok_bind] at hrun
  rw [bootForeachFreePageRegion_eq, hd₁, ok_bind, bootForeachReservedRegion_eq, hd₂] at hrun
  cases hrun
  rw [hc₂, hc₁, hc₀]

section Types

variable {img : Image} {mmap : List MmapEntry} {s : Space} {bump : BumpVars}
  {count first last : Nat} {d : Frames}

theorem kernelRegion_rounded (img : Image) :
    roundPageDown img.kernelBeginPa = (kernelRegion img).1 ∧
      roundPageDown img.kernelEndPa = (kernelRegion img).2 ∧
      (kernelRegion img).1 < (kernelRegion img).2 := by
  refine ⟨(by decide : roundPageDown stor1MiB = stor1MiB),
    Nat.div_mul_cancel (kernelRegion_aligned img).1.2.1, ?_⟩
  obtain ⟨D, K, B, P, E, -, -, -, -, hE, habove, hin, hapart, hstart, hfits⟩ := img.frames
  show stor1MiB < img.imageEnd - 0xBFF00000
  rw [hE]
  unfold stor1MiB pageSize
  omega

theorem initPhysPages_passes
    (hinside : ∀ r ∈ mmap.filterMap MmapEntry.reservedRegion ++ [((0 : Nat), stor1MiB)],
      Aligned r ∧ r.2 ≤ 0x80000000) (hle : count ≤ 2 ^ 20)
    (hrun : initPhysPages img mmap s bump (zeroed count) = .ok d) :
    ∃ d₁ d₂ out₂ d₃ out₃ beginPa endPa, d₃.count = count ∧
      (∀ f, d₁.Unused f ↔ f < count ∧
        (∃ r ∈ mmap.filterMap MmapEntry.freeRegion, InRegion r f) ∧
        ∀ r ∈ mmap.filterMap MmapEntry.reservedRegion ++ [((0 : Nat), stor1MiB)],
          ¬ InRegion r f) ∧
      markRange d₁ (kernelRegion img).1 (kernelRegion img).2 .kernelImg 1 0 = .ok (d₂, out₂) ∧
      virtToPhys s bump.beginAddr = .ok beginPa ∧
      virtToPhys s (sub32 bump.allocAddr pageSize) = .ok endPa ∧
      markRange d₂ (roundPageDown beginPa) (roundPageDown endPa) .pfn 1 0 = .ok (d₃, out₃) ∧
      bootForeachPageStruct markPageStructure img s d₃ = .ok d := by
  have hone : count ≠ 1 := by
    intro hone
    obtain ⟨d₁, hmap, -⟩ := exists_of_bind_eq_ok hrun
    rw [hone, markMemoryMap_single] at hmap
    cases hmap
  obtain ⟨d₁, hmap, hunused⟩ := markMemoryMap_unused hinside hone hle
  have hcount := markMemoryMap_count hinside hone hle hmap
  unfold initPhysPages at hrun
  rw [hmap, ok_bind] at hrun
  obtain ⟨⟨d₂, out₂⟩, hkernel, hrest⟩ := exists_of_bind_eq_ok hrun
  obtain ⟨beginPa, hbegin, hrest⟩ := exists_of_bind_eq_ok hrest
  obtain ⟨endPa, hend, hrest⟩ := exists_of_bind_eq_ok hrest
  obtain ⟨⟨d₃, out₃⟩, hdescs, htables⟩ := exists_of_bind_eq_ok hrest
  have hsize : d₃.count = count :=
    (markRange_count hdescs).trans ((markRange_count hkernel).trans hcount)
  obtain ⟨hbeginKernel, hendKernel, -⟩ := kernelRegion_rounded img
  rw [hbeginKernel, hendKernel] at hkernel
  exact ⟨d₁, d₂, out₂, d₃, out₃, beginPa, endPa, hsize, hunused, hkernel, hbegin, hend, hdescs,
    htables⟩

/-- The unused frames after `init_phys_pages`. -/
theorem initPhysPages_unused
    (hinside : ∀ r ∈ mmap.filterMap MmapEntry.reservedRegion ++ [((0 : Nat), stor1MiB)],
      Aligned r ∧ r.2 ≤ 0x80000000) (hle : count ≤ 2 ^ 20) (hs : Recursive s)
    (hdir : s.entry (img.pageDirectory / pageSize) = s.dir * pageSize + pageEntryWriteKernelFlags)
    (hbegin : bump.beginAddr < 2 ^ 32) (hfirst : walk s bump.beginAddr = .ok first)
    (hend : sub32 bump.allocAddr pageSize < 2 ^ 32)
    (hlast : walk s (sub32 bump.allocAddr pageSize) = .ok last) (hlow : last < 2 ^ 20)
    (hrun : initPhysPages img mmap s bump (zeroed count) = .ok d) (f : Nat) :
    d.Unused f ↔
      (f < count ∧ (∃ r ∈ mmap.filterMap MmapEntry.freeRegion, InRegion r f) ∧
        ∀ r ∈ mmap.filterMap MmapEntry.reservedRegion ++ [((0 : Nat), stor1MiB)],
          ¬ InRegion r f) ∧ ¬ InRegion (kernelRegion img) f ∧ ¬ (first ≤ f ∧ f < last) ∧
      ¬ InUse s f := by
  obtain ⟨d₁, d₂, out₂, d₃, out₃, beginPa, endPa, -, hunused₁, hkernel, hbeginPa, hendPa, hdescs,
    htables⟩ := initPhysPages_passes hinside hle hrun
  obtain ⟨beginPa', hbeginPa', hbeginDown⟩ := virtToPhys_frame hs hbegin hfirst
  obtain ⟨endPa', hendPa', hendDown⟩ := virtToPhys_frame hs hend hlast
  obtain rfl : beginPa = beginPa' := Except.ok.inj (hbeginPa.symm.trans hbeginPa')
  obtain rfl : endPa = endPa' := Except.ok.inj (hendPa.symm.trans hendPa')
  obtain ⟨⟨hstart, hstop, -⟩, himage⟩ := kernelRegion_aligned img
  rw [hbeginDown, hendDown] at hdescs
  have hregion : InRegion (first * pageSize, last * pageSize) f ↔ first ≤ f ∧ f < last := by
    unfold InRegion pageSize
    dsimp only
    omega
  rw [(bootForeachPageStruct_unused hs hdir htables).2 f,
    markRange_unused (Nat.dvd_mul_left _ _) (Nat.dvd_mul_left _ _) (by unfold pageSize; omega)
      (by decide) hdescs,
    markRange_unused hstart hstop (Nat.lt_of_le_of_lt himage (by decide)) (by decide) hkernel,
    hunused₁, hregion, and_assoc, and_assoc]

end Types

theorem walk_tables_returns {p₀ p : Pool} {s : Space} {pa va count : Nat} (pagingFlags : Nat)
    (h : Early p₀ s p) (hpa : pa % pageSize = 0) (hlt : pa < 2 ^ 32) (hva : va % pageSize = 0)
    (hcount : 1 ≤ count) (hrange : va + count * pageSize ≤ 0xFFC00000) :
    ∃ s' p' done, pagingMapPages bitmapAllocPage s p pa va count pagingFlags =
      .ok (s', p', done) := by
  have hfresh : Fresh (fun f => InUse s f ∨ p.bitmap.Free f) p (InUse s) :=
    ⟨fun f hf => ⟨h.apart f hf, .inl hf⟩, fun f hf => .inr hf, fun _ => h.zero⟩
  have hwalk := (bitmapAllocPage_allocator _).pagingMapPages pagingFlags h.recursive hpa hlt hva
    hcount hrange hfresh
  cases hcall : pagingMapPages bitmapAllocPage s p pa va count pagingFlags with
  | error e => exact (hwalk.of_error hcall).elim
  | ok r => exact ⟨r.1, r.2.1, r.2.2, rfl⟩

theorem reserveMapPageRegion_ok {p₀ p : Pool} {s : Space} {d : Frames} (h : Early p₀ s p)
    {r : Nat × Nat} (hr : Aligned r) (hlt : r.1 < r.2) (hend : r.2 ≤ 0x80000000) :
    ∃ s' p' d', reserveMapPageRegion r.1 r.2 (s, p, d) = .ok (s', p', d') ∧ Early p₀ s' p' ∧
      Elsewhere s s' 0 0x80000 ∧ d'.count = d.count ∧
      ∀ f, d'.Unused f ↔ d.Unused f ∧ ¬ InRegion r f := by
  obtain ⟨hdvd₁, hdvd₂, -⟩ := id hr
  have hsub : sub32 r.2 r.1 = r.2 - r.1 := sub32_of_le (by omega) (Nat.le_of_lt hlt)
  have hpages : r.1 + (r.2 - r.1) / pageSize * pageSize = r.2 := by
    rw [Nat.div_mul_cancel (Nat.dvd_sub hdvd₂ hdvd₁)]
    omega
  have hcount : 1 ≤ (r.2 - r.1) / pageSize := by
    by_contra hnone
    have hzero : (r.2 - r.1) / pageSize = 0 := Nat.lt_one_iff.1 (Nat.not_le.1 hnone)
    rw [hzero] at hpages
    omega
  have hmod := Nat.mod_eq_zero_of_dvd hdvd₁
  obtain ⟨s', p', done, hcall⟩ := walk_tables_returns pagingFlagsWritePresent h hmod
    (show r.1 < 2 ^ 32 by omega) hmod hcount (by omega)
  obtain ⟨hs', hused, hfree, hdir, n, hn, hmaps⟩ := walk_tables h.recursive h.apart h.zero hmod
    (by omega) hmod (by omega) hcall
  have helse : Elsewhere s s' 0 0x80000 := by
    apply (elsewhere_of_maps hdir hmaps hn).mono (Nat.zero_le _)
    unfold pageSize at *
    omega
  obtain ⟨d', out, hmark, hsize, -⟩ := markRange_ok d hr hlt (by omega) .reserved 1
    pagingFlagsWritePresent
  have hunused := markRange_unused hdvd₁ hdvd₂ (by omega) (by decide) hmark
  refine ⟨s', p', d', ?_, ⟨hs', fun f hf => (hused f hf).1, fun hf => h.zero (hfree 0 hf),
    fun f hf => h.free f (hfree f hf), fun q hq hhigh hp => ?_⟩, helse, hsize, hunused⟩
  · unfold reserveMapPageRegion pfnMarkRange
    simp only [hsub, hcall, ok_bind, hpages, u32_of_lt (show r.2 < 2 ^ 32 by omega), hmark,
      pure_eq_ok]
  · have hkept : s'.entry q = s.entry q := by
      apply helse.entry q hq
      unfold mmAreaVirt pageSize at hhigh
      omega
    rw [hkept] at hp ⊢
    obtain ⟨hwas, hnot, hnone⟩ := h.high q hq hhigh hp
    exact ⟨hwas, fun hf => hnot (hfree _ hf), fun hu => (hused _ hu).2.elim hnone hnot⟩

theorem reserveRegions_ok {p₀ : Pool} : ∀ (rs : List (Nat × Nat)) {s : Space} {p : Pool}
    {d : Frames}, (∀ r ∈ rs, Aligned r ∧ r.1 < r.2 ∧ r.2 ≤ 0x80000000) → Early p₀ s p →
    ∃ s' p' d', rs.foldlM (fun x r => reserveMapPageRegion r.1 r.2 x) (s, p, d) =
        .ok (s', p', d') ∧ Early p₀ s' p' ∧ Elsewhere s s' 0 0x80000 ∧ d'.count = d.count ∧
      ∀ f, d'.Unused f ↔ d.Unused f ∧ ∀ r ∈ rs, ¬ InRegion r f := by
  intro rs
  induction rs with
  | nil =>
    intro s p d _ h
    exact ⟨s, p, d, rfl, h, .refl _ _ _, rfl, fun f => (and_iff_left nofun).symm⟩
  | cons r rs ih =>
    intro s p d hrs h
    obtain ⟨hr, hlt, hend⟩ := hrs r List.mem_cons_self
    obtain ⟨s₁, p₁, d₁, hfirst, h₁, helse₁, hsize₁, hunused₁⟩ :=
      reserveMapPageRegion_ok (d := d) h hr hlt hend
    obtain ⟨s', p', d', hrest, h', helse, hsize, hunused⟩ :=
      ih (d := d₁) (fun q hq => hrs q (List.mem_cons_of_mem r hq)) h₁
    refine ⟨s', p', d', ?_, h', helse₁.trans helse, hsize.trans hsize₁, fun f => ?_⟩
    · rw [List.foldlM_cons, hfirst]
      exact hrest
    · rw [hunused, hunused₁, List.forall_mem_cons, and_assoc]

/-! ## What is left to the frame allocator -/

section HandOver

variable {img : Image} {mmap : List MmapEntry} {s s₁ s' : Space} {p p₁ p' : Pool} {d : Frames}
  {bump : BumpVars} {freeCount allocAddr : Nat}

/-- The bitmap starts with the frames that are declared free, in no reserved region and not in
the image. -/
theorem bitmap_free_iff (hp : initBitmapPhysAllocator img mmap = .ok p) :
    getMaxMemory mmap / pageSize ≤ pagesArrSize ∧
      (∀ r ∈ mmap.filterMap MmapEntry.reservedRegion ++ [((0 : Nat), stor1MiB)],
        Aligned r ∧ r.2 ≤ 0x80000000) ∧
      ∀ f, p.bitmap.Free f ↔
        (f < getMaxMemory mmap / pageSize ∧
          (∃ r ∈ mmap.filterMap MmapEntry.freeRegion, InRegion r f) ∧
          ∀ r ∈ mmap.filterMap MmapEntry.reservedRegion ++ [((0 : Nat), stor1MiB)],
            ¬ InRegion r f) ∧ ¬ InRegion (kernelRegion img) f := by
  obtain ⟨hfits, hends⟩ := (init_inBounds_iff img mmap).1 (by rw [hp]; exact fun h => by cases h)
  obtain ⟨p', hp', -, -, hbits⟩ := initBitmapPhysAllocator_ok img hfits hends
  obtain rfl : p = p' := Except.ok.inj (hp.symm.trans hp')
  refine ⟨hfits, reservedRegions_inside hfits, fun f => ?_⟩
  rw [hbits, ← and_assoc, ← and_assoc]
  refine and_congr_left fun _ => and_congr_left fun hreserved => ?_
  have hlow : stor1MiB ≤ f * pageSize := by
    by_contra hlt
    exact hreserved (0, stor1MiB) (List.mem_append_right _ List.mem_cons_self)
      ⟨Nat.zero_le _, Nat.not_le.1 hlt⟩
  constructor
  · intro h
    obtain ⟨pa, hpa, rfl⟩ := h
    obtain ⟨e, he, hpa⟩ := List.mem_flatMap.1 hpa
    obtain ⟨hav, hwindow⟩ := window_of_freePages hpa
    obtain ⟨-, hge, hlt⟩ := mem_window.1 hwindow
    exact freeRegion_of_page he hpa (le_roundPageUp (hends e he hav (by omega))).1
  · intro h
    obtain ⟨-, r, hr, hrf⟩ := h
    obtain ⟨e, he, hr⟩ := List.mem_filterMap.1 hr
    unfold MmapEntry.freeRegion at hr
    split_ifs at hr with hfree
    obtain ⟨hav, -⟩ := hfree
    cases hr
    refine ⟨f * pageSize, List.mem_flatMap.2 ⟨e, he, ?_⟩,
      (Nat.mul_div_cancel f (by decide)).symm⟩
    rw [MmapEntry.freePages, if_pos hav, mem_pagesOf (dvd_max_stor1MiB _) (dvd_roundPageDown _)]
    exact ⟨Nat.dvd_mul_left _ _, Nat.max_le.2 ⟨hrf.1, hlow⟩, hrf.2⟩

theorem early_boot (hboot : Booted img s) (hp : initBitmapPhysAllocator img mmap = .ok p) :
    Early p s p := by
  refine ⟨hboot.recursive, booted_apart hp hboot, fun hzero => ?_, fun _ hf => hf,
    fun q hq hhigh hpq => ?_⟩
  · obtain ⟨-, -, hfree⟩ := bitmap_free_iff hp
    exact ((hfree 0).1 hzero).1.2.2 (0, stor1MiB) (List.mem_append_right _ List.mem_cons_self)
      ⟨Nat.zero_le _, by decide⟩
  · have hnone : present (s.pde (q / 1024)) = false := by
      apply hboot.noTable
      · unfold mmAreaVirt pageSize at hhigh
        omega
      · omega
    rw [Space.entry, hnone] at hpq
    cases hpq

theorem placeDescriptors_ok (hboot : Booted img s)
    (hp : initBitmapPhysAllocator img mmap = .ok p)
    (hrun : placeDescriptors mmap s p mmAreaVirt = .ok (s₁, p₁, bump)) :
    Early p s₁ p₁ ∧ Elsewhere s s₁ (mmAreaVirt / pageSize) 0x100004 ∧
      bump.allocAddr = mmAreaVirt + getMaxMemory mmap / pageSize * pageDescSize ∧
      bump.beginAddr = mmAreaVirt ∧
      ∀ i < getMaxMemory mmap / pageSize * 9, ∃ f, walk s₁ (mmAreaVirt + 4 * i) = .ok f := by
  obtain ⟨hfits, -, -⟩ := bitmap_free_iff hp
  have hsize : getMaxMemory mmap / pageSize * pageDescSize < 0x10000000 := by
    have harray : pagesArrSize = 65536 := by decide
    unfold pageDescSize
    omega
  have hwords : getMaxMemory mmap / pageSize * pageDescSize / 4 =
      getMaxMemory mmap / pageSize * 9 := by
    unfold pageDescSize
    omega
  have hbytes : u32 (getMaxMemory mmap / pageSize * pageDescSize) =
      getMaxMemory mmap / pageSize * pageDescSize := u32_of_lt (by omega)
  unfold placeDescriptors at hrun
  simp only [hbytes] at hrun
  obtain ⟨⟨s₂, p₂, bump₂⟩, hbump, hrest⟩ := exists_of_bind_eq_ok hrun
  obtain ⟨h₂, helse₂, rfl⟩ := initBump_ok (early_boot hboot hp) hbump
  obtain ⟨⟨s₃, p₃, bump₃, descs⟩, halloc, hrest⟩ := exists_of_bind_eq_ok hrest
  obtain ⟨h₃, helse₃, rfl, haddr, hbegin⟩ := bumpAllocAlign_ok h₂ hsize halloc
  obtain ⟨u, hmemset, hret⟩ := exists_of_bind_eq_ok hrest
  cases hret
  rw [hwords] at hmemset
  exact ⟨h₃, (helse₂.mono (Nat.le_refl _) (by decide)).trans helse₃, haddr, hbegin,
    fun i hi => memsetWalk_ok _ hmemset hi⟩

theorem directory_kept (hboot : Booted img s) (hp : initBitmapPhysAllocator img mmap = .ok p)
    (hrun : placeDescriptors mmap s p mmAreaVirt = .ok (s₁, p₁, bump)) :
    s₁.entry (img.pageDirectory / pageSize) = s₁.dir * pageSize + pageEntryWriteKernelFlags ∧
      256 ≤ s₁.dir := by
  obtain ⟨-, helse, -⟩ := placeDescriptors_ok hboot hp hrun
  obtain ⟨D, K, B, P, E, hD, -, -, -, -, -, hin, -⟩ := img.frames
  have hpage : img.pageDirectory / pageSize < 0x400 := by
    rw [hD, Nat.mul_div_cancel _ (show 0 < pageSize by decide)]
    omega
  have hkept : s₁.entry (img.pageDirectory / pageSize) =
      s.entry (img.pageDirectory / pageSize) := by
    apply helse.entry _ (by omega)
    unfold mmAreaVirt pageSize at *
    omega
  have hge := (hboot.inBoot s.dir (dir_inUse hboot.recursive)).1
  rw [hkept, hboot.directory, helse.dir]
  refine ⟨rfl, ?_⟩
  unfold stor1MiB pageSize at hge
  omega

theorem lastPage_addr {n addr : Nat} (hn : 257 ≤ n) (hle : n ≤ pagesArrSize)
    (haddr : addr = mmAreaVirt + n * pageDescSize) :
    mmAreaVirt + pageSize ≤ addr ∧ addr < 0xE0000000 ∧ sub32 addr pageSize = addr - pageSize ∧
      addr - pageSize = mmAreaVirt + 4 * (n * 9 - 1024) := by
  have hsub := @sub32_of_le addr pageSize
  unfold mmAreaVirt pagesArrSize pageSize pageDescSize at *
  omega

/-- What `init_pfn_descriptors` leaves: the descriptors stay mapped, and no type changes after the
free list is built. -/
theorem initPfnDescriptors_ok (hboot : Booted img s)
    (hp : initBitmapPhysAllocator img mmap = .ok p)
    (hrun : initPfnDescriptors img mmap s p mmAreaVirt = .ok (s', p', d, freeCount, allocAddr)) :
    ∃ s₁ p₁ bump first last, placeDescriptors mmap s p mmAreaVirt = .ok (s₁, p₁, bump) ∧
      walk s' mmAreaVirt = .ok first ∧ walk s' (allocAddr - pageSize) = .ok last ∧
      Early p s₁ p₁ ∧ Early p s' p' ∧ mmAreaVirt + pageSize ≤ allocAddr ∧
      allocAddr < 0xE0000000 ∧
      (∀ va, mmAreaVirt ≤ va → va < 0xE0000000 → walk s' va = walk s₁ va) ∧
      ∀ f, d.Unused f ↔ p.bitmap.Free f ∧ ¬ (first ≤ f ∧ f < last) ∧ ¬ InUse s₁ f := by
  obtain ⟨⟨s₁, p₁, bump⟩, hplace, hrest⟩ := exists_of_bind_eq_ok hrun
  obtain ⟨d₁, hphys, hrest⟩ := exists_of_bind_eq_ok hrest
  obtain ⟨⟨s₂, p₂, d₂, n⟩, hframes, hret⟩ := exists_of_bind_eq_ok hrest
  cases hret
  obtain ⟨h₁, helse₁, halloc, hbegin, hwalks⟩ := placeDescriptors_ok hboot hp hplace
  obtain ⟨hfits, hinside, hfree⟩ := bitmap_free_iff hp
  obtain ⟨hdir, hlow⟩ := directory_kept hboot hp hplace
  have harray : pagesArrSize = 65536 := by decide
  have hsmall : getMaxMemory mmap / pageSize ≤ 2 ^ 20 := by omega
  have hcount : 257 ≤ getMaxMemory mmap / pageSize := by
    obtain ⟨-, -, -, d₃, -, -, -, hsize, -, -, -, -, -, htables⟩ :=
      initPhysPages_passes hinside hsmall hphys
    have hlt := (bootForeachPageStruct_unused h₁.recursive hdir htables).1
    rw [hsize] at hlt
    omega
  obtain ⟨first, hfirst⟩ := hwalks 0 (by omega)
  obtain ⟨hroom, hbound, hsub, haddr⟩ := lastPage_addr hcount hfits halloc
  obtain ⟨last, hlast⟩ := hwalks (getMaxMemory mmap / pageSize * 9 - 1024) (by omega)
  rw [← haddr] at hlast
  rw [Nat.mul_zero, Nat.add_zero] at hfirst
  have hbelow : ∀ va f, va < 0xE0000000 → mmAreaVirt ≤ va → walk s₁ va = .ok f → f < 2 ^ 20 := by
    intro va f hva hge hwalk
    have hlt := (h₁.walked hge hva hwalk).1.lt
    omega
  have hwalkBegin : walk s₁ bump.beginAddr = .ok first := by rw [hbegin]; exact hfirst
  rw [← hsub] at hlast
  have hunused₁ := initPhysPages_unused hinside hsmall h₁.recursive hdir
    (by rw [hbegin]; decide) hwalkBegin (by rw [hsub]; omega) hlast
    (hbelow _ _ (by rw [hsub]; omega) (by rw [hsub, haddr]; exact Nat.le_add_right _ _) hlast) hphys
  unfold initFrameAllocator at hframes
  obtain ⟨s₂, p₂, d₂, hregions, h₂, helse₂, -, hunused₂⟩ := reserveRegions_ok (d := d₁) _
    (fun r hr => ⟨(hinside r hr).1, (reservedRegions_ok hinside r hr).2.1, (hinside r hr).2⟩) h₁
  rw [bootForeachReservedRegion_eq, hregions, ok_bind] at hframes
  obtain ⟨d₃, n₃, L, hbuild, -, -, hsame⟩ := buildFreeList_listed d₂
  simp only [hbuild, ok_bind] at hframes
  cases hframes
  have hkept : ∀ va, mmAreaVirt ≤ va → va < 0xE0000000 → walk s' va = walk s₁ va := by
    intro va hge hva
    rw [walk_eq_entry, walk_eq_entry, helse₂.entry]
    · unfold pageSize
      omega
    · unfold mmAreaVirt pageSize at *
      omega
  refine ⟨s₁, p₁, bump, first, last, hplace, ?_, ?_, h₁, h₂, hroom, hbound, hkept, fun f => ?_⟩
  · rw [hkept mmAreaVirt (Nat.le_refl _) (by decide)]
    exact hfirst
  · rw [hkept _ (by rw [haddr]; exact Nat.le_add_right _ _) (by omega), ← hsub]
    exact hlast
  · -- the regions that are mapped now were reserved before
    rw [hsame.unused, hunused₂, hunused₁, hfree]
    exact (and_iff_left_of_imp fun h => h.1.2.2).trans and_assoc.symm

theorem initPfnDescriptors_listed
    (hrun : initPfnDescriptors img mmap s p mmAreaVirt = .ok (s', p', d, freeCount, allocAddr)) :
    ∃ L, Chain d L ∧ Listed d d.Unused L := by
  obtain ⟨⟨s₁, p₁, bump⟩, -, hrest⟩ := exists_of_bind_eq_ok hrun
  obtain ⟨d₁, -, hrest⟩ := exists_of_bind_eq_ok hrest
  obtain ⟨⟨s₂, p₂, d₂, n⟩, hframes, hret⟩ := exists_of_bind_eq_ok hrest
  cases hret
  obtain ⟨⟨s₃, p₃, d₃⟩, -, hlist⟩ := exists_of_bind_eq_ok hframes
  obtain ⟨d₄, n₄, L, hbuild, hchain, hlisted, -⟩ := buildFreeList_listed d₃
  simp only [hbuild, ok_bind] at hlist
  cases hlist
  exact ⟨L, hchain, hlisted⟩

/-- The call returns where the last page of the descriptors has a higher frame than the first one
and every table has a descriptor. -/
theorem initPfnDescriptors_returns {first last : Nat} (hboot : Booted img s)
    (hp : initBitmapPhysAllocator img mmap = .ok p)
    (hplace : placeDescriptors mmap s p mmAreaVirt = .ok (s₁, p₁, bump))
    (hfirst : walk s₁ mmAreaVirt = .ok first)
    (hlast : walk s₁ (bump.allocAddr - pageSize) = .ok last) (hlt : first < last)
    (htables : ∀ f, InUse s₁ f → f < getMaxMemory mmap / pageSize) :
    ∃ s' p' d n, initPfnDescriptors img mmap s p mmAreaVirt =
      .ok (s', p', d, n, bump.allocAddr) := by
  obtain ⟨h₁, -, halloc, hbegin, -⟩ := placeDescriptors_ok hboot hp hplace
  obtain ⟨hfits, hinside, -⟩ := bitmap_free_iff hp
  obtain ⟨hdir, hlow⟩ := directory_kept hboot hp hplace
  have harray : pagesArrSize = 65536 := by decide
  have hcount : 257 ≤ getMaxMemory mmap / pageSize := by
    have := htables _ (dir_inUse h₁.recursive)
    omega
  obtain ⟨hroom, hbound, hsub, -⟩ := lastPage_addr hcount hfits halloc
  have hlastLow := (h₁.walked (by omega) (by omega) hlast).1.lt
  obtain ⟨beginPa, hbeginPa, hbeginDown⟩ := virtToPhys_frame h₁.recursive (by decide) hfirst
  obtain ⟨endPa, hendPa, hendDown⟩ :=
    virtToPhys_frame h₁.recursive (show bump.allocAddr - pageSize < 2 ^ 32 by omega) hlast
  -- the four passes over the types
  obtain ⟨d₁, hmap, -⟩ := @markMemoryMap_unused _ hinside (getMaxMemory mmap / pageSize) (by omega)
    (by omega)
  have hsize₁ := markMemoryMap_count hinside (by omega) (by omega) hmap
  obtain ⟨himage, hend⟩ := kernelRegion_aligned img
  obtain ⟨hbeginKernel, hendKernel, hpos⟩ := kernelRegion_rounded img
  obtain ⟨d₂, out₂, hkernel, hsize₂, -⟩ := markRange_ok d₁ himage hpos (by omega) .kernelImg 1 0
  obtain ⟨d₃, out₃, hdescs, hsize₃, -⟩ := @markRange_ok d₂ (first * pageSize, last * pageSize)
    ⟨Nat.dvd_mul_left _ _, Nat.dvd_mul_left _ _, Nat.mul_le_mul_right _ (Nat.le_of_lt hlt)⟩
    (Nat.mul_lt_mul_of_pos_right hlt (by decide)) (by unfold pageSize; dsimp only; omega) .pfn 1 0
  obtain ⟨d₄, hstructs⟩ := @bootForeachPageStruct_returns img s₁ d₃ h₁.recursive hdir
    (by rw [hsize₃, hsize₂, hsize₁]; exact htables)
  have hphys : initPhysPages img mmap s₁ bump (zeroed (getMaxMemory mmap / pageSize)) = .ok d₄ := by
    rw [initPhysPages, hmap, ok_bind, hbeginKernel, hendKernel, hkernel]
    simp only [ok_bind, hbegin, hbeginPa, hsub, hendPa, hbeginDown, hendDown, hdescs, hstructs]
  obtain ⟨s₂, p₂, d₅, hregions, -⟩ := reserveRegions_ok (d := d₄) _
    (fun r hr => ⟨(hinside r hr).1, (reservedRegions_ok hinside r hr).2.1, (hinside r hr).2⟩) h₁
  obtain ⟨d₆, n, L, hbuild, -⟩ := buildFreeList_listed d₅
  refine ⟨s₂, p₂, d₆, n, ?_⟩
  rw [initPfnDescriptors, hplace, ok_bind]
  simp only [hphys, ok_bind, initFrameAllocator, bootForeachReservedRegion_eq, hregions, hbuild,
    pure_eq_ok]

end HandOver

/-- 768 KiB after the first MiB. -/
def upperMemory : List MmapEntry := [⟨0x100000#32, 0#32, 0xC0000#32, 0#32, 1#32⟩]

theorem upperMemory_placed : ∃ s p s₁ p₁ bump, Booted smallImage s ∧
    initBitmapPhysAllocator smallImage upperMemory = .ok p ∧
    placeDescriptors upperMemory s p mmAreaVirt = .ok (s₁, p₁, bump) ∧
    walk s₁ mmAreaVirt = .ok 323 ∧ walk s₁ (bump.allocAddr - pageSize) = .ok 325 ∧
    ∀ f, InUse s₁ f → f < getMaxMemory upperMemory / pageSize := by
  obtain ⟨s, -, hboot⟩ := initPaging_booted smallImage fun _ _ => 0
  obtain ⟨p, hp, hhint, -, -⟩ := initBitmapPhysAllocator_ok smallImage
    (show getMaxMemory upperMemory / pageSize ≤ pagesArrSize by decide +kernel)
    (show EndsCounted upperMemory by decide +kernel)
  obtain ⟨-, -, hbits⟩ := bitmap_free_iff hp
  have hcount : getMaxMemory upperMemory / pageSize = 448 := by decide +kernel
  have hfreeRegion : upperMemory.filterMap MmapEntry.freeRegion = [(0x100000, 0x1C0000)] := by
    decide +kernel
  have hreserved : upperMemory.filterMap MmapEntry.reservedRegion = [] := by decide +kernel
  have hkernel : kernelRegion smallImage = (0x100000, 0x143000) := by decide +kernel
  have hfree : ∀ f, p.bitmap.Free f ↔ 323 ≤ f ∧ f < 448 := by
    intro f
    rw [hbits, hcount, hfreeRegion, hreserved, hkernel, List.nil_append, List.forall_mem_singleton]
    simp only [List.mem_singleton, exists_eq_left]
    unfold InRegion stor1MiB pageSize
    omega
  obtain ⟨s₁, p₀, p₁, done, hrun, htaken, hmapped⟩ := @earlyAllocAndMap_returns s p mmAreaVirt 4 323
    pagingFlagsReadWrite hboot.recursive (booted_apart hp hboot) (by decide) (by decide) (by decide)
    (by rw [hhint]; decide) (fun f _ hlt hf => by have := (hfree f).1 hf; omega)
    (fun f hge hlt => (hfree f).2 (by omega))
  have hmissing : missingTables s mmAreaVirt 4 = 1 := by
    have habsent : Paging.present (s.pde (getPdeIndex mmAreaVirt)) = false :=
      hboot.noTable _ (by decide) (by decide)
    rw [missingTables, show (getPteIndex mmAreaVirt + 4 + 1023) / 1024 = 1 by decide, missing,
      habsent]
    rfl
  have hleft : 0 < p₀.freeCount := by
    apply Finset.card_pos.2
    refine ⟨327, mem_reachable.2 ⟨?_, (htaken.free 327).2 ⟨(hfree 327).2 (by decide), by decide⟩⟩⟩
    rw [htaken.hint, hhint]
    decide
  cases hdone : done with
  | false =>
    have := (hmapped.short hdone).2.1
    omega
  | true =>
    obtain ⟨hentries, -⟩ := hmapped.all hdone
    have hwalks : ∀ va, mmAreaVirt ≤ va → va < mmAreaVirt + 4 * pageSize →
        walk s₁ va = .ok (323 + (va / pageSize - mmAreaVirt / pageSize)) := by
      intro va hge hlt
      have hpage : ∃ i, i < 4 ∧ va / pageSize = mmAreaVirt / pageSize + i :=
        ⟨va / pageSize - mmAreaVirt / pageSize, by unfold mmAreaVirt pageSize at *; omega,
          by unfold mmAreaVirt pageSize at *; omega⟩
      obtain ⟨i, hi, hva⟩ := hpage
      obtain ⟨hpresent, hframe⟩ := hentries i hi
      rw [walk_eq_entry, hva, if_pos hpresent, hframe, Nat.add_sub_cancel_left]
    have hinit : initBump s p mmAreaVirt =
        .ok (s₁, p₁, ⟨mmAreaVirt + 4 * pageSize, mmAreaVirt, mmAreaVirt⟩) := by
      rw [initBump, show roundPageUp initSize / pageSize = 4 by decide, hrun, ok_bind]
      rfl
    have hmemset : memsetWalk s₁ 4032 mmAreaVirt = .ok () := by
      apply memsetWalk_returns
      intro i hi
      exact ⟨_, hwalks _ (Nat.le_add_right _ _) (by unfold pageSize; omega)⟩
    have halloc : bumpAllocAlign s₁ p₁ ⟨mmAreaVirt + 4 * pageSize, mmAreaVirt, mmAreaVirt⟩ 16128 0 =
        .ok (s₁, p₁, ⟨mmAreaVirt + 4 * pageSize, mmAreaVirt + 16128, mmAreaVirt⟩, mmAreaVirt) := rfl
    have hfirst : walk s₁ mmAreaVirt = .ok 323 := by
      rw [hwalks _ (Nat.le_refl _) (by decide), Nat.sub_self]
    have hlast : walk s₁ (mmAreaVirt + 16128 - pageSize) = .ok 325 := by
      rw [hwalks _ (by decide) (by decide),
        show (mmAreaVirt + 16128 - pageSize) / pageSize - mmAreaVirt / pageSize = 2 by decide]
    refine ⟨s, p, s₁, p₁, ⟨mmAreaVirt + 4 * pageSize, mmAreaVirt + 16128, mmAreaVirt⟩, hboot, hp,
      ?_, hfirst, hlast, fun f hf => ?_⟩
    · have hbytes : u32 (448 * pageDescSize) = 16128 := by decide
      have hwords : 16128 / 4 = 4032 := by decide
      rw [placeDescriptors, hinit, ok_bind, hcount]
      simp only [hbytes, halloc, ok_bind, hwords, hmemset, pure_eq_ok]
    · rw [hcount]
      cases hmapped.used f hf with
      | inl hold =>
        have hlt : f * pageSize < 0x143000 := (hboot.inBoot f hold).2
        unfold pageSize at hlt
        omega
      | inr htable => exact ((hfree f).1 ((htaken.free f).1 htable).1).2

theorem upperMemory_handedOver : ∃ s p s' p' d n allocAddr, Booted smallImage s ∧
    initBitmapPhysAllocator smallImage upperMemory = .ok p ∧
    initPfnDescriptors smallImage upperMemory s p mmAreaVirt = .ok (s', p', d, n, allocAddr) := by
  obtain ⟨s, p, s₁, p₁, bump, hboot, hp, hplace, hfirst, hlast, htables⟩ := upperMemory_placed
  obtain ⟨s', p', d, n, hrun⟩ := initPfnDescriptors_returns hboot hp hplace hfirst hlast (by decide)
    htables
  exact ⟨s, p, s', p', d, n, bump.allocAddr, hboot, hp, hrun⟩

section

variable {img : Image} {mmap : List MmapEntry} {s s' : Space} {p p' : Pool} {d : Frames}
  {freeCount allocAddr : Nat}

/-- After `init_pfn_descriptors` the unused frames are those that were free in the bitmap, without
those from the first page of the descriptors up to their last page, and without the page tables
there were when the types were set. -/
theorem initPfnDescriptors_unused (hboot : Booted img s)
    (hp : initBitmapPhysAllocator img mmap = .ok p)
    (hrun : initPfnDescriptors img mmap s p mmAreaVirt = .ok (s', p', d, freeCount, allocAddr)) :
    ∃ s₁ p₁ bump first last, placeDescriptors mmap s p mmAreaVirt = .ok (s₁, p₁, bump) ∧
      walk s' mmAreaVirt = .ok first ∧ walk s' (allocAddr - pageSize) = .ok last ∧
      ∀ f, d.Unused f ↔ p.bitmap.Free f ∧ ¬ (first ≤ f ∧ f < last) ∧ ¬ InUse s₁ f := by
  obtain ⟨s₁, p₁, bump, first, last, hplace, hfirst, hlast, -, -, -, -, -, hunused⟩ :=
    initPfnDescriptors_ok hboot hp hrun
  exact ⟨s₁, p₁, bump, first, last, hplace, hfirst, hlast, hunused⟩

theorem upperMemory_unused : ∃ s p s' p' d freeCount allocAddr,
    initPfnDescriptors smallImage upperMemory s p mmAreaVirt =
      .ok (s', p', d, freeCount, allocAddr) ∧
    ∃ s₁ p₁ bump first last, placeDescriptors upperMemory s p mmAreaVirt = .ok (s₁, p₁, bump) ∧
      walk s' mmAreaVirt = .ok first ∧ walk s' (allocAddr - pageSize) = .ok last ∧
      ∀ f, d.Unused f ↔ p.bitmap.Free f ∧ ¬ (first ≤ f ∧ f < last) ∧ ¬ InUse s₁ f := by
  obtain ⟨s, p, s', p', d, freeCount, allocAddr, hboot, hp, hrun⟩ := upperMemory_handedOver
  exact ⟨s, p, s', p', d, freeCount, allocAddr, hrun, initPfnDescriptors_unused hboot hp hrun⟩

/-- A page of the descriptors is on the free list: its frame was taken from the bitmap, an
address of the descriptors is mapped to it, and it is in a run of the list. -/
theorem descriptors_on_freeList (hboot : Booted img s)
    (hp : initBitmapPhysAllocator img mmap = .ok p)
    (hrun : initPfnDescriptors img mmap s p mmAreaVirt = .ok (s', p', d, freeCount, allocAddr)) :
    ∃ last, walk s' (allocAddr - pageSize) = .ok last ∧ p.bitmap.Free last ∧
      ¬ p'.bitmap.Free last ∧ ∃ L, Chain d L ∧ Listed d d.Unused L ∧
        ∃ i c, i ∈ L ∧ Stretch d.Unused i c ∧ i ≤ last ∧ last < i + c := by
  obtain ⟨s₁, p₁, bump, first, last, -, -, hlast, h₁, h', hroom, hbound, hkept, hunused⟩ :=
    initPfnDescriptors_ok hboot hp hrun
  have hwalk := hlast
  rw [hkept _ (by omega) (by omega)] at hwalk
  obtain ⟨hwas, -, hnone⟩ := h₁.walked (by omega) (by omega) hwalk
  obtain ⟨-, hnot, -⟩ := h'.walked (by omega) (by omega) hlast
  obtain ⟨L, hchain, hlisted⟩ := initPfnDescriptors_listed hrun
  -- the last page is the end that is not marked, and no table
  have hlisted' := (hunused _).2 ⟨hwas, fun h => Nat.lt_irrefl _ h.2, hnone⟩
  obtain ⟨i, c, hrun', hle, hlt⟩ := exists_stretch_mem (fun j hj => hj.1) hlisted'
  exact ⟨last, hlast, hwas, hnot, L, hchain, hlisted, i, c, (hlisted.nodes i).2 ⟨c, hrun'⟩, hrun',
    hle, hlt⟩

theorem upperMemory_on_freeList : ∃ s p s' p' d freeCount allocAddr,
    initPfnDescriptors smallImage upperMemory s p mmAreaVirt =
      .ok (s', p', d, freeCount, allocAddr) ∧
    ∃ last, walk s' (allocAddr - pageSize) = .ok last ∧ p.bitmap.Free last ∧
      ¬ p'.bitmap.Free last ∧ ∃ L, Chain d L ∧ Listed d d.Unused L ∧
        ∃ i c, i ∈ L ∧ Stretch d.Unused i c ∧ i ≤ last ∧ last < i + c := by
  obtain ⟨s, p, s', p', d, freeCount, allocAddr, hboot, hp, hrun⟩ := upperMemory_handedOver
  exact ⟨s, p, s', p', d, freeCount, allocAddr, hrun, descriptors_on_freeList hboot hp hrun⟩

end

end X86Kernel.Manager
