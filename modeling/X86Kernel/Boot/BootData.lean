import X86Kernel.Core
import Mathlib.Data.List.Basic

/- The memory map of the boot loader (`kernel/arch/i386/boot/boot_data.c`): the walks over
   its entries that tell the kernel which memory it may use.

   An entry has a 64-bit address and a 64-bit length, each as two halves; the walks read the
   low halves only and add them in 32 bits.

   What is proved: each walk is a fold of its callback over a list of pages or ranges that
   the entries alone determine (`bootForeachFreePage_eq` and the two after it). With that,
   what is declared free is memory of available entries exactly if this is so for the
   windows that entries near or above 4 GiB are cut down to (`declared_free_iff`). An entry
   that starts lower is safe, also when its end is cut off.

   A callback is a function on a state `σ` of its own that may fault. The map is the list
   of its entries; that it is laid out in memory with a `size` before each entry is not
   modelled.

   Correspondence (C ↔ Lean):
     `multiboot_memory_map_t`        ↔ `MmapEntry`
     `get_max_memory`                ↔ `getMaxMemory`
     `boot_foreach_free_page`        ↔ `bootForeachFreePage` (`foreachPage`)
     `boot_foreach_free_page_region` ↔ `bootForeachFreePageRegion`
     `boot_foreach_reserved_region`  ↔ `bootForeachReservedRegion` -/
namespace X86Kernel.Boot

/-- `multiboot_memory_map_t`, without the `size` that leads to the next one. -/
structure MmapEntry where
  addrLow : BitVec 32
  addrHigh : BitVec 32
  lenLow : BitVec 32
  lenHigh : BitVec 32
  type : BitVec 32
  deriving DecidableEq, Repr

def multibootMemoryAvailable : BitVec 32 := 1#32

def stor1MiB : Nat := 0x00100000

variable {σ : Type}

/-! ## The walks -/

/-- `mmap->addr_low + mmap->len_low`. -/
def MmapEntry.endLow (e : MmapEntry) : Nat := u32 (e.addrLow.toNat + e.lenLow.toNat)

/-- `get_max_memory`. -/
def getMaxMemory (mmap : List MmapEntry) : Nat :=
  mmap.foldl (fun maxMemory e => max maxMemory (roundPageUp e.endLow)) 0

/-- `while (low < high) { callback(low); low += PAGE_SIZE; }`. -/
def foreachPage (callback : Nat → σ → Kernel σ) : Nat → Nat → Nat → σ → Kernel σ
  | 0, _, _, _ => .error .diverges
  | fuel + 1, low, high, s =>
    if low < high then do
      let s ← callback low s
      foreachPage callback fuel (u32 (low + pageSize)) high s
    else .ok s

/-- More turns than 32-bit addresses have pages. -/
def pageTurns : Nat := 2 ^ 20 + 1

/-- `boot_foreach_free_page`. -/
def bootForeachFreePage (callback : Nat → σ → Kernel σ) : List MmapEntry → σ → Kernel σ
  | [], s => .ok s
  | e :: mmap, s =>
    let low := roundPageUp e.addrLow.toNat
    let high := roundPageDown e.endLow
    if e.type ≠ multibootMemoryAvailable ∨ high ≤ low then bootForeachFreePage callback mmap s
    else if high ≤ stor1MiB then bootForeachFreePage callback mmap s
    else do
      let low := if low < stor1MiB then stor1MiB else low
      let s ← foreachPage callback pageTurns low high s
      bootForeachFreePage callback mmap s

/-- `boot_foreach_free_page_region`. -/
def bootForeachFreePageRegion (callback : Nat → Nat → σ → Kernel σ) :
    List MmapEntry → σ → Kernel σ
  | [], s => .ok s
  | e :: mmap, s => do
    let low := roundPageUp e.addrLow.toNat
    let high := roundPageDown e.endLow
    let s ← if e.type = multibootMemoryAvailable ∧ low < high then callback low high s else .ok s
    bootForeachFreePageRegion callback mmap s

/-- `boot_foreach_reserved_region`. -/
def bootForeachReservedRegion (callback : Nat → Nat → σ → Kernel σ) :
    List MmapEntry → σ → Kernel σ
  | [], s => callback 0 stor1MiB s
  | e :: mmap, s =>
    let low := roundPageDown e.addrLow.toNat
    let high := roundPageUp e.endLow
    if e.type = multibootMemoryAvailable ∨ high ≤ low then
      bootForeachReservedRegion callback mmap s
    else if high ≤ stor1MiB then bootForeachReservedRegion callback mmap s
    else do
      let s ← if low < stor1MiB then callback stor1MiB high s else callback low high s
      bootForeachReservedRegion callback mmap s

/-! ## Rounding -/

theorem dvd_roundPageDown (addr : Nat) : pageSize ∣ roundPageDown addr :=
  Nat.dvd_mul_left pageSize (addr / pageSize)

theorem dvd_roundPageUp (addr : Nat) : pageSize ∣ roundPageUp addr :=
  Nat.dvd_mul_left pageSize _

theorem roundPageDown_le (addr : Nat) : roundPageDown addr ≤ addr :=
    Nat.div_mul_le_self addr pageSize

theorem endLow_lt (e : MmapEntry) : e.endLow < 2 ^ 32 := Nat.mod_lt _ (by decide)

theorem le_roundPageUp {addr : Nat} (h : addr ≤ 2 ^ 32 - pageSize) :
    addr ≤ roundPageUp addr ∧ roundPageUp addr < addr + pageSize := by
  have hlt : addr + pageSize - 1 < 2 ^ 32 := by
    unfold pageSize at *
    omega
  rw [roundPageUp, u32_of_lt hlt]
  unfold pageSize
  omega

theorem roundPageUp_lt (addr : Nat) : roundPageUp addr < 2 ^ 32 := by
  have hlt : u32 (addr + pageSize - 1) < 2 ^ 32 := Nat.mod_lt _ (by decide)
  exact lt_of_le_of_lt (Nat.div_mul_le_self _ _) hlt

/-! ## The highest end -/

theorem le_getMaxMemory {mmap : List MmapEntry} {e : MmapEntry} (he : e ∈ mmap) :
    roundPageUp e.endLow ≤ getMaxMemory mmap := by
  have hgen : ∀ (mmap : List MmapEntry) (m : Nat), m ≤ mmap.foldl
        (fun maxMemory e => max maxMemory (roundPageUp e.endLow)) m ∧
      ∀ e ∈ mmap, roundPageUp e.endLow ≤ mmap.foldl
        (fun maxMemory e => max maxMemory (roundPageUp e.endLow)) m := by
    intro mmap
    induction mmap with
    | nil => intro m; simp
    | cons a mmap ih =>
      intro m
      obtain ⟨hm, hall⟩ := ih (max m (roundPageUp a.endLow))
      rw [List.foldl_cons, List.forall_mem_cons]
      exact ⟨by omega, by omega, hall⟩
  exact (hgen mmap 0).2 e he

theorem getMaxMemory_lt (mmap : List MmapEntry) : getMaxMemory mmap < 2 ^ 32 := by
  unfold getMaxMemory
  refine List.foldlRecOn (motive := fun m => m < 2 ^ 32) mmap _ ?_ ?_
  · decide
  · intro m hm e _
    have := roundPageUp_lt e.endLow
    omega

/-! ## The walks as folds -/

/-- The pages of `[low, high)`. -/
def pagesOf (low high : Nat) : List Nat :=
  (List.range ((high - low) / pageSize)).map fun i => low + i * pageSize

theorem mem_pagesOf {low high pa : Nat} (hlow : pageSize ∣ low) (hhigh : pageSize ∣ high) :
    pa ∈ pagesOf low high ↔ pageSize ∣ pa ∧ low ≤ pa ∧ pa < high := by
  unfold pagesOf
  rw [List.mem_map]
  unfold pageSize at *
  constructor
  · intro h
    obtain ⟨i, hi, hpa⟩ := h
    rw [List.mem_range] at hi
    omega
  · intro h
    refine ⟨(pa - low) / 4096, ?_, ?_⟩
    · rw [List.mem_range]
      omega
    · omega

/-- Between page boundaries the loop ends, and calls back for every page in turn. -/
theorem foreachPage_eq (callback : Nat → σ → Kernel σ) {high : Nat} (hlt : high < 2 ^ 32) :
    ∀ (n fuel low : Nat) (s : σ), n < fuel → low + n * pageSize = high →
      foreachPage callback fuel low high s =
        ((List.range n).map fun i => low + i * pageSize).foldlM (fun s pa => callback pa s) s := by
  intro n
  induction n with
  | zero =>
    intro fuel low s hfuel hlow
    cases fuel with
    | zero => omega
    | succ fuel =>
      rw [foreachPage, if_neg (by omega)]
      rfl
  | succ n ih =>
    intro fuel low s hfuel hlow
    cases fuel with
    | zero => omega
    | succ fuel =>
      have hpos : 0 < pageSize := by decide
      have hnext : low + pageSize + n * pageSize = high := by
        rw [← hlow, Nat.succ_mul]
        omega
      rw [foreachPage, if_pos (by omega), u32_of_lt (by omega), List.range_succ_eq_map]
      simp only [List.map_cons, List.map_map, List.foldlM_cons, Nat.zero_mul, Nat.add_zero]
      congr 1
      funext s'
      rw [ih fuel (low + pageSize) s' (by omega) hnext]
      congr 1
      apply List.map_congr_left
      intro i _
      simp only [Function.comp_apply, Nat.succ_mul]
      omega

theorem foreachPage_pagesOf (callback : Nat → σ → Kernel σ) {low high : Nat}
    (hlow : pageSize ∣ low) (hhigh : pageSize ∣ high) (hle : low ≤ high) (hlt : high < 2 ^ 32)
    (s : σ) : foreachPage callback pageTurns low high s =
      (pagesOf low high).foldlM (fun s pa => callback pa s) s := by
  apply foreachPage_eq callback hlt
  · unfold pageTurns pageSize
    omega
  · rw [Nat.div_mul_cancel (Nat.dvd_sub hhigh hlow)]
    omega

/-- The range of an available entry that is declared free, without the part below 1 MiB;
empty if there is none. -/
def MmapEntry.freePages (e : MmapEntry) : List Nat :=
  if e.type = multibootMemoryAvailable then
    pagesOf (max (roundPageUp e.addrLow.toNat) stor1MiB) (roundPageDown e.endLow)
  else []

def MmapEntry.freeRegion (e : MmapEntry) : Option (Nat × Nat) :=
  if e.type = multibootMemoryAvailable ∧ roundPageUp e.addrLow.toNat < roundPageDown e.endLow then
    some (roundPageUp e.addrLow.toNat, roundPageDown e.endLow)
  else none

def MmapEntry.reservedRegion (e : MmapEntry) : Option (Nat × Nat) :=
  if e.type ≠ multibootMemoryAvailable ∧
      max (roundPageDown e.addrLow.toNat) stor1MiB < roundPageUp e.endLow then
    some (max (roundPageDown e.addrLow.toNat) stor1MiB, roundPageUp e.endLow)
  else none

theorem dvd_max_stor1MiB (addr : Nat) : pageSize ∣ max (roundPageUp addr) stor1MiB := by
  rw [max_def]
  split
  · decide
  · exact dvd_roundPageUp addr

theorem pagesOf_eq_nil {low high : Nat} (h : high ≤ low) : pagesOf low high = [] := by
  unfold pagesOf
  rw [Nat.sub_eq_zero_of_le h]
  rfl

theorem bootForeachFreePage_eq (callback : Nat → σ → Kernel σ) : ∀ (mmap : List MmapEntry) (s : σ),
    bootForeachFreePage callback mmap s =
      (mmap.flatMap MmapEntry.freePages).foldlM (fun s pa => callback pa s) s := by
  intro mmap
  induction mmap with
  | nil => intro s; rfl
  | cons e mmap ih =>
    intro s
    rw [bootForeachFreePage, List.flatMap_cons, List.foldlM_append]
    split
    · rename_i hskip
      have hnil : e.freePages = [] := by
        unfold MmapEntry.freePages
        split
        · rename_i hav
          apply pagesOf_eq_nil
          have := hskip.resolve_left fun h => h hav
          omega
        · rfl
      rw [hnil]
      exact ih s
    · rename_i hkeep
      have hav : e.type = multibootMemoryAvailable := by
        by_contra h
        exact hkeep (.inl h)
      have hpages : e.freePages =
          pagesOf (max (roundPageUp e.addrLow.toNat) stor1MiB) (roundPageDown e.endLow) :=
          if_pos hav
      split
      · rename_i hsmall
        rw [hpages, pagesOf_eq_nil (by omega)]
        exact ih s
      · rename_i hlarge
        have hmax : (if roundPageUp e.addrLow.toNat < stor1MiB then stor1MiB
            else roundPageUp e.addrLow.toNat) = max (roundPageUp e.addrLow.toNat) stor1MiB := by
          split <;> omega
        simp only [hmax, hpages]
        rw [foreachPage_pagesOf callback (dvd_max_stor1MiB _) (dvd_roundPageDown _) (by omega)
          (lt_of_le_of_lt (roundPageDown_le _) (endLow_lt e))]
        exact bind_congr ih

theorem bootForeachFreePageRegion_eq (callback : Nat → Nat → σ → Kernel σ) :
    ∀ (mmap : List MmapEntry) (s : σ), bootForeachFreePageRegion callback mmap s =
      (mmap.filterMap MmapEntry.freeRegion).foldlM (fun s r => callback r.1 r.2 s) s := by
  intro mmap
  induction mmap with
  | nil => intro s; rfl
  | cons e mmap ih =>
    intro s
    rw [bootForeachFreePageRegion, List.filterMap_cons, MmapEntry.freeRegion]
    split
    · rename_i hfree
      rw [List.foldlM_cons]
      exact bind_congr ih
    · rename_i hskip
      exact ih s

theorem bootForeachReservedRegion_eq (callback : Nat → Nat → σ → Kernel σ) :
    ∀ (mmap : List MmapEntry) (s : σ), bootForeachReservedRegion callback mmap s =
      (mmap.filterMap MmapEntry.reservedRegion ++ [((0 : Nat), stor1MiB)]).foldlM
        (fun s r => callback r.1 r.2 s) s := by
  intro mmap
  induction mmap with
  | nil =>
    intro s
    rw [List.filterMap_nil, List.nil_append, List.foldlM_cons]
    exact (bind_pure (callback 0 stor1MiB s)).symm
  | cons e mmap ih =>
    intro s
    rw [bootForeachReservedRegion, List.filterMap_cons]
    by_cases hres : e.type ≠ multibootMemoryAvailable ∧
        max (roundPageDown e.addrLow.toNat) stor1MiB < roundPageUp e.endLow
    · have hsome : e.reservedRegion =
          some (max (roundPageDown e.addrLow.toNat) stor1MiB, roundPageUp e.endLow) := if_pos hres
      obtain ⟨htype, hlt⟩ := hres
      have hlow : roundPageDown e.addrLow.toNat < roundPageUp e.endLow := by omega
      rw [if_neg (not_or.2 ⟨htype, Nat.not_le.2 hlow⟩), if_neg (by omega), hsome]
      rw [List.cons_append, List.foldlM_cons]
      split
      · rw [max_eq_right (by omega)]
        exact bind_congr ih
      · rw [max_eq_left (by omega)]
        exact bind_congr ih
    · have hnone : e.reservedRegion = none := if_neg hres
      rw [hnone]
      split
      · exact ih s
      · rename_i hkeep
        rw [not_or] at hkeep
        have hge := Nat.not_lt.1 fun hlt => hres ⟨hkeep.1, hlt⟩
        rw [if_pos (by omega)]
        exact ih s

/-! ## What is declared free -/

/-- The 64-bit address. -/
def MmapEntry.addr (e : MmapEntry) : Nat := e.addrHigh.toNat * 2 ^ 32 + e.addrLow.toNat

/-- The 64-bit length. -/
def MmapEntry.len (e : MmapEntry) : Nat := e.lenHigh.toNat * 2 ^ 32 + e.lenLow.toNat

/-- The whole page at `pa` is in the 64-bit range of an available entry. -/
def IsRam (mmap : List MmapEntry) (pa : Nat) : Prop :=
  ∃ e ∈ mmap, e.type = multibootMemoryAvailable ∧ e.addr ≤ pa ∧ pa + pageSize ≤ e.addr + e.len

instance (mmap : List MmapEntry) (pa : Nat) : Decidable (IsRam mmap pa) :=
  inferInstanceAs (Decidable (∃ e ∈ mmap, _))

/-- The addresses that `boot_foreach_free_page` passes to its callback. -/
def passedPages (mmap : List MmapEntry) : Kernel (List Nat) :=
  bootForeachFreePage (fun pa passed => .ok (passed ++ [pa])) mmap []

/-- The ranges that `boot_foreach_free_page_region` passes to its callback. -/
def passedRegions (mmap : List MmapEntry) : Kernel (List (Nat × Nat)) :=
  bootForeachFreePageRegion (fun low high passed => .ok (passed ++ [(low, high)])) mmap []

/-- Both walks end, and every page they declare free is memory of an available entry. -/
def DeclaredFreeIsRam (mmap : List MmapEntry) : Prop :=
  ∃ ps rs, passedPages mmap = .ok ps ∧ passedRegions mmap = .ok rs ∧
    (∀ pa ∈ ps, IsRam mmap pa) ∧ ∀ r ∈ rs, ∀ pa ∈ pagesOf r.1 r.2, IsRam mmap pa

/-- The window of 32-bit addresses an entry is cut down to. -/
def MmapEntry.window (e : MmapEntry) : List Nat :=
  pagesOf (roundPageUp e.addrLow.toNat) (roundPageDown e.endLow)

theorem foldlM_record {α : Type} : ∀ xs acc : List α,
    (xs.foldlM (fun passed x => (.ok (passed ++ [x]) : Kernel (List α))) acc) = .ok (acc ++ xs) :=
    by
  intro xs
  induction xs with
  | nil =>
    intro acc
    rw [List.append_nil]
    rfl
  | cons x xs ih =>
    intro acc
    rw [List.foldlM_cons, ok_bind, ih, List.append_assoc]
    rfl

theorem passedPages_eq (mmap : List MmapEntry) :
    passedPages mmap = .ok (mmap.flatMap MmapEntry.freePages) := by
  rw [passedPages, bootForeachFreePage_eq, foldlM_record, List.nil_append]

theorem passedRegions_eq (mmap : List MmapEntry) :
    passedRegions mmap = .ok (mmap.filterMap MmapEntry.freeRegion) := by
  rw [passedRegions, bootForeachFreePageRegion_eq, foldlM_record, List.nil_append]

theorem mem_window {e : MmapEntry} {pa : Nat} : pa ∈ e.window ↔ pageSize ∣ pa ∧
    roundPageUp e.addrLow.toNat ≤ pa ∧ pa < roundPageDown e.endLow :=
  mem_pagesOf (dvd_roundPageUp _) (dvd_roundPageDown _)

/-- An entry that starts on the last page below 4 GiB at the latest is cut down to a part
of itself. The sum of its low halves may wrap: then it is cut off at the end. -/
theorem window_inside {e : MmapEntry} (hlow : e.addr ≤ 2 ^ 32 - pageSize) {pa : Nat}
    (hpa : pa ∈ e.window) : e.addr ≤ pa ∧ pa + pageSize ≤ e.addr + e.len := by
  obtain ⟨⟨k, rfl⟩, hge, hlt⟩ := mem_window.1 hpa
  have haddr : e.addr = e.addrLow.toNat := by
    unfold MmapEntry.addr pageSize at *
    omega
  have hround := (le_roundPageUp (haddr ▸ hlow)).1
  obtain ⟨j, hj⟩ := dvd_roundPageDown e.endLow
  have hend : roundPageDown e.endLow ≤ e.addrLow.toNat + e.lenLow.toNat :=
    Nat.le_trans (roundPageDown_le _) (Nat.mod_le _ _)
  have hlen : e.lenLow.toNat ≤ e.len := Nat.le_add_left _ _
  unfold pageSize at *
  omega

theorem window_of_freePages {e : MmapEntry} {pa : Nat} (h : pa ∈ e.freePages) :
    e.type = multibootMemoryAvailable ∧ pa ∈ e.window := by
  unfold MmapEntry.freePages at h
  split at h
  · rename_i hav
    rw [mem_pagesOf (dvd_max_stor1MiB _) (dvd_roundPageDown _)] at h
    exact ⟨hav, mem_window.2 ⟨h.1, by omega, h.2.2⟩⟩
  · cases h

theorem freeRegion_eq_some {e : MmapEntry} {r : Nat × Nat} (h : e.freeRegion = some r) :
    e.type = multibootMemoryAvailable ∧ pagesOf r.1 r.2 = e.window := by
  unfold MmapEntry.freeRegion at h
  split at h
  · rename_i hfree
    obtain rfl := Option.some.inj h
    exact ⟨hfree.1, rfl⟩
  · cases h

/-- Everything that is declared free is memory of an available entry exactly if this holds
for the available entries that start above the last page below 4 GiB, of which the walks
see the low halves only. -/
theorem declared_free_iff (mmap : List MmapEntry) : DeclaredFreeIsRam mmap ↔
    ∀ e ∈ mmap, e.type = multibootMemoryAvailable → 2 ^ 32 - pageSize < e.addr →
      ∀ pa ∈ e.window, IsRam mmap pa := by
  unfold DeclaredFreeIsRam
  rw [passedPages_eq, passedRegions_eq]
  constructor
  · intro h e he hav _ pa hpa
    obtain ⟨ps, rs, -, hrs, -, hall⟩ := h
    obtain rfl := Except.ok.inj hrs
    have hlt := (mem_window.1 hpa).2
    refine hall (roundPageUp e.addrLow.toNat, roundPageDown e.endLow) ?_ pa hpa
    exact List.mem_filterMap.2 ⟨e, he, if_pos ⟨hav, by omega⟩⟩
  · intro h
    -- a window is either a part of its entry or covered by assumption
    have hwindow : ∀ e ∈ mmap, e.type = multibootMemoryAvailable → ∀ pa ∈ e.window,
        IsRam mmap pa := by
      intro e he hav pa hpa
      by_cases hlow : e.addr ≤ 2 ^ 32 - pageSize
      · exact ⟨e, he, hav, window_inside hlow hpa⟩
      · exact h e he hav (Nat.not_le.1 hlow) pa hpa
    refine ⟨_, _, rfl, rfl, fun pa hpa => ?_, fun r hr pa hpa => ?_⟩
    · obtain ⟨e, he, hpa⟩ := List.mem_flatMap.1 hpa
      obtain ⟨hav, hpa⟩ := window_of_freePages hpa
      exact hwindow e he hav pa hpa
    · obtain ⟨e, he, hr⟩ := List.mem_filterMap.1 hr
      obtain ⟨hav, hpages⟩ := freeRegion_eq_some hr
      exact hwindow e he hav pa (hpages ▸ hpa)

/-- A page of memory at 1 MiB, and one at 4 GiB + 2 MiB. -/
def highMemory : List MmapEntry :=
  [⟨0x100000#32, 0#32, 0x1000#32, 0#32, 1#32⟩, ⟨0x200000#32, 1#32, 0x1000#32, 0#32, 1#32⟩]

/-- The page at 2 MiB, where there is no memory, is declared free. -/
theorem highMemory_declared_low :
    (∃ ps, passedPages highMemory = .ok ps ∧ 0x200000 ∈ ps) ∧
    (∃ rs, passedRegions highMemory = .ok rs ∧ (0x200000, 0x201000) ∈ rs) ∧
    ¬ IsRam highMemory 0x200000 ∧ ¬ DeclaredFreeIsRam highMemory := by
  have hpages : ∃ ps, passedPages highMemory = .ok ps ∧ 0x200000 ∈ ps := by decide +kernel
  have hregions : ∃ rs, passedRegions highMemory = .ok rs ∧ (0x200000, 0x201000) ∈ rs := by
    decide +kernel
  have hnot : ¬ IsRam highMemory 0x200000 := by decide +kernel
  refine ⟨hpages, hregions, hnot, fun h => ?_⟩
  obtain ⟨ps, rs, hps, -, hall, -⟩ := h
  obtain ⟨ps', hps', hmem⟩ := hpages
  obtain rfl : ps = ps' := Except.ok.inj (hps.symm.trans hps')
  exact hnot (hall _ hmem)

/-! ## Maps without truncation -/

/-- Page `f` is in the region. -/
def InRegion (r : Nat × Nat) (f : Nat) : Prop := r.1 ≤ f * pageSize ∧ f * pageSize < r.2

/-- A region from one page boundary to another. -/
def Aligned (r : Nat × Nat) : Prop := pageSize ∣ r.1 ∧ pageSize ∣ r.2 ∧ r.1 ≤ r.2

theorem inRegion_iff {r : Nat × Nat} (hr : Aligned r) (f : Nat) :
    (∀ pa ∈ pagesOf r.1 r.2, f ≠ pa / pageSize) ↔ ¬ InRegion r f := by
  have hpos : 0 < pageSize := by decide
  constructor
  · intro h hin
    apply h (f * pageSize)
    · rw [mem_pagesOf hr.1 hr.2.1]
      exact ⟨Nat.dvd_mul_left _ _, hin⟩
    · rw [Nat.mul_div_cancel _ hpos]
  · intro h pa hpa hf
    rw [mem_pagesOf hr.1 hr.2.1] at hpa
    apply h
    unfold InRegion
    rw [hf, Nat.div_mul_cancel hpa.1]
    exact hpa.2

/-- The regions the passes reserve run from page to page, below a limit no entry rounds up past. -/
theorem reservedRegions_of_end {mmap : List MmapEntry}
    (hend : ∀ e ∈ mmap, roundPageUp e.endLow ≤ 0x80000000) :
    ∀ r ∈ mmap.filterMap MmapEntry.reservedRegion ++ [((0 : Nat), stor1MiB)],
      Aligned r ∧ r.2 ≤ 0x80000000 := by
  intro r hr
  rw [List.mem_append] at hr
  cases hr with
  | inl hr =>
    obtain ⟨e, he, hr⟩ := List.mem_filterMap.1 hr
    unfold MmapEntry.reservedRegion at hr
    split at hr
    · rename_i hres
      obtain rfl := Option.some.inj hr
      refine ⟨⟨?_, dvd_roundPageUp _, Nat.le_of_lt hres.2⟩, hend e he⟩
      show pageSize ∣ max (roundPageDown e.addrLow.toNat) stor1MiB
      rw [max_def]
      split
      · decide
      · exact dvd_roundPageDown _
    · cases hr
  | inr hr =>
    obtain rfl := List.mem_singleton.1 hr
    exact ⟨⟨by decide, by decide, by decide⟩, by decide⟩

/-- All entries, with their whole range, are below `limit`. -/
def Below (mmap : List MmapEntry) (limit : Nat) : Prop := ∀ e ∈ mmap, e.addr + e.len ≤ limit

section Below

variable {mmap : List MmapEntry} (hbelow : Below mmap 0x80000000)
include hbelow

theorem Below.endLow {e : MmapEntry} (he : e ∈ mmap) :
    e.endLow = e.addrLow.toNat + e.lenLow.toNat ∧ e.endLow ≤ 0x80000000 := by
  have h := hbelow e he
  unfold MmapEntry.addr MmapEntry.len at h
  have hsum : e.addrLow.toNat + e.lenLow.toNat ≤ 0x80000000 := by omega
  have heq : e.endLow = e.addrLow.toNat + e.lenLow.toNat := u32_of_lt (by omega)
  exact ⟨heq, by omega⟩

theorem Below.roundPageUp_endLow {e : MmapEntry} (he : e ∈ mmap) :
    e.endLow ≤ roundPageUp e.endLow ∧ roundPageUp e.endLow ≤ 0x80000000 := by
  have hend := (hbelow.endLow he).2
  have hround := le_roundPageUp (show e.endLow ≤ 2 ^ 32 - pageSize by unfold pageSize; omega)
  obtain ⟨k, hk⟩ := dvd_roundPageUp e.endLow
  unfold pageSize at *
  omega

theorem Below.freePages {e : MmapEntry} (he : e ∈ mmap) {pa : Nat} (hpa : pa ∈ e.freePages) :
    pa < 0x80000000 := by
  have hpa := (mem_window.1 (window_of_freePages hpa).2).2.2
  have hdown := roundPageDown_le e.endLow
  have hend := (hbelow.endLow he).2
  omega

theorem Below.reservedRegions :
    ∀ r ∈ mmap.filterMap MmapEntry.reservedRegion ++ [((0 : Nat), stor1MiB)],
      Aligned r ∧ r.2 ≤ 0x80000000 :=
  reservedRegions_of_end fun _ he => (hbelow.roundPageUp_endLow he).2

end Below

end X86Kernel.Boot
