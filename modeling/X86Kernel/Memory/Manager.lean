import X86Kernel.Memory.FrameAlloc.Footprint
import X86Kernel.Memory.Paging
import X86Kernel.Memory.VirtRegion
import X86Kernel.Memory.Heap.Outline

/- The memory manager (`kernel/memory/core/memory_manager.c`, `pfn_handler.c`) and the
   mapping of kernel memory (`kernel/memory/virt/virt_map.c`, `virt_alloc.c`): the frame
   allocator, the page tables, the tree of regions and the heap put together.

   This module is the model, with what the conversions between descriptors, indices and
   addresses amount to. A `page_t*` that is a descriptor is the index of it; a pointer that
   is something else is an address (`Word.num`). `desc - pfn_data.descs` is exact division by
   `sizeof(page_t)` = 36, for which the compiler shifts by 2 and multiplies with the inverse
   of 9; on an address that is no descriptor this is what the subtraction gives
   (`getPfnIndex`). The base `descs` of the array is a parameter. `init_memory` puts it at
   `MM_AREA_VIRT` (`mmAreaVirt`).

   The union of `page_t` is split between the models: the free list is in `Frames`, the
   blocks and slabs of the heap are in `Heap`. A page is in one of the two uses at a time.

   Correspondence (C ↔ Lean):
     `get_pfn_index`      ↔ `getPfnIndex`
     `pfn_to_pa`          ↔ `pfnToPa`
     `mm_alloc_pagetable` ↔ `mmAllocPagetable` (`ALLOC_FRAME`)
     `mm_alloc_pages`     ↔ `mmAllocPages` (`setRefs`)
     `mm_get_page`, `mm_put_page`   ↔ `mmGetPage`, `mmPutPage`
     `mm_get_range`, `mm_put_range` ↔ `mmGetRange`, `mmPutRange`
     `mm_ensure_memory`   ↔ `mmEnsureMemory`
     `vregion_to_str`     ↔ `vregionToStr`
     `vregion_to_vflags`, `vflags_to_paging` ↔ `vregionToVflags`, `vflagsToPaging`
     `kvregion_mark`, `kvregion_reserve` ↔ `kvregionMark`, `kvregionReserve` (with the heap)
     `vmap_pages`, `vmap_identity`  ↔ `vmapPages`, `vmapIdentity`
     `kvalloc_pages`, `kvfree_pages` ↔ `kvallocPages`, `kvfreePages` -/
namespace X86Kernel.Manager
open X86Kernel.Frame X86Kernel.Paging X86Kernel.VirtRegion X86Kernel.Heap

/-- The stores behind the heap. -/
structure Mem where
  frames : Frames
  space : Space
  regions : VirtRegions

/-- `MM_AREA_VIRT`, where `init_memory` has the descriptors put. -/
def mmAreaVirt : Nat := 0xD0000000

/-- `sizeof(page_t)`. -/
def pageDescSize : Nat := 36

section Conversions

variable (descs : Nat)

/-- `desc - pfn_data.descs`, by shift and multiplication with the inverse of 9. -/
def getPfnIndex (desc : Nat) : Nat :=
  let difference := sub32 desc descs
  let shifted := difference / 4 + if 2 ^ 31 ≤ difference then 0xC0000000 else 0
  u32 (shifted * 0x38E38E39)

/-- `pfn_to_pa` of a word that is taken for a `page_t*`. -/
def pfnToPa : Word → Nat
  | .page i => u32 (pageSize * i)
  | .num addr => u32 (pageSize * getPfnIndex descs addr)
  | _ => 0

/-! ## Frames -/

/-- `mm_alloc_pagetable` with the frame allocator: the address of the frame. -/
def mmAllocPagetable (s : Frames) : Kernel (Frames × Nat) := do
  let (s, desc) ← frameAllocPhysPages s 1
  return (s, pfnToPa descs (.ofPtr desc))

end Conversions

/-- The loop of `mm_alloc_pages`, from descriptor `i` on. -/
def setRefs : Nat → Frames → Nat → Kernel Frames
  | 0, s, _ => .ok s
  | n + 1, s, i => do
    let d ← load s i
    assert (decide (d.type = .used))
    let s ← modify s i fun d => { d with refCount := 1 }
    setRefs n s (i + 1)

/-- `mm_alloc_pages`; the loop reads through the result, also when that is NULL. -/
def mmAllocPages (s : Frames) (count : Nat) : Kernel (Frames × Option Nat) := do
  let (s, result) ← frameAllocPhysPages s count
  match result with
  | some i =>
    let s ← setRefs count s i
    return (s, some i)
  | none => if count = 0 then return (s, none) else .error .nullDeref

def mmGetPage (s : Frames) (desc : Nat) : Kernel Frames := do
  let d ← load s desc
  assert (decide (d.type ≠ .unused))
  assert (decide (d.refCount ≠ 0))
  modify s desc fun d => { d with refCount := u32 (d.refCount + 1) }

def mmPutPage (s : Frames) (desc : Nat) : Kernel Frames := do
  let d ← load s desc
  assert (decide (d.refCount ≠ 0))
  let s ← modify s desc fun d => { d with refCount := d.refCount - 1 }
  if d.refCount - 1 = 0 then frameFreePhysPages s desc 1 else return s

/-- `mm_get_range`; unlike `mm_get_page` it does not look at the type. -/
def mmGetRange : Nat → Frames → Nat → Kernel Frames
  | 0, s, _ => .ok s
  | n + 1, s, desc => do
    let d ← load s desc
    assert (decide (d.refCount ≠ 0))
    let s ← modify s desc fun d => { d with refCount := u32 (d.refCount + 1) }
    mmGetRange n s (desc + 1)

def mmPutRange : Nat → Frames → Nat → Kernel Frames
  | 0, s, _ => .ok s
  | n + 1, s, desc => do
    let s ← mmPutPage s desc
    mmPutRange n s (desc + 1)

/-- `mm_ensure_memory`, with `pfn_page_free_count()`. -/
def mmEnsureMemory (freeCount count : Nat) : Kernel Unit := assert (decide (count < freeCount))

/-! ## Regions -/

/-- `vregion_to_str`. -/
def vregionToStr : VirtRegionType → Kernel String
  | .heap => .ok "HEAP"
  | .pfn => .ok "PFN"
  | .acpi => .ok "ACPI"
  | .driver => .ok "DRIVER"
  | .user => .ok "USER"
  | .reserved => .ok "RESERVED"
  | .cache => .ok "CACHE"
  | .bioBuffer => .ok "BIO BUFFER"
  | .mmio => .ok "MMIO"
  | .kernelImg => .ok "KERNEL_IMG"
  | .unknown => .error .abort

/-- `vregion_to_vflags`: `VFLAG_READ` is 1, `WRITE` 2, `EXEC` 4, `USER` 8, `SHARED` 16. -/
def vregionToVflags : VirtRegionType → Nat
  | .kernelImg => 1 ||| 4 ||| 2
  | .pfn => 1 ||| 2
  | .heap => 1 ||| 2
  | .user => 1 ||| 2 ||| 8
  | .cache => 1 ||| 16
  | .mmio => 1 ||| 2 ||| 16
  | .acpi => 1 ||| 16
  | .bioBuffer => 1 ||| 2
  | .driver => 1 ||| 2 ||| 16
  | .reserved => 0
  | .unknown => 0

/-- `vflags_to_paging`: `PAGING_FLAG_PRESENT` is 1, `USER` 8, `WRITE` 16, `NOEXEC` 32,
`READ` 64. -/
def vflagsToPaging (vmmFlags : Nat) : Nat :=
  1 ||| (if vmmFlags &&& 1 ≠ 0 then 64 else 0) ||| (if vmmFlags &&& 4 = 0 then 32 else 0) |||
    (if vmmFlags &&& 8 ≠ 0 then 8 else 0) ||| (if vmmFlags &&& 2 ≠ 0 then 16 else 0)

section Composed

variable (descs : Nat)

/-- `paging_map_pages` on the page tables, with page tables from the frame allocator. The
callers drop its answer. -/
def mapPages (w : Mem) (pa va count pagingFlags : Nat) : Kernel Mem := do
  let (space, frames, _) ← pagingMapPages (mmAllocPagetable descs) w.space w.frames pa va count
    pagingFlags
  return { w with space, frames }

/-- The rest of the kernel, as the heap uses it. -/
def memWorld : World Mem where
  descOf w page := match virtToPhys w.space (page * pageSize) with
    | .ok pa => pa / pageSize
    | .error _ => 0
  mmAllocPages w count := do
    let (frames, result) ← mmAllocPages w.frames count
    return ({ w with frames }, result.getD 0)
  pfnToPa _ := pfnToPa descs
  pagingMapPages := mapPages descs
  markRegion w interval va count := do
    let regions ← VirtRegion.kvregionMark w.regions (BitVec.ofNat 32 interval) va count .heap "HEAP"
    return { w with regions }

variable (fuel : Nat)

/-- `kvregion_mark`, with the interval from the heap. -/
def kvregionMark (s : HeapVars Mem) (va count : Nat) (vregion : VirtRegionType) (name : String) :
    Kernel (HeapVars Mem) := do
  let (s, interval) ← allocSlab (memWorld descs) (allocBuddy (memWorld descs) fuel) s
    s.intervalCache
  let regions ← VirtRegion.kvregionMark s.world.regions (BitVec.ofNat 32 interval) va count vregion
    name
  return { s with world := { s.world with regions } }

/-- `kvregion_reserve`; the callers here pass a name. -/
def kvregionReserve (s : HeapVars Mem) (count : Nat) (vregion : VirtRegionType) (name : String) :
    Kernel (HeapVars Mem × Nat) := do
  let gapStart ← findGapStart s.world.regions (u32 (count * pageSize)) highVaddr maxVaddr
  if gapStart = 0 then return (s, 0)
  else
    let s ← kvregionMark descs fuel s gapStart count vregion name
    return (s, gapStart)

def vmapPages (s : HeapVars Mem) (va : Nat) (pfn : Word) (vregion : VirtRegionType) (count : Nat) :
    Kernel (HeapVars Mem) := do
  let name ← vregionToStr vregion
  let s ← kvregionMark descs fuel s va count vregion name
  let world ← mapPages descs s.world (pfnToPa descs pfn) va count
    (vflagsToPaging (vregionToVflags vregion))
  return { s with world }

/-- `vmap_identity`: the physical address is passed as the descriptor. -/
def vmapIdentity (s : HeapVars Mem) (pa count : Nat) (type : VirtRegionType) :
    Kernel (HeapVars Mem × Nat) := do
  let s ← vmapPages descs fuel s pa (.num pa) type count
  return (s, pa)

def kvallocPages (s : HeapVars Mem) (count : Nat) (vregion : VirtRegionType) :
    Kernel (HeapVars Mem × Nat) := do
  let name ← vregionToStr vregion
  let (s, va) ← kvregionReserve descs fuel s count vregion name
  let (frames, page) ← mmAllocPages s.world.frames count
  let s := { s with world := { s.world with frames } }
  let s ← vmapPages descs fuel s va (.ofPtr page) vregion count
  return (s, va)

/-- `kvfree_pages`; `probe` is the address of the interval on the stack. -/
def kvfreePages (s : HeapVars Mem) (probe : Ptr) (va : Nat) : Kernel (HeapVars Mem) := do
  let regions ← kvregionRelease s.world.regions probe va
  return { s with world := { s.world with regions } }

end Composed

/-! ## Conversions -/

/-- 0x38E38E39 is the inverse of 9. -/
theorem mul_inverse_mod_iff {x k : Nat} (hk : k < 2 ^ 20) :
    x * 0x38E38E39 % 2 ^ 20 = k ↔ x % 2 ^ 20 = 9 * k % 2 ^ 20 := by
  constructor
  · intro h
    omega
  · intro h
    omega

theorem u32_page_iff {y k : Nat} (hk : k < 2 ^ 20) :
    u32 (pageSize * u32 y) = pageSize * k ↔ y % 2 ^ 20 = k := by
  unfold u32 pageSize
  omega

/-- The frame that an address is converted to: nine times its index is the distance from
the base in words, in 20 bits. -/
theorem pfnToPa_num_iff {descs addr k : Nat} (hdescs : descs % 4 = 0) (hlt : descs < 2 ^ 32)
    (haddr : addr % 4 = 0) (hlt' : addr < 2 ^ 32) (hk : k < 2 ^ 20) :
    pfnToPa descs (.num addr) = pageSize * k ↔
      (addr / 4 + 2 ^ 30 - descs / 4) % 2 ^ 20 = 9 * k % 2 ^ 20 := by
  have hshift : (sub32 addr descs / 4 + if 2 ^ 31 ≤ sub32 addr descs then 0xC0000000 else 0) %
      2 ^ 20 = (addr / 4 + 2 ^ 30 - descs / 4) % 2 ^ 20 := by
    unfold sub32
    split <;> omega
  rw [pfnToPa, getPfnIndex, u32_page_iff hk, mul_inverse_mod_iff hk, hshift]

/-- An address of a page that is passed as a descriptor is converted to itself for one page
only: the distance between two descriptors is not that between two pages. -/
theorem pfnToPa_identity_iff {descs pa : Nat} (hdescs : descs % 4 = 0) (hlt : descs < 2 ^ 32)
    (hpa : pa % pageSize = 0) (hlt' : pa < 2 ^ 32) :
    pfnToPa descs (.num pa) = pa ↔ 1015 * (pa / pageSize) % 2 ^ 20 = descs / 4 % 2 ^ 20 := by
  have hpages : pageSize * (pa / pageSize) = pa := Nat.mul_div_cancel' (Nat.dvd_of_mod_eq_zero hpa)
  have hk : pa / pageSize < 2 ^ 20 := by
    unfold pageSize
    omega
  have hwords : pa / 4 = 1024 * (pa / pageSize) := by
    unfold pageSize at *
    omega
  have hiff := pfnToPa_num_iff hdescs hlt (show pa % 4 = 0 by unfold pageSize at hpa; omega) hlt' hk
  rw [hpages, hwords] at hiff
  rw [hiff]
  generalize pa / pageSize = k at hk
  omega

/-- NULL is converted to the address 0. -/
theorem pfnToPa_null : pfnToPa mmAreaVirt (.num 0) = 0 := by decide

theorem pfnToPa_lt (descs : Nat) (w : Word) : pfnToPa descs w < 2 ^ 32 := by
  unfold pfnToPa
  split
  · exact Nat.mod_lt _ (by decide)
  · exact Nat.mod_lt _ (by decide)
  · decide

theorem pageSize_dvd_pfnToPa (descs : Nat) (w : Word) : pfnToPa descs w % pageSize = 0 := by
  unfold pfnToPa u32 pageSize
  split <;> omega

end X86Kernel.Manager
