import X86Kernel.Core

/- The kernel heap (`kernel/memory/heap/heap.c`): a buddy allocator on page
   descriptors, and slabs of equal objects in the blocks it hands out.

   This module is the model. A descriptor holds the union of `heap_structs.h` as
   six words, each with the names of the fields that share it. A word is a number
   or a pointer to a descriptor, to one of the lists of free blocks or to a slab
   order; a number that is used as a pointer is an address of the kernel's memory
   `mem`, and a pointer where a number is needed is a fault. The descriptor of a
   virtual page, `pa_to_pfn(virt_to_phys(va))`, belongs to the world around the
   heap (`World`), with the frame allocator, the page tables and the tree of
   virtual regions: the heap calls them to grow. A page without a frame has the
   descriptor of frame 0, and where there is no descriptor either the code reads
   through NULL; both are descriptors like the others here.

   `alloc_buddy` and the growth of the heap call each other, through the slab
   of the new region's interval. Each nested call takes one unit of fuel.

   Correspondence (C ↔ Lean):
     `heap_page_metadata_t` ↔ `Desc`
     `heap_slab_order_t`    ↔ `SlabOrder`
     `heap_vars_t`          ↔ `HeapVars`
     `resolve_merge`, `merge_upwards` ↔ `resolveMerge` (`joinBlocks`), `mergeUpwards`
     `add_buddies`          ↔ `addBuddies` (`fitOrder`)
     `add_heap_region`, `grow_heap` ↔ `addHeapRegion`, `growHeap`
     `vmap_pages`, `kvregion_mark`  ↔ `vmapPages`
     `pages_for_obj_size`   ↔ `pagesForObjSize`
     `init_heap_vars`, `init_heap`  ↔ `initHeapVars`, `initHeap`
     `alloc_buddy`          ↔ `allocBuddy` (`findOrder`, `splitFirst`, `splitDown`, `takeFirst`)
     `free_buddy`           ↔ `freeBuddy`
     `init_slab_free_list`  ↔ `initSlabFreeList`
     `alloc_slab`, `free_slab` ↔ `allocSlab`, `freeSlab`
     `kmalloc`, `krealloc`, `kfree` ↔ `kmalloc`, `krealloc`, `kfree`
     `kmalloc_aligned`      ↔ `kmallocAligned`
     `kcreate_slab_cache`   ↔ `kcreateSlabCache` -/
namespace X86Kernel.Heap

/-- What a word of a descriptor or of a slab object holds. -/
inductive Word where
  | num (n : Nat)
  | page (i : Nat)
  | buddies (order : Nat)
  | slabs (cache : Nat)
  deriving DecidableEq, Repr

/-- `enum heap_flag`. -/
structure HeapFlags where
  vfree : Bool
  buddy : Bool
  head : Bool
  deriving DecidableEq, Repr

/-- `heap_page_metadata_t`. The words of the union carry the buddy names. -/
structure Desc where
  flags : HeapFlags
  /-- also `slab.num_pages` and `slab_head` -/
  numPages : Word
  /-- also `slab.obj_count`, the low half, and `slab.used_count`, the high half -/
  virtAddr : Nat
  /-- also `slab.prev_slab` -/
  buddyOrder : Word
  /-- also `slab.next_slab` -/
  prevFree : Word
  /-- also `slab.free_node` -/
  nextFree : Word
  /-- also `slab.order_cache` -/
  buddyCache : Word
  deriving DecidableEq, Repr

/-- `heap_slab_order_t`. -/
structure SlabOrder where
  slabOrder : Nat
  objSize : Nat
  slabSize : Nat
  freeSlab : Option Nat
  deriving DecidableEq, Repr

/-- `heap_vars_t`, the descriptors, the memory of slab objects and the world. The
first 13 slab orders are `free_slabs`; a custom cache has its address as number. -/
structure HeapVars (ω : Type) where
  world : ω
  desc : Nat → Desc
  mem : Nat → Word
  freeBuddies : Nat → Option Nat
  slabs : Nat → SlabOrder
  intervalCache : Nat
  minAddr : Nat
  curMaxAddr : Nat
  reservedMaxAddr : Nat
  curSize : Nat
  reservedMaxSize : Nat

/-- What the heap uses of the rest of the kernel. -/
structure World (ω : Type) where
  /-- `pa_to_pfn(virt_to_phys(va))`, by virtual page -/
  descOf : ω → Nat → Nat
  /-- `mm_alloc_pages` -/
  mmAllocPages : ω → Nat → Kernel (ω × Nat)
  /-- `pfn_to_pa`, of any word taken for a `page_t*` -/
  pfnToPa : ω → Word → Nat
  /-- `paging_map_pages`, with `pa`, `va`, `count` and flags -/
  pagingMapPages : ω → Nat → Nat → Nat → Nat → Kernel ω
  /-- `kvregion_mark` after the allocation of the interval -/
  markRegion : ω → Nat → Nat → Nat → Kernel ω

def buddyExponMin : Nat := 12
def buddyExponMax : Nat := 31

/-- `BUDDY_ORDER_MAX`. -/
def buddyOrderMax : Nat := buddyExponMax - buddyExponMin

def slabExponMin : Nat := 4
def slabExponMax : Nat := 16

/-- `SLAB_ORDER_COUNT`. -/
def slabOrderCount : Nat := slabExponMax - slabExponMin + 1

/-- `SLAB_CUSTOM_ORDER`. -/
def slabCustomOrder : Nat := slabOrderCount + 1

/-! ## Words -/

/-- A word used as a pointer to a descriptor. -/
def Word.ptr : Word → Kernel (Option Nat)
  | .num 0 => .ok none
  | .page i => .ok (some i)
  | _ => .error .outOfBounds

/-- A word used as a number. -/
def Word.nat : Word → Kernel Nat
  | .num n => .ok n
  | _ => .error .outOfBounds

/-- A word used as a pointer to a slab order. -/
def Word.slabOrder : Word → Kernel Nat
  | .slabs c => .ok c
  | _ => .error .outOfBounds

def Word.ofPtr : Option Nat → Word
  | none => .num 0
  | some i => .page i

def Desc.objCount (d : Desc) : Nat := d.virtAddr % 2 ^ 16
def Desc.usedCount (d : Desc) : Nat := d.virtAddr / 2 ^ 16

def Desc.setCounts (d : Desc) (objCount usedCount : Nat) : Desc :=
  { d with virtAddr := objCount % 2 ^ 16 + 2 ^ 16 * (usedCount % 2 ^ 16) }

variable {ω : Type}

def HeapVars.modify (s : HeapVars ω) (i : Nat) (f : Desc → Desc) : HeapVars ω :=
  { s with desc := fun j => if j = i then f (s.desc i) else s.desc j }

def HeapVars.store (s : HeapVars ω) (addr : Nat) (w : Word) : HeapVars ω :=
  { s with mem := fun a => if a = addr then w else s.mem a }

def HeapVars.setHead (s : HeapVars ω) (order : Nat) (p : Option Nat) : HeapVars ω :=
  { s with freeBuddies := fun k => if k = order then p else s.freeBuddies k }

def HeapVars.setFreeSlab (s : HeapVars ω) (cache : Nat) (p : Option Nat) : HeapVars ω :=
  { s with slabs := fun c => if c = cache then { s.slabs c with freeSlab := p } else s.slabs c }

/-! ## Lists of free blocks -/

/-- `if (p) p->prev_free = w;` -/
def setPrevFree (s : HeapVars ω) (p : Option Nat) (w : Word) : HeapVars ω :=
  match p with
  | some i => s.modify i fun d => { d with prevFree := w }
  | none => s

/-- `if (p) p->next_free = w;` -/
def setNextFree (s : HeapVars ω) (p : Option Nat) (w : Word) : HeapVars ω :=
  match p with
  | some i => s.modify i fun d => { d with nextFree := w }
  | none => s

/-- A block is put at the front of a list. The source writes this out five times,
with the stores in different orders; the block is never the first one already. -/
def pushFree (s : HeapVars ω) (order i : Nat) : HeapVars ω :=
  let head := s.freeBuddies order
  let s := s.modify i fun d => { d with nextFree := .ofPtr head, prevFree := .num 0 }
  (setPrevFree s head (.page i)).setHead order (some i)

/-- A block is taken out of a list. -/
def unlinkFree (s : HeapVars ω) (order i : Nat) : Kernel (HeapVars ω) := do
  let next ← (s.desc i).nextFree.ptr
  let s := setPrevFree s next (s.desc i).prevFree
  let prev ← (s.desc i).prevFree.ptr
  let s := setNextFree s prev (s.desc i).nextFree
  if s.freeBuddies order = some i then
    let next ← (s.desc i).nextFree.ptr
    return s.setHead order next
  else return s

variable (W : World ω)

/-- `pa_to_pfn(virt_to_phys(va))`. -/
def descOf (s : HeapVars ω) (va : Nat) : Nat := W.descOf s.world (va / pageSize)

/-! ## Merging and adding blocks -/

/-- The second half of `resolve_merge`: the block of `old` joins the one of `new`. -/
def joinBlocks (s : HeapVars ω) (order new old : Nat) : Kernel (HeapVars ω × Option Nat) := do
  let s := s.modify old fun d => { d with flags := { d.flags with head := false } }
  let s ← unlinkFree s order new
  let s ← unlinkFree s order old
  let s := s.modify old fun d => { d with nextFree := .num 0, prevFree := .num 0 }
  let newOrder := order + 1
  assert (newOrder ≤ buddyOrderMax)
  let s := pushFree s newOrder new
  let pages ← (s.desc new).numPages.nat
  let s := s.modify new fun d => { d with
    buddyCache := .buddies newOrder, buddyOrder := .num newOrder,
    numPages := .num (u32 (pages * 2)) }
  return (s, some new)

def resolveMerge (s : HeapVars ω) (cur order : Nat) : Kernel (HeapVars ω × Option Nat) :=
  let expon := order + buddyExponMin
  let virtAddr := (s.desc cur).virtAddr
  let neighbourVa := virtAddr ^^^ 2 ^ expon
  let neighbour := descOf W s neighbourVa
  if (s.desc neighbour).flags ≠ ⟨true, true, true⟩ ∨
      (s.desc neighbour).numPages ≠ (s.desc cur).numPages then
    .ok (s, none)
  else
    -- the address of the result is the lower one
    if min neighbourVa virtAddr = neighbourVa then joinBlocks s order neighbour cur
    else joinBlocks s order cur neighbour

/-- `while (cur_desc)`; the order grows in every turn and is asserted to be small. -/
def mergeUpwards : Nat → HeapVars ω → Nat → Nat → Kernel (HeapVars ω)
  | 0, _, _, _ => .error .diverges
  | fuel + 1, s, cur, order => do
    let (s, new) ← resolveMerge W s cur order
    match new with
    | none => return s
    | some new => mergeUpwards fuel s new (order + 1)

/-- The largest order not above the given one to which the address is aligned. -/
def fitOrder (heapAddr : Nat) : Nat → Nat
  | 0 => 0
  | order + 1 =>
    if heapAddr % 2 ^ (order + 1 + buddyExponMin) = 0 then order + 1 else fitOrder heapAddr order

/-- The loop of `add_buddies`; `remainingSize` is a multiple of the page size, so
that it shrinks by at least a page in each turn. -/
def addBuddies (isInit : Bool) : Nat → HeapVars ω → Nat → Nat → Kernel (HeapVars ω)
  | 0, _, _, _ => .error .diverges
  | fuel + 1, s, heapAddr, remainingSize =>
    if remainingSize = 0 then .ok s
    else do
      let order := fitOrder heapAddr
        (min (sub32 (log2U32 remainingSize) buddyExponMin) buddyOrderMax)
      let curSize := 2 ^ (order + buddyExponMin)
      assert (order ≠ 0 ∨ heapAddr % pageSize = 0)
      let i := descOf W s heapAddr
      let s := s.modify i fun d => { d with
        flags := { d.flags with head := true }, buddyCache := .buddies order,
        buddyOrder := .num order, virtAddr := heapAddr }
      let s := pushFree s order i
      let s := s.modify i fun d => { d with numPages := .num (curSize / pageSize) }
      if isInit then
        addBuddies isInit fuel s (u32 (heapAddr + curSize)) (sub32 remainingSize curSize)
      else
        let s ← mergeUpwards W (buddyOrderMax + 2) s i order
        addBuddies isInit fuel s (u32 (heapAddr + curSize)) (sub32 remainingSize curSize)

/-! ## Slabs -/

/-- `pages_for_obj_size`. -/
def pagesForObjSize (objSize : Nat) : Nat :=
  let minTotalBytes := u32 (objSize * 32)
  let pagesSize := 2 ^ log2U32 (max (alignUpPow2 minTotalBytes) pageSize)
  min (pagesSize / pageSize) 64

/-- The loop of `init_slab_free_list`; a node has `prev_free` and then `next_free`. -/
def linkObjects (objSize : Nat) : Nat → HeapVars ω → Nat → HeapVars ω
  | 0, s, lastPtr => s.store (lastPtr + 4) (.num 0)
  | n + 1, s, lastPtr =>
    let currentPtr := u32 (lastPtr + objSize)
    let s := s.store (lastPtr + 4) (.num currentPtr)
    let s := s.store currentPtr (.num lastPtr)
    linkObjects objSize n s currentPtr

/-- `init_slab_free_list`. -/
def initSlabFreeList (s : HeapVars ω) (baseAddr objSize objCount : Nat) : HeapVars ω :=
  linkObjects objSize (objCount - 1) (s.store baseAddr (.num 0)) baseAddr

/-- The `n` descriptors after the head of a new slab, from `va` on. -/
def markTails (head : Nat) : Nat → HeapVars ω → Nat → HeapVars ω
  | 0, s, _ => s
  | n + 1, s, va =>
    let s := s.modify (descOf W s va) fun d => { d with
      flags := { d.flags with buddy := false, head := false }, numPages := .page head }
    markTails head n s (u32 (va + pageSize))

/-- The `n` descriptors after the head of a slab that is given back. -/
def unmarkTails : Nat → HeapVars ω → Nat → HeapVars ω
  | 0, s, _ => s
  | n + 1, s, va =>
    let s := s.modify (descOf W s va) fun d => { d with
      flags := { d.flags with buddy := true }, numPages := .num 0 }
    unmarkTails n s (u32 (va + pageSize))

/-- `if (node) node->prev_free = prev;` -/
def setNodePrev (s : HeapVars ω) (node : Nat) (prev : Nat) : HeapVars ω :=
  if node = 0 then s else s.store node (.num prev)

/-- `if (p) p->prev_slab = w;` through a word of the union; a number that is not
NULL is an address of the kernel's memory. -/
def setPrevSlab (s : HeapVars ω) (p w : Word) : Kernel (HeapVars ω) :=
  match p with
  | .num 0 => .ok s
  | .num addr => .ok (s.store (addr + 8) w)
  | .page i => .ok (s.modify i fun d => { d with buddyOrder := w })
  | _ => .error .outOfBounds

/-- `if (p) p->next_slab = w;` -/
def setNextSlab (s : HeapVars ω) (p w : Word) : Kernel (HeapVars ω) :=
  match p with
  | .num 0 => .ok s
  | .num addr => .ok (s.store (addr + 12) w)
  | .page i => .ok (s.modify i fun d => { d with prevFree := w })
  | _ => .error .outOfBounds

/-- `node ? node->next_free : NULL`. -/
def nodeNext (s : HeapVars ω) (node : Nat) : Kernel Nat :=
  if node = 0 then .ok 0 else (s.mem (node + 4)).nat

/-- The first branch of `alloc_slab`: an object of the first slab with a free one. -/
def allocFromSlab (s : HeapVars ω) (cache i : Nat) : Kernel (HeapVars ω × Nat) := do
  let usedNode ← (s.desc i).nextFree.nat
  let next ← nodeNext s usedNode
  let s := s.modify i fun d => { d with nextFree := .num next }
  let s := setNodePrev s next 0
  let s := s.modify i fun d => d.setCounts d.objCount (d.usedCount + 1)
  if (s.desc i).usedCount = (s.desc i).objCount then
    let s ← setPrevSlab s (s.desc i).prevFree (.num 0)
    let nextSlab ← (s.desc i).prevFree.ptr
    return (s.setFreeSlab cache nextSlab, usedNode)
  else return (s, usedNode)

/-- The second branch of `alloc_slab`: the block at `buddyAddr` becomes a slab. Of
the fields of the union `prev_slab` is not written. -/
def initSlab (s : HeapVars ω) (cache buddyAddr : Nat) : Kernel (HeapVars ω × Nat) := do
  let i := descOf W s buddyAddr
  let s := s.modify i fun d => { d with flags := { d.flags with buddy := false } }
  let objSize := (s.slabs cache).objSize
  if objSize = 0 then .error .divideByZero
  else
    let objCount := (s.slabs cache).slabSize / objSize
    assert (objCount ≠ 0)
    let s := s.modify i fun d => { d.setCounts objCount 0 with buddyCache := .slabs cache }
    let pages ← (s.desc i).numPages.nat
    let bytes := u32 (pages * pageSize)
    let s := markTails W i ((bytes + pageSize - 1) / pageSize - 1) s (u32 (buddyAddr + pageSize))
    let s := initSlabFreeList s buddyAddr objSize (objCount % 2 ^ 16)
    let s := s.modify i fun d => { d with prevFree := .num 0 }
    let s := s.setFreeSlab cache (some i)
    let usedNode := buddyAddr
    let next ← nodeNext s usedNode
    let s := s.modify i fun d => { d with nextFree := .num next }
    let s := setNodePrev s next 0
    let s := s.modify i fun d => d.setCounts d.objCount 1
    return (s, usedNode)

/-- `alloc_slab`. -/
def allocSlab (allocBuddy : HeapVars ω → Nat → Kernel (HeapVars ω × Nat)) (s : HeapVars ω)
    (cache : Nat) : Kernel (HeapVars ω × Nat) :=
  match (s.slabs cache).freeSlab with
  | some i => allocFromSlab s cache i
  | none => do
    let (s, buddyAddr) ← allocBuddy s (s.slabs cache).slabSize
    initSlab W s cache buddyAddr

/-! ## Allocation of blocks, and growth -/

/-- `vmap_pages`, with `kvregion_mark`: the interval of the region is an object of
the slab cache `interval_cache`. The flags are those of `VREGION_HEAP`. -/
def vmapPages (allocBuddy : HeapVars ω → Nat → Kernel (HeapVars ω × Nat)) (s : HeapVars ω)
    (va : Nat) (pfn : Word) (count : Nat) : Kernel (HeapVars ω) := do
  let (s, interval) ← allocSlab W allocBuddy s s.intervalCache
  assert (interval ≠ 0)
  let world ← W.markRegion s.world interval va count
  let world ← W.pagingMapPages world (W.pfnToPa world pfn) va count 0x71
  return { s with world }

def addHeapRegion (allocBuddy : HeapVars ω → Nat → Kernel (HeapVars ω × Nat)) (s : HeapVars ω)
    (addSize : Nat) : Kernel (HeapVars ω) := do
  assert (addSize ≠ 0 ∧ addSize % pageSize = 0)
  if u32 (s.curMaxAddr + addSize) > s.reservedMaxAddr then .error .abort
  else
    let (world, page) ← W.mmAllocPages s.world (addSize / pageSize)
    let s := { s with world }
    let s ← vmapPages W allocBuddy s s.curMaxAddr (.num (W.pfnToPa world (.page page)))
      (addSize / pageSize)
    let s ← addBuddies W false (addSize / pageSize + 1) s s.curMaxAddr addSize
    return { s with
      curMaxAddr := u32 (s.curMaxAddr + addSize), curSize := u32 (s.curSize + addSize) }

def growHeap (allocBuddy : HeapVars ω → Nat → Kernel (HeapVars ω × Nat)) (s : HeapVars ω)
    (failedSize : Nat) : Kernel (HeapVars ω) :=
  let growSize := min (max failedSize s.curSize) (sub32 s.reservedMaxSize s.curSize)
  if u32 (s.curSize + growSize) > s.reservedMaxSize then .error .abort
  else addHeapRegion W allocBuddy s growSize

/-- `while (order <= BUDDY_ORDER_MAX && heap.free_buddies[order] == NULL) order++`,
`n` orders from `order` on. -/
def findOrder (s : HeapVars ω) : Nat → Nat → Nat
  | 0, order => order
  | n + 1, order => if s.freeBuddies order = none then findOrder s n (order + 1) else order

/-- One turn of the loop that splits: the first block of the list becomes two of
the next smaller order. -/
def splitFirst (s : HeapVars ω) (order : Nat) : Kernel (HeapVars ω) :=
  match s.freeBuddies order with
  | none => .error .nullDeref
  | some obj => do
    let next ← (s.desc obj).nextFree.ptr
    let s := setPrevFree s next (.num 0)
    let s := s.setHead order next
    let order := order - 1
    let va := (s.desc obj).virtAddr
    let cur := descOf W s va
    let neighborVa := u32 (va + 2 ^ (order + buddyExponMin))
    let neighbor := descOf W s neighborVa
    let pages ← (s.desc cur).numPages.nat
    let s := s.modify cur fun d => { d with
      numPages := .num (pages / 2), buddyOrder := .num order, buddyCache := .buddies order }
    let s := s.modify neighbor fun _ => {
      flags := ⟨true, true, true⟩, numPages := (s.desc cur).numPages, virtAddr := neighborVa,
      buddyOrder := .num order, prevFree := .num 0, nextFree := .num 0,
      buddyCache := .buddies order }
    let s := pushFree s order obj
    return pushFree s order neighbor

/-- `while (order != og_order)`, `n` turns. -/
def splitDown : Nat → HeapVars ω → Nat → Kernel (HeapVars ω)
  | 0, s, _ => .ok s
  | n + 1, s, order => do
    let s ← splitFirst W s order
    splitDown n s (order - 1)

/-- The first block of the list is handed out. -/
def takeFirst (s : HeapVars ω) (order : Nat) : Kernel (HeapVars ω × Nat) :=
  match s.freeBuddies order with
  | none => .error .nullDeref
  | some obj => do
    let next ← (s.desc obj).nextFree.ptr
    let s := s.setHead order next
    let va := (s.desc obj).virtAddr
    let s := s.modify (descOf W s va) fun d => { d with flags := { d.flags with vfree := false } }
    return (setPrevFree s next (.num 0), va)

/-- `alloc_buddy`. -/
def allocBuddy : Nat → HeapVars ω → Nat → Kernel (HeapVars ω × Nat)
  | 0, _, _ => .error .diverges
  | fuel + 1, s, size => do
    assert (size ≠ 0 ∧ size % pageSize = 0)
    assert (size &&& (size - 1) = 0)
    let ogOrder := log2U32 size - buddyExponMin
    let order := findOrder s (buddyOrderMax + 1 - ogOrder) ogOrder
    if order > buddyOrderMax then
      let s ← growHeap W (allocBuddy fuel) s size
      allocBuddy fuel s size
    else
      let s ← splitDown W (order - ogOrder) s order
      takeFirst W s ogOrder

/-- `free_buddy`. -/
def freeBuddy (s : HeapVars ω) (addr : Nat) : Kernel (HeapVars ω) := do
  assert (addr % pageSize = 0)
  let cur := descOf W s addr
  assert (s.desc cur).flags.buddy
  assert (s.desc cur).flags.head
  assert (!(s.desc cur).flags.vfree)
  let pages ← (s.desc cur).numPages.nat
  assert (pages &&& sub32 pages 1 = 0)
  assert (pages > 0)
  let order := log2U32 pages
  assert ((s.desc cur).buddyCache = .buddies order)
  let s := s.modify cur fun d => { d with flags := { d.flags with vfree := true } }
  let s := pushFree s order cur
  let s := s.modify cur fun d => { d with virtAddr := addr, buddyOrder := .num order }
  mergeUpwards W (buddyOrderMax + 2) s cur order

/-- The descriptor of the slab an object is in. -/
def slabOf (s : HeapVars ω) (desc : Nat) : Kernel Nat :=
  if (s.desc desc).flags.head then .ok desc
  else do
    let head ← (s.desc desc).numPages.ptr
    match head with
    | some i => return i
    | none => .error .nullDeref

/-- A slab that was full comes back to the front of the list of its order. -/
def relinkFull (s : HeapVars ω) (cache i : Nat) : HeapVars ω :=
  if (s.desc i).usedCount = (s.desc i).objCount then
    let head := (s.slabs cache).freeSlab
    let s := s.modify i fun d => { d with buddyOrder := .num 0, prevFree := .ofPtr head }
    let s := match head with
      | some j => s.modify j fun d => { d with buddyOrder := .page i }
      | none => s
    s.setFreeSlab cache (some i)
  else s

/-- The end of `free_slab`: a slab whose last object came back is a block again. -/
def returnSlab (freeBuddy : HeapVars ω → Nat → Kernel (HeapVars ω)) (s : HeapVars ω)
    (cache i addr : Nat) : Kernel (HeapVars ω) := do
  let pages ← (s.desc i).numPages.nat
  let buddyOrder := log2U32 pages
  let pagesTotalSize := 2 ^ (buddyOrder + buddyExponMin)
  let slabStartAddr := addr / pagesTotalSize * pagesTotalSize
  let bytes := u32 (pages * pageSize)
  let s := unmarkTails W ((bytes + pageSize - 1) / pageSize - 1) s (u32 (slabStartAddr + pageSize))
  let s := s.modify i fun d => { d with
    flags := { d.flags with buddy := true }, buddyCache := .buddies buddyOrder }
  let s ← setNextSlab s (s.desc i).buddyOrder (s.desc i).prevFree
  let s ← setPrevSlab s (s.desc i).prevFree (s.desc i).buddyOrder
  if (s.slabs cache).freeSlab = some i then
    let next ← (s.desc i).prevFree.ptr
    freeBuddy (s.setFreeSlab cache next) slabStartAddr
  else freeBuddy s slabStartAddr

/-- `free_slab`. -/
def freeSlab (freeBuddy : HeapVars ω → Nat → Kernel (HeapVars ω)) (s : HeapVars ω) (addr : Nat) :
    Kernel (HeapVars ω) := do
  let desc := descOf W s addr
  assert (!(s.desc desc).flags.buddy)
  let i ← slabOf s desc
  let cache ← (s.desc i).buddyCache.slabOrder
  assert ((s.slabs cache).slabOrder < slabOrderCount ∨
    (s.slabs cache).slabOrder = slabCustomOrder)
  let freeNode ← (s.desc i).nextFree.nat
  let s := s.store addr (.num 0)
  let s := s.store (addr + 4) (.num freeNode)
  let s := setNodePrev s freeNode addr
  let s := s.modify i fun d => { d with nextFree := .num addr }
  let s := relinkFull s cache i
  let s := s.modify i fun d => d.setCounts d.objCount (sub32 d.usedCount 1)
  if (s.desc i).usedCount ≠ 0 then return s
  else returnSlab W freeBuddy s cache i addr

/-! ## The interface -/

/-- `memcpy`, on blocks that are whole words. -/
def copyWords : Nat → HeapVars ω → Nat → Nat → HeapVars ω
  | 0, s, _, _ => s
  | n + 1, s, dst, src => copyWords n (s.store dst (s.mem src)) (dst + 4) (src + 4)

def kmalloc (fuel : Nat) (s : HeapVars ω) (size : Nat) : Kernel (HeapVars ω × Nat) :=
  if size > 2 ^ slabExponMax then do
    let size := alignUpPow2 size
    assert (size ≠ 0)
    allocBuddy W fuel s size
  else do
    let size := max (alignUpPow2 size) (2 ^ slabExponMin)
    assert (log2U32 size ≤ slabExponMax)
    assert (size &&& (size - 1) = 0)
    allocSlab W (allocBuddy W fuel) s (log2U32 size - slabExponMin)

/-- `kmalloc_aligned`: the size is always the alignment. -/
def kmallocAligned (fuel : Nat) (s : HeapVars ω) (alignment size : Nat) :
    Kernel (HeapVars ω × Nat) :=
  kmalloc W fuel s (max alignment size)

def kfree (s : HeapVars ω) (addr : Nat) : Kernel (HeapVars ω) :=
  if (s.desc (descOf W s addr)).flags.buddy then freeBuddy W s addr
  else freeSlab W (freeBuddy W) s addr

/-- `get_buddy_size`. -/
def getBuddySize (s : HeapVars ω) (addr : Nat) : Kernel Nat := do
  let i := descOf W s addr
  assert (s.desc i).flags.head
  let order ← (s.desc i).buddyOrder.nat
  return 2 ^ (order + buddyExponMin)

/-- `krealloc`. -/
def krealloc (fuel : Nat) (s : HeapVars ω) (addr newSize : Nat) : Kernel (HeapVars ω × Nat) :=
  if addr = 0 then kmalloc W fuel s newSize
  else if (s.desc (descOf W s addr)).flags.buddy then do
    let oldSize ← getBuddySize W s addr
    if oldSize ≥ newSize then return (s, addr)
    else
      let (s, newAddr) ← allocBuddy W fuel s (alignUpPow2 newSize)
      if newAddr = 0 then return (s, 0)
      else
        let s ← freeBuddy W (copyWords (oldSize / 4) s newAddr addr) addr
        return (s, newAddr)
  else do
    let i ← slabOf s (descOf W s addr)
    let cache ← (s.desc i).buddyCache.slabOrder
    let oldSize := (s.slabs cache).objSize
    if oldSize ≥ newSize then return (s, addr)
    else if cache ≥ slabOrderCount then return (s, 0)
    else
      let newSize := alignUpPow2 newSize
      let index := (log2U32 newSize + 2 ^ 8 - slabExponMin) % 2 ^ 8
      let (s, newAddr) ← if index < slabOrderCount then allocSlab W (allocBuddy W fuel) s index
        else allocBuddy W fuel s newSize
      if newAddr = 0 then return (s, 0)
      else
        let s ← freeSlab W (freeBuddy W) (copyWords (oldSize / 4) s newAddr addr) addr
        return (s, newAddr)

/-- `kcreate_slab_cache`; the cache is known by its address from then on. -/
def kcreateSlabCache (fuel : Nat) (s : HeapVars ω) (objSize : Nat) : Kernel (HeapVars ω × Nat) := do
  assert (objSize ≥ 8)
  let objSize := u32 (objSize + 3) / 4 * 4
  let (s, cache) ← kmalloc W fuel s 20
  return ({ s with slabs := fun c => if c = cache then {
    slabOrder := slabCustomOrder, objSize, slabSize := u32 (pagesForObjSize objSize * pageSize),
    freeSlab := none } else s.slabs c }, cache)

/-- `init_heap_vars`. -/
def initHeapVars (s : HeapVars ω) (size maxSize startVa : Nat) : HeapVars ω :=
  { s with
    curSize := size
    freeBuddies := fun _ => none
    slabs := fun c => if c < slabOrderCount then {
      slabOrder := c, objSize := 2 ^ (slabExponMin + c),
      slabSize := u32 (pagesForObjSize (2 ^ (slabExponMin + c)) * pageSize), freeSlab := none }
      else s.slabs c
    minAddr := startVa
    curMaxAddr := u32 (startVa + size)
    reservedMaxAddr := u32 (startVa + maxSize)
    reservedMaxSize := maxSize }

/-- `init_heap`. The flags are those of `PAGING_FLAG_READ`, `WRITE` and `NOEXEC`. -/
def initHeap (s : HeapVars ω) (heapAddr maxSize initSize : Nat) : Kernel (HeapVars ω) := do
  assert (heapAddr % pageSize = 0)
  assert (initSize ≠ 0)
  assert (initSize % pageSize = 0)
  assert (initSize < 2 ^ buddyExponMax)
  let s := initHeapVars s initSize maxSize heapAddr
  let (world, page) ← W.mmAllocPages s.world (initSize / pageSize)
  let world ← W.pagingMapPages world (W.pfnToPa world (.page page)) heapAddr (initSize / pageSize)
    0x70
  addBuddies W true (initSize / pageSize + 1) { s with world } heapAddr initSize

end X86Kernel.Heap
