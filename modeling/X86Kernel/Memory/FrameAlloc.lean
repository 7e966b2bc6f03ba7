import X86Kernel.Core

/- The frame allocator (`kernel/memory/phys_alloc/frame_alloc.c`): the page
   descriptors, one for each frame, and in them the list of the free runs. The
   first descriptor of a run is in the list and carries the length of the run in
   `count`, and so does the last one.

   This module is the model. A `page_t*` is the index of a descriptor, or NULL;
   an access to an index that no descriptor has is a fault. Of the union in
   `page_t` only the part of the free list is here. The walk over the list that
   takes more turns than there are descriptors goes round for ever.

   Correspondence (C ↔ Lean):
     `page_t`                  ↔ `Page`
     `pfn_data`, `page_desc_free_ll` ↔ `Frames`
     `pfn_mark_pages`          ↔ `pfnMarkPages`
     `pfn_range_set_type`      ↔ `pfnRangeSetType`
     `frame_alloc_phys_pages`  ↔ `frameAllocPhysPages` (`findBlock`, `assertUnused`,
                                  `shrinkBlock`)
     `frame_free_phys_pages`   ↔ `frameFreePhysPages` (`mergeBackwards`, `mergeForwards`)
     `build_free_list`         ↔ `buildFreeList` -/
namespace X86Kernel.Frame

/-- `enum phys_page_type`. -/
inductive PageType where
  | none
  | oneMiB
  | reserved
  | unused
  | acpi
  | mmio
  | kernelImg
  | pfn
  | driver
  | physPages
  | used
  deriving DecidableEq, Repr

/-- `page_t`, with `u.free_page`. -/
structure Page where
  refCount : Nat
  flags : Nat
  type : PageType
  nextDesc : Option Nat
  prevDesc : Option Nat
  count : Nat
  deriving DecidableEq, Repr

/-- The descriptors, their number and the head of the free list. -/
structure Frames where
  count : Nat
  desc : Nat → Page
  freeLl : Option Nat

/-! ## Descriptors -/

def load (s : Frames) (i : Nat) : Kernel Page :=
  if i < s.count then .ok (s.desc i) else .error .outOfBounds

def Frames.set (s : Frames) (i : Nat) (p : Page) : Frames :=
  { s with desc := fun j => if j = i then p else s.desc j }

def modify (s : Frames) (i : Nat) (f : Page → Page) : Kernel Frames :=
  if i < s.count then .ok (s.set i (f (s.desc i))) else .error .outOfBounds

/-- `if (p) p->u.free_page.next_desc = q; else page_desc_free_ll = q;` -/
def setNextOf (s : Frames) (p q : Option Nat) : Kernel Frames :=
  match p with
  | some i => modify s i fun d => { d with nextDesc := q }
  | none => .ok { s with freeLl := q }

/-- `if (p) p->u.free_page.prev_desc = q;` -/
def setPrevOf (s : Frames) (p q : Option Nat) : Kernel Frames :=
  match p with
  | some i => modify s i fun d => { d with prevDesc := q }
  | none => .ok s

/-- A descriptor is taken out of the list. -/
def unlink (s : Frames) (i : Nat) : Kernel Frames := do
  let d ← load s i
  let s ← setNextOf s d.prevDesc d.nextDesc
  setPrevOf s d.nextDesc d.prevDesc

/-- A descriptor is put at the front of the list. -/
def pushFront (s : Frames) (i : Nat) : Kernel Frames := do
  let s ← modify s i fun d => { d with prevDesc := none, nextDesc := s.freeLl }
  let s ← setPrevOf s s.freeLl (some i)
  return { s with freeLl := some i }

def setCount (s : Frames) (i n : Nat) : Kernel Frames := modify s i fun d => { d with count := n }

/-- `pfn_mark_pages`, `n` descriptors from `begin` on. -/
def pfnMarkPages (type : PageType) (flags refCount : Nat) : Nat → Frames → Nat → Kernel Frames
  | 0, s, _ => .ok s
  | n + 1, s, begin => do
    let s ← modify s begin fun d => { d with type, flags, refCount }
    pfnMarkPages type flags refCount n s (begin + 1)

def pfnRangeSetType (type : PageType) : Nat → Frames → Nat → Kernel Frames
  | 0, s, _ => .ok s
  | count + 1, s, i => do
    let s ← modify s i fun d => { d with type }
    pfnRangeSetType type count s (i + 1)

/-! ## Allocation -/

/-- The walk over the list for a run that is long enough. -/
def findBlock (s : Frames) (requestCount : Nat) : Nat → Option Nat → Kernel (Option Nat)
  | 0, _ => .error .diverges
  | fuel + 1, it =>
    match it with
    | none => .ok none
    | some i => do
      let d ← load s i
      if d.count < requestCount then findBlock s requestCount fuel d.nextDesc else return some i

/-- The assertions on the `n` descriptors from `i` on. -/
def assertUnused (s : Frames) : Nat → Nat → Kernel Unit
  | 0, _ => .ok ()
  | n + 1, i => do
    let d ← load s i
    assert (decide (d.refCount = 0))
    assert (decide (d.type = .unused))
    assertUnused s n (i + 1)

/-- What is left of the run at `i`: nothing, or `newCount` pages. The new foot is
taken at the first page that was handed out, one too far. -/
def shrinkBlock (s : Frames) (i newCount allocStartIndex : Nat) : Kernel Frames :=
  if newCount = 0 then unlink s i
  else do
    let s ← setCount s i newCount
    setCount s allocStartIndex newCount

/-- `frame_alloc_phys_pages`: the first page of the range, or NULL. One page more
than the range is marked as used. -/
def frameAllocPhysPages (s : Frames) (requestCount : Nat) : Kernel (Frames × Option Nat) := do
  let found ← findBlock s requestCount (s.count + 1) s.freeLl
  match found with
  | none => return (s, none)
  | some i =>
    let d ← load s i
    let blockCount := d.count
    let blockEndIndex := u32 (i + blockCount)
    let allocStartIndex := sub32 blockEndIndex requestCount
    assertUnused s (sub32 blockEndIndex allocStartIndex) allocStartIndex
    let s ← pfnRangeSetType .used (u32 (sub32 blockEndIndex allocStartIndex + 1)) s allocStartIndex
    let s ← shrinkBlock s i (sub32 blockCount requestCount) allocStartIndex
    return (s, some allocStartIndex)

/-! ## Freeing -/

/-- The run that ends right before `begin` is joined; its head stays linked. The
head of the joined run. -/
def mergeBackwards (s : Frames) (begin : Nat) : Kernel Nat :=
  if begin = 0 then .ok begin
  else do
    let oldFoot ← load s (begin - 1)
    if oldFoot.type = .unused then return sub32 begin oldFoot.count else return begin

/-- The run that starts at `pageEnd` is joined and taken out of the list. The foot
of the joined run. -/
def mergeForwards (s : Frames) (pageEnd : Nat) : Kernel (Frames × Nat) :=
  if pageEnd < s.count then do
    let oldHead ← load s pageEnd
    if oldHead.type = .unused then
      let s ← unlink s pageEnd
      return (s, sub32 (u32 (pageEnd + oldHead.count)) 1)
    else return (s, sub32 pageEnd 1)
  else .ok (s, sub32 pageEnd 1)

/-- `frame_free_phys_pages`. -/
def frameFreePhysPages (s : Frames) (pfn count : Nat) : Kernel Frames := do
  let start := u32 (pageSize * pfn)
  let stop := u32 (start + u32 (count * pageSize))
  let pageIndexBegin := start / pageSize
  let pageIndexEnd := stop / pageSize
  if s.count ≤ pageIndexBegin then return s
  else
    let pageIndexEnd := if s.count < pageIndexEnd then s.count else pageIndexEnd
    let s ← pfnMarkPages .unused 0 0 (pageIndexEnd - pageIndexBegin) s pageIndexBegin
    let curHead ← mergeBackwards s pageIndexBegin
    let (s, curFoot) ← mergeForwards s pageIndexEnd
    let curCount := u32 (sub32 curFoot curHead + 1)
    let s ← setCount s curHead curCount
    let s ← setCount s curFoot curCount
    pushFront s curHead

/-! ## The first list -/

/-- Descriptors that are not unused, from `i` on, lose what the union holds. -/
def skipUsed : Nat → Frames → Nat → Frames × Nat
  | 0, s, i => (s, i)
  | fuel + 1, s, i =>
    if i < s.count ∧ (s.desc i).type ≠ .unused then
      skipUsed fuel (s.set i { s.desc i with count := 0, prevDesc := none, nextDesc := none })
      (i + 1)
    else (s, i)

/-- The end of the run of unused descriptors from `i` on. -/
def skipUnused (s : Frames) : Nat → Nat → Nat
  | 0, i => i
  | fuel + 1, i => if i < s.count ∧ (s.desc i).type = .unused then skipUnused s fuel (i + 1) else i

def buildFreeListLoop : Nat → Frames → Nat → Nat → Kernel (Frames × Nat)
  | 0, _, _, _ => .error .diverges
  | fuel + 1, s, i, freeCount =>
    if i < s.count then
      let (s, i) := skipUsed (s.count - i) s i
      if s.count ≤ i then .ok (s, freeCount)
      else do
        let runStart := i
        let i := skipUnused s (s.count - i) i
        let count := i - runStart
        if count = 0 then buildFreeListLoop fuel s i freeCount
        else
          let s ← setCount s runStart count
          let s ← setCount s (runStart + count - 1) count
          let s ← pushFront s runStart
          buildFreeListLoop fuel s i (freeCount + count)
    else .ok (s, freeCount)

/-- `build_free_list`, with the number of free pages. -/
def buildFreeList (s : Frames) : Kernel (Frames × Nat) :=
  buildFreeListLoop (s.count + 1) { s with freeLl := none } 0 0

end X86Kernel.Frame
