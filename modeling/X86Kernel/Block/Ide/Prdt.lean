import Mathlib.Algebra.BigOperators.Ring.List
import Mathlib.Algebra.Order.BigOperators.Group.List
import Mathlib.Algebra.Order.Group.Nat
import X86Kernel.Block.Ide.Ports
import X86Kernel.Lib.Outcome
import X86Kernel.Memory.Heap.Krealloc

/- The PRD table of a channel (`fill_prdt` and `prdt_iterate_chunk_prd` in
   `kernel/arch/i386/drivers/pci/ide.c`): which memory the bus master is told to transfer.

   What is proved: for sector-aligned chunks below 4 GiB in total, `fill_prdt` returns, the
   entries list the bytes of the chunks in order, each is a number of sectors inside one block
   of 64 KiB, the last one and no other carries the end mark, and the count is that of the
   chunks (`fillPrdt_lists`). It fails only where a full table is to be doubled and `krealloc`
   returns NULL (`NoMemory`).

   The inner loop moves `cur_pa` and adds to `cur_chunk_size` both, so the address it tests
   for physical continuity is ahead of the next one from the second turn on: an entry is at
   most two pages (`chunkPrdLoop_ok`).

   The block of the table is a list of entries, and `krealloc` a function that returns the
   new block: it is as large as asked for and begins with the old one (`Reallocates`), as that
   of the heap is and does (`reallocates_of_heap`).

   Correspondence (C ↔ Lean):
     `ide_prd_entry_t`        ↔ `PrdEntry`
     `ide_dma_vars_t`         ↔ `DmaVars`
     `init_dma_devices`       ↔ `initPrdt` (one channel)
     `prdt_iterate_chunk_prd` ↔ `prdtIterateChunkPrd` (`growPrdt`, `chunkPrdLoop`)
     `fill_prdt`              ↔ `fillPrdt` (`fillChunk`, `fillChunks`) -/
namespace X86Kernel.Ide.Prdt
open X86Kernel.Lib

def sectorSize : Nat := 512

/-- `PRD_MAX_BOUNDARY`. -/
def prdMaxBoundary : Nat := 0x10000

def prdLastBit : Nat := 0x8000

structure PrdEntry where
  physAddr : Nat
  bytesSize : Nat
  flags : Nat
  deriving DecidableEq, Repr

/-- `sizeof(ide_prd_entry_t)`. -/
def prdEntrySize : Nat := 8

/-- What `fill_prdt` uses of `ide_dma_vars_t`; `prdt` is the block the pointer points to. -/
structure DmaVars where
  prdt : List PrdEntry
  prdtCapacity : Nat

/-- `PRD_ENTRIES_PER_CHANNEL`. -/
def prdEntriesPerChannel : Nat := 8

/-- `init_dma_devices`, for a channel with a drive that supports DMA; `block` is what
`kmalloc_aligned(64, sizeof(ide_prd_entry_t) * PRD_ENTRIES_PER_CHANNEL)` returns. -/
def initPrdt (block : Option (List PrdEntry)) : Kernel DmaVars :=
  match block with
  | none => .error .assertion
  | some prdt => .ok ⟨prdt, prdEntriesPerChannel⟩

section Model

variable (krealloc : List PrdEntry → Nat → Option (List PrdEntry))

/-- A table that is full is doubled. -/
def growPrdt (prdIndex : Nat) (dma : DmaVars) : Kernel DmaVars :=
  if prdIndex ≥ dma.prdtCapacity then
    let newCapacity := dma.prdtCapacity * 2 % 2 ^ 64
    match krealloc dma.prdt (u32 (prdEntrySize * newCapacity)) with
    | none => .error .assertion
    | some prdt => .ok ⟨prdt, newCapacity⟩
  else .ok dma

/-- `take`: up to the end of the page at `next` and of the 64 KiB at `cur`, in sectors. -/
def chunkTake (remaining next cur : Nat) : Nat :=
  let pageOffset := next % pageSize
  let pageSpace := pageSize - pageOffset
  let take := if remaining < pageSpace then remaining else pageSpace
  let boundary := prdMaxBoundary - cur % prdMaxBoundary
  let take := if take > boundary then boundary else take
  take - take % sectorSize

/-- The loop of `prdt_iterate_chunk_prd`, with `remaining`, `cur_chunk_size` and `cur_pa`: the
bytes that remain, and the size of the entry. -/
def chunkPrdLoop (pa : Nat) : Nat → Nat → Nat → Nat → Kernel (Nat × Nat)
  | 0, _, _, _ => .error .diverges
  | fuel + 1, remaining, curChunkSize, curPa =>
    if remaining = 0 then .ok (remaining, curChunkSize)
    else
      let take := chunkTake remaining (u32 (pa + curChunkSize)) (u32 (curPa + curChunkSize))
      if take = 0 then .ok (remaining, curChunkSize)
      else
        let curChunkSize := u32 (curChunkSize + take)
        let remaining := remaining - take
        if remaining = 0 then .ok (remaining, curChunkSize)
        else
          -- phys must be continuous
          let nextPa := u32 (pa + curChunkSize)
          if nextPa ≠ u32 (curPa + curChunkSize) then .ok (remaining, curChunkSize)
          else if curPa - curPa % prdMaxBoundary ≠ nextPa - nextPa % prdMaxBoundary then
            .ok (remaining, curChunkSize)
          else chunkPrdLoop pa fuel remaining curChunkSize nextPa

/-- `prdt[prd_index] = e`. -/
def DmaVars.set (dma : DmaVars) (prdIndex : Nat) (e : PrdEntry) : Kernel DmaVars :=
  if prdIndex < dma.prdt.length then .ok { dma with prdt := dma.prdt.set prdIndex e }
  else .error .outOfBounds

/-- `prdt_iterate_chunk_prd`: the table, and `remaining` and `pa` after the entry. -/
def prdtIterateChunkPrd (prdIndex : Nat) (dma : DmaVars) (remaining pa : Nat) :
    Kernel (DmaVars × Nat × Nat) := do
  let dma ← growPrdt krealloc prdIndex dma
  let (remaining, curChunkSize) ← chunkPrdLoop pa (remaining + 1) remaining 0 pa
  let bytesSize := if curChunkSize = prdMaxBoundary then 0 else curChunkSize % 2 ^ 16
  let dma ← dma.set prdIndex ⟨pa, bytesSize, 0⟩
  return (dma, remaining, u32 (pa + curChunkSize))

/-- `while (remaining > 0)`: the entries of one chunk. -/
def fillChunk : Nat → Nat → DmaVars → Nat → Nat → Kernel (Nat × DmaVars)
  | 0, _, _, _, _ => .error .diverges
  | fuel + 1, prdIndex, dma, remaining, pa =>
    if remaining = 0 then .ok (prdIndex, dma)
    else do
      let (dma, remaining, pa) ← prdtIterateChunkPrd krealloc prdIndex dma remaining pa
      fillChunk fuel (prdIndex + 1) dma remaining pa

/-- The loop over the chunks: `prd_index`, the table and `total_sectors`. -/
def fillChunks : List (Nat × Nat) → Nat → DmaVars → Nat → Kernel (Nat × DmaVars × Nat)
  | [], prdIndex, dma, totalSectors => .ok (prdIndex, dma, totalSectors)
  | (paBuffer, sectors) :: rest, prdIndex, dma, totalSectors => do
    let pa := u32 paBuffer
    let remaining := u32 (sectors * sectorSize)
    assert (pa % sectorSize = 0)
    let (prdIndex, dma) ← fillChunk krealloc (remaining + 1) prdIndex dma remaining pa
    fillChunks rest prdIndex dma ((totalSectors + sectors) % 2 ^ 64)

/-- `prdt[i].flags |= PRD_LAST_BIT`. -/
def DmaVars.markLast (dma : DmaVars) (i : Nat) : Kernel DmaVars :=
  match dma.prdt[i]? with
  | none => .error .outOfBounds
  | some e => dma.set i { e with flags := e.flags ||| prdLastBit }

/-- `fill_prdt`: the table, the number of its entries, and the number of sectors. -/
def fillPrdt (dma : DmaVars) (chunks : List (Nat × Nat)) : Kernel (DmaVars × Nat × Nat) := do
  let (prdIndex, dma, totalSectors) ← fillChunks krealloc chunks 0 dma 0
  if prdIndex > 0 then
    let dma ← dma.markLast (prdIndex - 1)
    return (dma, prdIndex, totalSectors)
  else return (dma, prdIndex, totalSectors)

end Model

/-! ## The entries -/

/-- The bytes of an entry; size 0 stands for 64 KiB. -/
def PrdEntry.size (e : PrdEntry) : Nat := if e.bytesSize = 0 then prdMaxBoundary else e.bytesSize

/-- The addresses an entry tells the bus master to transfer, in order. -/
def PrdEntry.bytes (e : PrdEntry) : List Nat := List.range' e.physAddr e.size

/-- The addresses of a chunk, in order. -/
def chunkBytes (chunk : Nat × Nat) : List Nat := List.range' chunk.1 (chunk.2 * sectorSize)

/-- Whole sectors, at least one, and inside one block of 64 KiB. -/
structure PrdEntry.Sound (e : PrdEntry) : Prop where
  pos : 0 < e.size
  sectors : e.size % sectorSize = 0
  boundary : e.physAddr % prdMaxBoundary + e.size ≤ prdMaxBoundary

theorem chunkTake_eq {remaining next cur : Nat} (hremaining : remaining % sectorSize = 0)
    (hnext : next % sectorSize = 0) (hcur : cur % sectorSize = 0) :
    chunkTake remaining next cur =
      min remaining (min (pageSize - next % pageSize) (prdMaxBoundary - cur % prdMaxBoundary)) := by
  unfold chunkTake pageSize prdMaxBoundary sectorSize at *
  dsimp only
  split <;> split <;> omega

theorem chunkPrdLoop_second {pa first rest : Nat} (fuel : Nat) (hpage : (pa + first) % pageSize = 0)
    (hfirst : 0 < first ∧ first ≤ pageSize) (haligned : first % sectorSize = 0)
    (hpos : 0 < rest) (hrest : rest % sectorSize = 0) :
    ∃ second, chunkPrdLoop pa (fuel + 1) rest first (u32 (pa + first)) =
        .ok (rest - second, first + second) ∧
      0 < second ∧ second ≤ rest ∧ second ≤ pageSize ∧ second % sectorSize = 0 := by
  obtain ⟨next, hnext⟩ : ∃ n, u32 (pa + first) = n := ⟨_, rfl⟩
  obtain ⟨cur, hcur⟩ : ∃ n, u32 (next + first) = n := ⟨_, rfl⟩
  obtain ⟨second, hsecond⟩ : ∃ t, chunkTake rest next cur = t := ⟨_, rfl⟩
  unfold u32 at hnext hcur
  have hnextPage : next % 4096 = 0 := by
    unfold pageSize at hpage
    omega
  have hcurSector : cur % 512 = 0 := by
    unfold sectorSize at haligned
    omega
  have hmin := hsecond.symm.trans (chunkTake_eq hrest (by unfold sectorSize; omega) hcurSector)
  unfold pageSize prdMaxBoundary at hmin
  unfold pageSize sectorSize at *
  have hle : 0 < second ∧ second ≤ rest ∧ second ≤ 4096 ∧ second % 512 = 0 := by omega
  refine ⟨second, ?_, hle⟩
  have hsum : u32 (first + second) = first + second := u32_of_lt (by omega)
  rw [chunkPrdLoop, if_neg (by omega)]
  unfold u32
  rw [hnext, hcur, hsecond]
  dsimp only
  rw [if_neg (by omega)]
  unfold u32 at hsum
  rw [hsum]
  split
  · rfl
  · rw [if_pos]
    omega

/-- One entry is the rest of a page, and a further page at most. -/
theorem chunkPrdLoop_ok {pa remaining : Nat} (hpa : pa < 2 ^ 32) (haligned : pa % sectorSize = 0)
    (hremaining : remaining < 2 ^ 32) (hsectors : remaining % sectorSize = 0)
    (hpos : 0 < remaining) :
    ∃ size, chunkPrdLoop pa (remaining + 1) remaining 0 pa = .ok (remaining - size, size) ∧
      0 < size ∧ size ≤ remaining ∧ size ≤ 2 * pageSize ∧ size % sectorSize = 0 ∧
      pa % prdMaxBoundary + size ≤ prdMaxBoundary := by
  obtain ⟨first, hfirst⟩ : ∃ t, chunkTake remaining pa pa = t := ⟨_, rfl⟩
  have hmin := hfirst.symm.trans (chunkTake_eq hsectors haligned haligned)
  have hstart : u32 (pa + 0) = pa := u32_of_lt hpa
  have hle : 0 < first ∧ first ≤ remaining ∧ first ≤ pageSize ∧ first % sectorSize = 0 ∧
      pa % prdMaxBoundary + first ≤ prdMaxBoundary := by
    unfold sectorSize pageSize prdMaxBoundary at *
    omega
  obtain ⟨hfpos, hfle, hfpage, hfsector, hfblock⟩ := hle
  obtain ⟨fuel, rfl⟩ : ∃ n, remaining = n + 1 := ⟨remaining - 1, by omega⟩
  rw [chunkPrdLoop, if_neg (by omega), hstart, hfirst]
  dsimp only
  rw [if_neg (by omega), Nat.zero_add, u32_of_lt (show first < 2 ^ 32 by omega)]
  by_cases hdone : fuel + 1 - first = 0
  · rw [if_pos hdone]
    exact ⟨first, rfl, by omega, by omega, by omega, by omega, by omega⟩
  · rw [if_neg hdone, if_neg (by simp)]
    have hpage : (pa + first) % pageSize = 0 := by
      unfold sectorSize pageSize prdMaxBoundary at *
      omega
    by_cases hblock :
        pa - pa % prdMaxBoundary ≠ u32 (pa + first) - u32 (pa + first) % prdMaxBoundary
    · rw [if_pos hblock]
      exact ⟨first, rfl, by omega, by omega, by omega, by omega, by omega⟩
    · have hroom : pa % prdMaxBoundary + first + pageSize ≤ prdMaxBoundary := by
        unfold u32 at hblock
        unfold pageSize prdMaxBoundary at *
        omega
      obtain ⟨second, hrun, hspos, hsle, hspage, hssector⟩ := chunkPrdLoop_second fuel hpage
        ⟨hfpos, hfpage⟩ hfsector (show 0 < fuel + 1 - first by omega)
        (by unfold sectorSize at *; omega)
      rw [if_neg hblock, hrun, Nat.sub_sub]
      exact ⟨first + second, rfl, by omega, by omega, by omega,
        by unfold sectorSize at *; omega, by omega⟩

/-! ## The table -/

/-- `krealloc`, where it returns a block, returns one that is large enough and begins with the
contents of the old one. -/
structure Reallocates (krealloc : List PrdEntry → Nat → Option (List PrdEntry)) : Prop where
  size : ∀ {old new n}, krealloc old n = some new → n ≤ prdEntrySize * new.length
  kept : ∀ {old new n}, krealloc old n = some new → old <+: new

/-- A table with room for its capacity, and these entries in front. -/
structure DmaVars.Holds (dma : DmaVars) (es : List PrdEntry) : Prop where
  pos : 0 < dma.prdtCapacity
  room : dma.prdtCapacity ≤ dma.prdt.length
  entries : es <+: dma.prdt
  fits : es.length ≤ dma.prdtCapacity

/-- A table as `init_dma_devices` makes it and every request leaves it. -/
def DmaVars.Ready (dma : DmaVars) : Prop := dma.Holds []

/-- The tables of a request that begins with `dma₀`, each with the entries so far. -/
inductive TableOf (krealloc : List PrdEntry → Nat → Option (List PrdEntry)) (dma₀ : DmaVars) :
    DmaVars → List PrdEntry → Prop where
  | start : TableOf krealloc dma₀ dma₀ []
  | entry {dma dma' es e} : TableOf krealloc dma₀ dma es → dma.set es.length e = .ok dma' →
      TableOf krealloc dma₀ dma' (es ++ [e])
  | doubled {dma es prdt} : TableOf krealloc dma₀ dma es → dma.prdtCapacity ≤ es.length →
      krealloc dma.prdt (prdEntrySize * (dma.prdtCapacity * 2)) = some prdt →
      TableOf krealloc dma₀ ⟨prdt, dma.prdtCapacity * 2⟩ es

/-- The assertion on what `krealloc` returns fails: a table of the request is full, and there is
no memory for one twice as large. -/
def NoMemory (krealloc : List PrdEntry → Nat → Option (List PrdEntry)) (dma₀ : DmaVars)
    (e : Fault) : Prop :=
  e = .assertion ∧ ∃ dma es, TableOf krealloc dma₀ dma es ∧ dma.prdtCapacity ≤ es.length ∧
    krealloc dma.prdt (prdEntrySize * (dma.prdtCapacity * 2)) = none

/-- A table of the request with its entries. -/
structure Filling (krealloc : List PrdEntry → Nat → Option (List PrdEntry)) (dma₀ dma : DmaVars)
    (es : List PrdEntry) : Prop extends dma.Holds es where
  calls : TableOf krealloc dma₀ dma es

/-- What the entries of a chunk, or of several, are before the mark. -/
structure Entries (new : List PrdEntry) (bytes : Nat) : Prop where
  sound : ∀ e ∈ new, e.Sound
  flags : ∀ e ∈ new, e.flags = 0
  total : (new.map PrdEntry.size).sum = bytes

theorem Entries.nil : Entries [] 0 := ⟨nofun, nofun, rfl⟩

theorem Entries.single {e : PrdEntry} (hsound : e.Sound) (hflags : e.flags = 0) :
    Entries [e] e.size where
  sound := by
    intro e' he'
    obtain rfl := List.mem_singleton.1 he'
    exact hsound
  flags := by
    intro e' he'
    obtain rfl := List.mem_singleton.1 he'
    exact hflags
  total := List.sum_singleton

theorem Entries.append {a b : List PrdEntry} {m n : Nat} (ha : Entries a m) (hb : Entries b n) :
    Entries (a ++ b) (m + n) where
  sound := List.forall_mem_append.2 ⟨ha.sound, hb.sound⟩
  flags := List.forall_mem_append.2 ⟨ha.flags, hb.flags⟩
  total := by rw [List.map_append, List.sum_append, ha.total, hb.total]

/-- An entry is a sector at least. -/
theorem Entries.length_le : ∀ {new : List PrdEntry} {bytes : Nat}, Entries new bytes →
    sectorSize * new.length ≤ bytes := by
  intro new
  induction new with
  | nil => intro bytes _; exact Nat.zero_le _
  | cons e new ih =>
    intro bytes h
    have hrest := @ih (new.map PrdEntry.size).sum
      ⟨fun e' he' => h.sound e' (List.mem_cons_of_mem e he'),
        fun e' he' => h.flags e' (List.mem_cons_of_mem e he'), rfl⟩
    have hpos := (h.sound e (List.mem_cons_self ..)).pos
    have hsector := (h.sound e (List.mem_cons_self ..)).sectors
    have htotal := h.total
    rw [List.map_cons, List.sum_cons] at htotal
    rw [List.length_cons]
    unfold sectorSize at *
    omega

/-- The entries of a request: the last one carries the end mark, and no other. -/
structure Marked (es : List PrdEntry) : Prop where
  sound : ∀ e ∈ es, e.Sound
  others : ∀ e ∈ es.dropLast, e.flags = 0
  last : ∀ e, es.getLast? = some e → e.flags = prdLastBit

theorem initPrdt_ready {block : Option (List PrdEntry)} {dma : DmaVars}
    (hsize : ∀ prdt, block = some prdt →
      prdEntrySize * prdEntriesPerChannel ≤ prdEntrySize * prdt.length)
    (h : initPrdt block = .ok dma) : dma.Ready := by
  cases hblock : block with
  | none =>
    rw [hblock] at h
    cases h
  | some prdt =>
    rw [hblock] at h
    cases h
    exact ⟨Nat.succ_pos 7, Nat.le_of_mul_le_mul_left (hsize prdt hblock) (Nat.succ_pos 7),
      List.nil_prefix, Nat.zero_le _⟩

theorem prefix_set {α : Type} {es l : List α} (h : es <+: l) (hlt : es.length < l.length) (e : α) :
    es ++ [e] <+: l.set es.length e := by
  obtain ⟨t, rfl⟩ := h
  cases t with
  | nil => simp at hlt
  | cons x t =>
    rw [List.set_append_right _ _ (Nat.le_refl _), Nat.sub_self, List.set_cons_zero]
    exact ⟨t, by simp⟩

section Fill

variable {krealloc : List PrdEntry → Nat → Option (List PrdEntry)} (hk : Reallocates krealloc)
  {dma₀ dma : DmaVars} {es : List PrdEntry}
include hk

theorem growPrdt_ok (h : Filling krealloc dma₀ dma es) (hsmall : es.length < 2 ^ 23) :
    Outcome (NoMemory krealloc dma₀)
      (fun dma' => Filling krealloc dma₀ dma' es ∧ es.length < dma'.prdtCapacity)
      (growPrdt krealloc es.length dma) := by
  have hpos := h.pos
  unfold growPrdt
  by_cases hfull : es.length ≥ dma.prdtCapacity
  · have hmod : dma.prdtCapacity * 2 % 2 ^ 64 = dma.prdtCapacity * 2 := Nat.mod_eq_of_lt (by omega)
    have hu32 : u32 (prdEntrySize * (dma.prdtCapacity * 2)) =
        prdEntrySize * (dma.prdtCapacity * 2) := u32_of_lt (by unfold prdEntrySize; omega)
    rw [if_pos hfull]
    dsimp only
    rw [hmod, hu32]
    cases hnew : krealloc dma.prdt (prdEntrySize * (dma.prdtCapacity * 2)) with
    | none => exact ⟨rfl, dma, es, h.calls, hfull, hnew⟩
    | some prdt =>
      have hsize := hk.size hnew
      have hfits := h.fits
      refine ⟨⟨⟨?_, ?_, h.entries.trans (hk.kept hnew), ?_⟩, h.calls.doubled hfull hnew⟩, ?_⟩
      · show 0 < dma.prdtCapacity * 2
        omega
      · show dma.prdtCapacity * 2 ≤ prdt.length
        unfold prdEntrySize at hsize
        omega
      · show es.length ≤ dma.prdtCapacity * 2
        omega
      · show es.length < dma.prdtCapacity * 2
        omega
  · rw [if_neg hfull]
    exact ⟨h, Nat.not_le.1 hfull⟩

theorem prdtIterateChunkPrd_ok (h : Filling krealloc dma₀ dma es) {remaining pa : Nat}
    (hpa : pa < 2 ^ 32) (haligned : pa % sectorSize = 0) (hsectors : remaining % sectorSize = 0)
    (hpos : 0 < remaining) (hbytes : sectorSize * es.length + remaining < 2 ^ 32) :
    Outcome (NoMemory krealloc dma₀)
      (fun r => ∃ e : PrdEntry, Filling krealloc dma₀ r.1 (es ++ [e]) ∧ e.Sound ∧ e.flags = 0 ∧
        e.physAddr = pa ∧ e.size ≤ remaining ∧ r.2.1 = remaining - e.size ∧
        r.2.2 = u32 (pa + e.size))
      (prdtIterateChunkPrd krealloc es.length dma remaining pa) := by
  obtain ⟨size, hloop, hspos, hsle, hspage, hssector, hsblock⟩ := chunkPrdLoop_ok hpa haligned
    (show remaining < 2 ^ 32 by omega) hsectors hpos
  unfold prdtIterateChunkPrd
  apply Outcome.bind (growPrdt_ok hk h (by unfold sectorSize at hbytes; omega))
  intro dma' hdma'
  obtain ⟨hholds, hlt⟩ := hdma'
  have hroom := hholds.room
  have hlength : es.length < dma'.prdt.length := by omega
  have hsmall : size < 2 ^ 16 ∧ size ≠ prdMaxBoundary := by
    unfold pageSize at hspage
    unfold prdMaxBoundary
    omega
  have hsize : (if size = 0 then prdMaxBoundary else size) = size := if_neg (by omega)
  rw [hloop, ok_bind]
  dsimp only
  have hset : dma'.set es.length ⟨pa, size, 0⟩ =
      .ok { dma' with prdt := dma'.prdt.set es.length ⟨pa, size, 0⟩ } := if_pos hlength
  rw [if_neg hsmall.2, Nat.mod_eq_of_lt hsmall.1, hset, ok_bind]
  refine ⟨⟨pa, size, 0⟩, ⟨⟨hholds.pos, ?_, prefix_set hholds.entries hlength _, ?_⟩,
    hholds.calls.entry hset⟩, ?_, rfl, rfl, ?_⟩
  · show dma'.prdtCapacity ≤ (dma'.prdt.set es.length _).length
    rw [List.length_set]
    exact hroom
  · show (es ++ [_]).length ≤ dma'.prdtCapacity
    rw [List.length_append]
    exact hlt
  · refine ⟨?_, ?_, ?_⟩ <;> unfold PrdEntry.size <;> dsimp only <;> rw [hsize] <;> assumption
  · unfold PrdEntry.size
    dsimp only
    rw [hsize]
    exact ⟨hsle, rfl, rfl⟩

theorem fillChunk_ok : ∀ (fuel : Nat) {dma : DmaVars} {es : List PrdEntry} {remaining pa : Nat},
    Filling krealloc dma₀ dma es → pa < 2 ^ 32 → pa % sectorSize = 0 → remaining % sectorSize = 0 →
    remaining < fuel → sectorSize * es.length + remaining < 2 ^ 32 →
    Outcome (NoMemory krealloc dma₀)
      (fun r => ∃ new, r.1 = (es ++ new).length ∧ Filling krealloc dma₀ r.2 (es ++ new) ∧
        Entries new remaining ∧
        (pa + remaining ≤ 2 ^ 32 → new.flatMap PrdEntry.bytes = List.range' pa remaining))
      (fillChunk krealloc fuel es.length dma remaining pa) := by
  intro fuel
  induction fuel with
  | zero =>
    intro dma es remaining pa _ _ _ _ hfuel
    omega
  | succ fuel ih =>
    intro dma es remaining pa h hpa haligned hsectors hfuel hbytes
    rw [fillChunk]
    by_cases hzero : remaining = 0
    · subst hzero
      rw [if_pos rfl]
      exact ⟨[], by rw [List.append_nil], by rw [List.append_nil]; exact h, Entries.nil,
        fun _ => rfl⟩
    · rw [if_neg hzero]
      apply Outcome.bind (prdtIterateChunkPrd_ok hk h hpa haligned hsectors (by omega) hbytes)
      intro r hr
      obtain ⟨dma', remaining', pa'⟩ := r
      obtain ⟨e, hholds, hsound, hflags, hphys, hle, hrest, hnext⟩ := hr
      dsimp only at hholds hrest hnext ⊢
      subst hrest hnext
      have hspos := hsound.pos
      have hssector := hsound.sectors
      have hlen : (es ++ [e]).length = es.length + 1 := List.length_append
      rw [← hlen]
      unfold sectorSize at haligned hsectors hssector hbytes
      have hpage : u32 (pa + e.size) < 2 ^ 32 := Nat.mod_lt _ (by decide)
      have hpaddr : u32 (pa + e.size) % sectorSize = 0 := by
        unfold u32 sectorSize
        omega
      apply (ih hholds hpage hpaddr (by unfold sectorSize; omega) (by omega)
        (by rw [hlen]; unfold sectorSize; omega)).mono
      intro r hr
      obtain ⟨new, hindex, hnew, hentries, hrange⟩ := hr
      rw [List.append_assoc] at hindex hnew
      refine ⟨[e] ++ new, hindex, hnew, ?_, fun hwrap => ?_⟩
      · have happend := (Entries.single hsound hflags).append hentries
        rw [Nat.add_sub_cancel' hle] at happend
        exact happend
      · -- the next entry begins where this one ends, unless nothing remains
        have hbytes₁ : e.bytes = List.range' pa e.size := by rw [PrdEntry.bytes, hphys]
        rw [List.flatMap_append, List.flatMap_singleton, hbytes₁]
        by_cases hlast : remaining - e.size = 0
        · have heq : remaining = e.size := by omega
          rw [hrange (by omega), hlast, heq, List.range'_zero, List.append_nil]
        · have hpa' : u32 (pa + e.size) = pa + e.size := u32_of_lt (by omega)
          rw [hpa'] at hrange
          rw [hrange (by omega), List.range'_append_1, Nat.add_sub_cancel' hle]

theorem fillChunks_ok : ∀ (chunks : List (Nat × Nat)) {dma : DmaVars} {es : List PrdEntry}
    (totalSectors : Nat), Filling krealloc dma₀ dma es → (∀ c ∈ chunks, c.1 % sectorSize = 0) →
    sectorSize * es.length + (chunks.map fun c => u32 (c.2 * sectorSize)).sum < 2 ^ 32 →
    Outcome (NoMemory krealloc dma₀)
      (fun r => ∃ new, r.1 = (es ++ new).length ∧ Filling krealloc dma₀ r.2.1 (es ++ new) ∧
        Entries new (chunks.map fun c => u32 (c.2 * sectorSize)).sum ∧
        ((∀ c ∈ chunks, c.1 + c.2 * sectorSize ≤ 2 ^ 32 ∧ c.2 * sectorSize < 2 ^ 32) →
          new.flatMap PrdEntry.bytes = chunks.flatMap chunkBytes))
      (fillChunks krealloc chunks es.length dma totalSectors) := by
  intro chunks
  induction chunks with
  | nil =>
    intro dma es totalSectors h _ _
    exact ⟨[], by rw [List.append_nil], by rw [List.append_nil]; exact h, Entries.nil, fun _ => rfl⟩
  | cons c chunks ih =>
    intro dma es totalSectors h haligned hbytes
    obtain ⟨paBuffer, sectors⟩ := c
    have halign : u32 paBuffer % sectorSize = 0 := by
      have := haligned _ (List.mem_cons_self ..)
      dsimp only at this
      unfold u32
      unfold sectorSize at *
      omega
    have hsectors : u32 (sectors * sectorSize) % sectorSize = 0 := by
      unfold u32 sectorSize
      omega
    rw [List.map_cons, List.sum_cons] at hbytes
    dsimp only at hbytes
    rw [fillChunks, assert, if_pos (decide_eq_true halign), ok_bind]
    have hpa : u32 paBuffer < 2 ^ 32 := Nat.mod_lt _ (by decide)
    apply Outcome.bind (fillChunk_ok hk _ h hpa halign hsectors
      (Nat.lt_succ_self _) (by omega))
    intro r hr
    obtain ⟨prdIndex, dma'⟩ := r
    obtain ⟨new, hindex, hnew, hentries, hrange⟩ := hr
    dsimp only at hindex hnew ⊢
    subst hindex
    have hlen := hentries.length_le
    apply (ih _ hnew (fun c hc => haligned c (List.mem_cons_of_mem _ hc))
      (by rw [List.length_append, Nat.mul_add]; omega)).mono
    intro r hr
    obtain ⟨rest, hindex, hrest, hentries', hbytes'⟩ := hr
    rw [List.append_assoc] at hindex hrest
    refine ⟨new ++ rest, hindex, hrest, hentries.append hentries', fun hwrap => ?_⟩
    obtain ⟨hc, hsmall⟩ := hwrap _ (List.mem_cons_self ..)
    have hcs := hbytes' fun c hc => hwrap c (List.mem_cons_of_mem _ hc)
    dsimp only at hc hsmall
    rw [u32_of_lt hsmall] at hrange
    rw [List.flatMap_append, List.flatMap_cons, hcs]
    congr 1
    by_cases hnone : sectors * sectorSize = 0
    · -- nothing is written for it
      have hpaddr : u32 paBuffer < 2 ^ 32 := Nat.mod_lt _ (by decide)
      rw [hrange (by omega), chunkBytes]
      dsimp only
      rw [hnone]
      rfl
    · rw [u32_of_lt (show paBuffer < 2 ^ 32 by omega)] at hrange
      exact hrange hc

/-- The whole table: `es` are its entries after the mark. -/
theorem fillPrdt_ok {chunks : List (Nat × Nat)} (h : dma₀.Ready)
    (haligned : ∀ c ∈ chunks, c.1 % sectorSize = 0)
    (hbytes : (chunks.map fun c => u32 (c.2 * sectorSize)).sum < 2 ^ 32) :
    Outcome (NoMemory krealloc dma₀)
      (fun r => ∃ es, r.1.Holds es ∧ es.length = r.2.1 ∧ Marked es ∧
        (es.map PrdEntry.size).sum = (chunks.map fun c => u32 (c.2 * sectorSize)).sum ∧
        ((∀ c ∈ chunks, c.1 + c.2 * sectorSize ≤ 2 ^ 32 ∧ c.2 * sectorSize < 2 ^ 32) →
          es.flatMap PrdEntry.bytes = chunks.flatMap chunkBytes))
      (fillPrdt krealloc dma₀ chunks) := by
  unfold fillPrdt
  apply Outcome.bind (fillChunks_ok hk chunks 0 ⟨h, .start⟩ haligned
    (by rw [List.length_nil, Nat.mul_zero, Nat.zero_add]; exact hbytes))
  intro r hr
  obtain ⟨prdIndex, dma', totalSectors⟩ := r
  obtain ⟨new, hindex, hnew, hentries, hcover⟩ := hr
  dsimp only at hindex hnew ⊢
  rw [List.nil_append] at hindex hnew
  subst hindex
  rcases List.eq_nil_or_concat' new with rfl | ⟨init, e, rfl⟩
  · exact ⟨[], hnew.toHolds, rfl, ⟨nofun, nofun, nofun⟩, hentries.total, hcover⟩
  · obtain ⟨e', he'⟩ : ∃ e' : PrdEntry, { e with flags := e.flags ||| prdLastBit } = e' := ⟨_, rfl⟩
    have hsound := hentries.sound e (List.mem_append_right _ (List.mem_singleton.2 rfl))
    have hflags := hentries.flags e (List.mem_append_right _ (List.mem_singleton.2 rfl))
    have hsize : e'.size = e.size := by
      subst he'
      rfl
    have hphys : e'.physAddr = e.physAddr := by
      subst he'
      rfl
    have hlast : e'.flags = prdLastBit := by
      subst he'
      show e.flags ||| prdLastBit = _
      rw [hflags, Nat.zero_or]
    have hlen : (init ++ [e]).length = init.length + 1 := List.length_append
    have hlt : init.length < dma'.prdt.length := by
      have := hnew.entries.length_le
      omega
    have hget : dma'.prdt[init.length]? = some e := by
      obtain ⟨t, ht⟩ := hnew.entries
      rw [← ht, List.append_assoc, List.getElem?_append_right (Nat.le_refl _), Nat.sub_self]
      rfl
    rw [hlen, if_pos (Nat.succ_pos _), Nat.add_sub_cancel]
    have hmark : dma'.markLast init.length =
        .ok { dma' with prdt := dma'.prdt.set init.length e' } := by
      rw [DmaVars.markLast, hget]
      dsimp only
      rw [he', DmaVars.set, if_pos hlt]
    rw [hmark, ok_bind]
    refine ⟨init ++ [e'], ⟨hnew.pos, ?_, ?_, ?_⟩, ?_, ⟨?_, ?_, ?_⟩, ?_, ?_⟩
    · show dma'.prdtCapacity ≤ (dma'.prdt.set init.length e').length
      rw [List.length_set]
      exact hnew.room
    · exact prefix_set ((List.prefix_append init [e]).trans hnew.entries) hlt e'
    · have hfits := hnew.fits
      rw [hlen] at hfits
      rw [List.length_append]
      exact hfits
    · exact List.length_append
    · refine List.forall_mem_append.2
        ⟨fun x hx => hentries.sound x (List.mem_append_left _ hx), fun x hx => ?_⟩
      obtain rfl := List.mem_singleton.1 hx
      exact ⟨by rw [hsize]; exact hsound.pos, by rw [hsize]; exact hsound.sectors,
        by rw [hsize, hphys]; exact hsound.boundary⟩
    · rw [List.dropLast_concat]
      exact fun x hx => hentries.flags x (List.mem_append_left _ hx)
    · intro x hx
      rw [List.getLast?_concat] at hx
      rw [← Option.some.inj hx, hlast]
    · rw [← hentries.total, List.map_append, List.map_append, List.map_singleton,
        List.map_singleton, hsize]
    · intro hwrap
      rw [← hcover hwrap, List.flatMap_append, List.flatMap_append, List.flatMap_singleton,
        List.flatMap_singleton, PrdEntry.bytes, PrdEntry.bytes, hphys, hsize]

end Fill

/-- The count, turn by turn and summed up from the end. -/
theorem fillChunks_count {krealloc : List PrdEntry → Nat → Option (List PrdEntry)} :
    ∀ {chunks : List (Nat × Nat)} {prdIndex totalSectors : Nat} {dma : DmaVars}
      {r : Nat × DmaVars × Nat}, fillChunks krealloc chunks prdIndex dma totalSectors = .ok r →
      totalSectors < 2 ^ 64 →
      ∃ n, Ide.fillPrdt chunks = .ok n ∧ r.2.2 = (totalSectors + n) % 2 ^ 64 := by
  intro chunks
  induction chunks with
  | nil =>
    intro prdIndex totalSectors dma r h hlt
    cases h
    exact ⟨0, rfl, (Nat.mod_eq_of_lt hlt).symm⟩
  | cons c chunks ih =>
    intro prdIndex totalSectors dma r h hlt
    obtain ⟨paBuffer, sectors⟩ := c
    obtain ⟨u, hassert, h⟩ := exists_of_bind_eq_ok h
    obtain ⟨⟨prdIndex', dma'⟩, -, h⟩ := exists_of_bind_eq_ok h
    obtain ⟨n, hn, hr⟩ := ih h (Nat.mod_lt _ (by decide))
    have haligned : paBuffer % 512 = 0 := by
      have := of_decide_eq_true (of_assert_eq_ok hassert)
      unfold u32 sectorSize at this
      omega
    refine ⟨(sectors + n) % 2 ^ 64, ?_, ?_⟩
    · rw [Ide.fillPrdt, haligned, hn]
      rfl
    · rw [hr]
      omega

theorem aligned_of_fillPrdt : ∀ {chunks : List (Nat × Nat)} {n : Nat},
    Ide.fillPrdt chunks = .ok n → ∀ c ∈ chunks, c.1 % sectorSize = 0 := by
  intro chunks
  induction chunks with
  | nil => intro n _ c hc; cases hc
  | cons c chunks ih =>
    intro n h
    obtain ⟨paBuffer, sectors⟩ := c
    unfold Ide.fillPrdt at h
    split at h
    · cases h
    · rename_i hassert
      split at h
      · cases h
      · rename_i hrest
        exact List.forall_mem_cons.2 ⟨beq_iff_eq.1 (of_assert_eq_ok hassert), ih hrest⟩

theorem fillPrdt_count {krealloc : List PrdEntry → Nat → Option (List PrdEntry)} {dma : DmaVars}
    {chunks : List (Nat × Nat)} {r : DmaVars × Nat × Nat}
    (h : fillPrdt krealloc dma chunks = .ok r) : ∃ n, Ide.fillPrdt chunks = .ok n ∧
      r.2.2 = n % 2 ^ 64 := by
  obtain ⟨⟨prdIndex, dma', totalSectors⟩, hfill, h⟩ := exists_of_bind_eq_ok h
  obtain ⟨n, hn, hcount⟩ := fillChunks_count hfill (by decide)
  refine ⟨n, hn, ?_⟩
  rw [Nat.zero_add] at hcount
  dsimp only at h hcount
  split at h
  · obtain ⟨dma'', -, h⟩ := exists_of_bind_eq_ok h
    cases h
    exact hcount
  · cases h
    exact hcount

theorem chunks_bytes {chunks : List (Nat × Nat)}
    (htotal : (chunks.map Prod.snd).sum * sectorSize < 2 ^ 32) :
    (∀ c ∈ chunks, c.2 * sectorSize < 2 ^ 32) ∧
      (chunks.map fun c => u32 (c.2 * sectorSize)).sum =
        (chunks.map Prod.snd).sum * sectorSize := by
  have hle : ∀ c ∈ chunks, c.2 * sectorSize < 2 ^ 32 := by
    intro c hc
    have := List.le_sum_of_mem (List.mem_map.2 ⟨c, hc, rfl⟩ : c.2 ∈ chunks.map Prod.snd)
    exact Nat.lt_of_le_of_lt (Nat.mul_le_mul_right _ this) htotal
  refine ⟨hle, ?_⟩
  rw [List.map_congr_left fun c hc => u32_of_lt (hle c hc), List.sum_map_mul_right]

/-- `fill_prdt` for sector-aligned chunks that do not wrap and are below 4 GiB in total: either
memory for a larger table cannot be had, or the entries list the bytes of the chunks in order,
every entry is a number of sectors inside one block of 64 KiB, the last one alone is marked,
and the count is that of the chunks. The table is ready for the next request. -/
theorem fillPrdt_lists {krealloc : List PrdEntry → Nat → Option (List PrdEntry)} {dma : DmaVars}
    {chunks : List (Nat × Nat)} (hk : Reallocates krealloc) (h : dma.Ready)
    (haligned : ∀ c ∈ chunks, c.1 % sectorSize = 0)
    (hwrap : ∀ c ∈ chunks, c.1 + c.2 * sectorSize ≤ 2 ^ 32)
    (htotal : (chunks.map Prod.snd).sum * sectorSize < 2 ^ 32) :
    Outcome (NoMemory krealloc dma)
      (fun r => r.1.Ready ∧ r.2.1 ≤ r.1.prdt.length ∧
        (r.1.prdt.take r.2.1).flatMap PrdEntry.bytes = chunks.flatMap chunkBytes ∧
        Marked (r.1.prdt.take r.2.1) ∧ r.2.2 = (chunks.map Prod.snd).sum)
      (fillPrdt krealloc dma chunks) := by
  obtain ⟨hle, hbytes⟩ := chunks_bytes htotal
  apply (fillPrdt_ok hk h haligned (by rw [hbytes]; exact htotal)).and_eq.mono
  intro r hr
  obtain ⟨hrun, es, hholds, hlen, hmarked, -, hcover⟩ := hr
  have htake : r.1.prdt.take r.2.1 = es := by
    rw [← hlen]
    exact (List.prefix_iff_eq_take.1 hholds.entries).symm
  obtain ⟨n, hn, hcount⟩ := fillPrdt_count hrun
  refine ⟨⟨hholds.pos, hholds.room, List.nil_prefix, Nat.zero_le _⟩, ?_, ?_, ?_, ?_⟩
  · rw [← hlen]
    exact hholds.entries.length_le
  · rw [htake]
    exact hcover fun c hc => ⟨hwrap c hc, hle c hc⟩
  · rw [htake]
    exact hmarked
  · have hsum := Ide.fillPrdt_ok haligned
    rw [hn] at hsum
    have hlt : (chunks.map Prod.snd).sum < 2 ^ 64 := by
      unfold sectorSize at htotal
      omega
    rw [hcount, Except.ok.inj hsum, Nat.mod_mod]
    exact Nat.mod_eq_of_lt hlt

/-! ## The heap's `krealloc` -/

/-- The number in a word of memory. -/
def wordNat : Heap.Word → Nat
  | .num n => n
  | _ => 0

/-- The entry at `addr`: `phys_addr`, and in the second word `bytes_size` and `flags`. -/
def entryAt (mem : Nat → Heap.Word) (addr : Nat) : PrdEntry where
  physAddr := wordNat (mem addr)
  bytesSize := wordNat (mem (addr + 4)) % 2 ^ 16
  flags := wordNat (mem (addr + 4)) / 2 ^ 16

/-- The table of `n` bytes at `addr`. -/
def tableAt (mem : Nat → Heap.Word) (addr n : Nat) : List PrdEntry :=
  (List.range (n / prdEntrySize)).map fun i => entryAt mem (addr + prdEntrySize * i)

theorem tableAt_prefix {m m' : Nat → Heap.Word} {a b c n : Nat} (hle : c ≤ n)
    (hsame : ∀ i, 4 * i < c → m' (b + 4 * i) = m (a + 4 * i)) :
    tableAt m a c <+: tableAt m' b n := by
  have hentry : ∀ i ∈ List.range (c / prdEntrySize),
      entryAt m (a + prdEntrySize * i) = entryAt m' (b + prdEntrySize * i) := by
    intro i hi
    have hlt := List.mem_range.1 hi
    unfold prdEntrySize at hlt ⊢
    have hfirst := hsame (2 * i) (by omega)
    have hsecond := hsame (2 * i + 1) (by omega)
    rw [show 4 * (2 * i) = 8 * i by omega] at hfirst
    rw [show 4 * (2 * i + 1) = 8 * i + 4 by omega, ← Nat.add_assoc, ← Nat.add_assoc] at hsecond
    rw [entryAt, entryAt, hfirst, hsecond]
  unfold tableAt
  rw [List.map_congr_left hentry]
  apply List.IsPrefix.map
  rw [← Nat.min_eq_left (Nat.div_le_div_right (c := prdEntrySize) hle), ← List.take_range]
  exact List.take_prefix _ _

/-- A table that the heap's `krealloc` moves to `n` bytes, in an intact heap that need not grow. -/
inductive HeapAnswer {ω : Type} (W : Heap.World ω) :
    List PrdEntry → Nat → List PrdEntry → Prop where
  | moved {C s L o g addr c n fuel t a} : Heap.Intact W C s L o g →
      Heap.LiveAlloc s (Heap.Held o) g addr c → ¬ Heap.CustomObject s g addr →
      Heap.ReallocNeedsNoGrowth W s addr n → c < n → n ≤ 2 ^ 31 → n % prdEntrySize = 0 →
      Heap.krealloc W (fuel + 1) s addr n = .ok (t, a) →
      HeapAnswer W (tableAt s.mem addr c) n (tableAt t.mem a n)

/-- The heap's `krealloc` does what `fill_prdt` asks of it. -/
theorem reallocates_of_heap {ω : Type} {W : Heap.World ω}
    {krealloc : List PrdEntry → Nat → Option (List PrdEntry)}
    (h : ∀ {old n new}, krealloc old n = some new → HeapAnswer W old n new) :
    Reallocates krealloc where
  size {old new n} hnew := by
    obtain ⟨-, -, -, -, -, -, hwhole, -⟩ := h hnew
    rw [tableAt, List.length_map, List.length_range,
      Nat.mul_div_cancel' (Nat.dvd_of_mod_eq_zero hwhole)]
  kept {old new n} hnew := by
    obtain ⟨hintact, hlive, hcustom, hgrowth, hlt, hle, -, hrun⟩ := h hnew
    obtain ⟨t, a, m, hrun', -, hmoved⟩ :=
      (hintact.krealloc_cases hlive hle _).2.2 hlt hcustom hgrowth
    obtain ⟨rfl, rfl⟩ := Prod.mk.inj (Except.ok.inj (hrun.symm.trans hrun'))
    exact tableAt_prefix hlt.le hmoved.contents

/-- A `krealloc` that has memory. -/
def reallocFresh (old : List PrdEntry) (n : Nat) : Option (List PrdEntry) :=
  some (old ++ List.replicate n ⟨0, 0, 0⟩)

theorem reallocFresh_reallocates : Reallocates reallocFresh where
  size h := by
    rw [← Option.some.inj h, List.length_append, List.length_replicate]
    unfold prdEntrySize
    omega
  kept h := by
    rw [← Option.some.inj h]
    exact List.prefix_append _ _

/-- A table as `init_dma_devices` makes it. -/
def firstTable : DmaVars := ⟨List.replicate 8 ⟨0, 0, 0⟩, 8⟩

theorem firstTable_ready : firstTable.Ready :=
  @initPrdt_ready (some (List.replicate 8 ⟨0, 0, 0⟩)) firstTable
    (fun _ h => by rw [← Option.some.inj h]; decide) rfl

/-- Chunks of 32 KiB up to a boundary of 64 KiB, and of single sectors. -/
def someChunks : List (Nat × Nat) :=
  (0x18000, 64) :: (List.range 5).map fun i => (0x40200 + 0x1000 * i, 1)

/-- The table is doubled for the last entry. -/
theorem someChunks_listed : ∃ r, fillPrdt reallocFresh firstTable someChunks = .ok r ∧
    r.1.prdtCapacity = 16 ∧ r.2.1 = 9 ∧ r.1.Ready ∧
    (r.1.prdt.take r.2.1).flatMap PrdEntry.bytes = someChunks.flatMap chunkBytes ∧
    Marked (r.1.prdt.take r.2.1) ∧ r.2.2 = 69 := by
  have hrun : ∃ r, fillPrdt reallocFresh firstTable someChunks = .ok r ∧
      r.1.prdtCapacity = 16 ∧ r.2.1 = 9 := by
    decide +kernel
  obtain ⟨r, hr, hcapacity, hcount⟩ := hrun
  obtain ⟨hready, -, hbytes, hmarked, hsectors⟩ := (fillPrdt_lists reallocFresh_reallocates
    firstTable_ready (by decide) (by decide) (by decide)).of_ok hr
  exact ⟨r, hr, hcapacity, hcount, hready, hbytes, hmarked, hsectors⟩

end X86Kernel.Ide.Prdt
