import X86Kernel.Core

/- Page mapping (`kernel/arch/i386/memory/paging.c` and `paging_utils.c`). An
   address space is the physical memory, in frames of 1024 words, and the frame
   of the page directory. The kernel reaches the directory and the tables only
   through the recursive entry 1023: the directory at 0xFFFFF000, the table of
   entry `d` at 0xFFC00000 + d * 4096. Both are virtual addresses here too, and
   each load and store goes through the walk of the processor; a walk that meets
   an entry that is not present is a page fault.

   What is proved: `paging_map_pages` maps exactly the pages it is given. The
   page entries of an address space are the function `Space.entry` from virtual
   page numbers to entries, where a page without a table has the empty entry 0;
   the call changes it at the pages of the range only (`Maps`), and installs the
   tables that are missing on the way. An address space is `Recursive` when its
   entry 1023 is the directory itself and every other present entry has a table of
   its own; that is how `init_paging` leaves it, and the call keeps it.

   The page-table allocator is a parameter: `mm_alloc_pagetable` is the bitmap or
   the frame allocator. Not modelled are the TLB (each entry that is written is
   invalidated), the accessed and dirty bits the processor sets by itself and
   the access rights; CR4.PSE is off, there are no large pages.

   Correspondence (C ↔ Lean):
     `get_pde_index`, `get_pte_index` ↔ `getPdeIndex`, `getPteIndex`
     `get_table_entry`     ↔ `getTableEntry`
     `get_page_table`      ↔ `getPageTable`
     `map_table_entry`     ↔ `mapTableEntry` (`memset` ↔ `memsetWords`)
     `map_page_entry`      ↔ `mapPageEntry`
     `virt_to_phys`        ↔ `virtToPhys`
     `paging_to_hw_flags`  ↔ `pagingToHwFlags`
     `ensure_page_table`   ↔ `ensurePageTable`
     `map_phys_range`      ↔ `mapPhysRange` (`mapInTable`)
     `paging_map_pages`    ↔ `pagingMapPages` -/
namespace X86Kernel.Paging

/-- The physical memory by frame and word, and the frame of the page directory. -/
structure Space where
  dir : Nat
  mem : Nat → Nat → Nat

def Space.put (s : Space) (frame word value : Nat) : Space :=
  { s with mem := fun f w => if f = frame ∧ w = word then value else s.mem f w }

/-- `ENTRIES_AMOUNT`. -/
def entriesAmount : Nat := 1024

/-- `entry & PAGE_ENTRY_FLAG_PRESENT`. -/
def present (entry : Nat) : Bool := entry % 2 = 1

/-- The frame an entry points to: `entry & PAGE_MASK`, as a frame number. -/
def frameOf (entry : Nat) : Nat := entry / pageSize

/-- `va >> 22`. -/
def getPdeIndex (va : Nat) : Nat := va / 2 ^ 22

/-- `(va >> 12) & 0x3FF`. -/
def getPteIndex (va : Nat) : Nat := va / 2 ^ 12 % 2 ^ 10

/-! ## Memory behind virtual addresses -/

/-- The frame behind a virtual address, as the processor finds it. -/
def walk (s : Space) (va : Nat) : Kernel Nat :=
  let pde := s.mem s.dir (getPdeIndex va)
  if present pde then
    let pte := s.mem (frameOf pde) (getPteIndex va)
    if present pte then .ok (frameOf pte) else .error .outOfBounds
  else .error .outOfBounds

def loadWord (s : Space) (va : Nat) : Kernel Nat := do
  let frame ← walk s va
  return s.mem frame (va % pageSize / 4)

def storeWord (s : Space) (va value : Nat) : Kernel Space := do
  let frame ← walk s va
  return s.put frame (va % pageSize / 4) value

/-- `memset(va, 0, 4 * n)`. -/
def memsetWords : Nat → Space → Nat → Kernel Space
  | 0, s, _ => .ok s
  | n + 1, s, va => do
    let s ← storeWord s va 0
    memsetWords n s (va + 4)

/-! ## Directory and tables through the recursive window -/

/-- `(page_directory_t*)0xFFFFF000`. -/
def pageDirectory : Nat := 0xFFFFF000

/-- `(page_table_t*)(0xFFC00000 + dir_index * PAGE_SIZE)`. -/
def pageTable (dirIndex : Nat) : Nat := 0xFFC00000 + dirIndex * pageSize

def getTableEntry (s : Space) (va : Nat) : Kernel Nat :=
  loadWord s (pageDirectory + 4 * getPdeIndex va)

/-- The virtual address of the table of an entry, or NULL. -/
def getPageTable (s : Space) (dirIndex : Nat) : Kernel Nat := do
  let pageDirEntry ← loadWord s (pageDirectory + 4 * dirIndex)
  if !present pageDirEntry then return 0
  else return pageTable dirIndex

def mapTableEntry (s : Space) (physAddr virtAddr flags : Nat) : Kernel (Space × Bool) := do
  let pageDirIndex := getPdeIndex virtAddr
  let pde ← loadWord s (pageDirectory + 4 * pageDirIndex)
  if present pde then return (s, false)
  else
    let s ← storeWord s (pageDirectory + 4 * pageDirIndex)
      (physAddr / pageSize * pageSize ||| flags)
    let s ← memsetWords entriesAmount s (pageTable pageDirIndex)
    return (s, true)

def mapPageEntry (s : Space) (physAddr virtAddr flags : Nat) : Kernel (Space × Bool) := do
  let pageDirIndex := getPdeIndex virtAddr
  let pde ← loadWord s (pageDirectory + 4 * pageDirIndex)
  if !present pde then return (s, false)
  else
    let s ← storeWord s (pageTable pageDirIndex + 4 * getPteIndex virtAddr)
      (physAddr / pageSize * pageSize ||| flags % pageSize)
    return (s, true)

def virtToPhys (s : Space) (virtAddr : Nat) : Kernel Nat := do
  let pde ← loadWord s (pageDirectory + 4 * getPdeIndex virtAddr)
  if !present pde then return 0
  else
    let pte ← loadWord s (pageTable (getPdeIndex virtAddr) + 4 * getPteIndex virtAddr)
    if !present pte then return 0
    else return pte / pageSize * pageSize ||| virtAddr % pageSize

/-- `if (paging_flags & from) hw_flags |= to;` -/
def hwFlag (pagingFlags flag hw : Nat) : Nat := if pagingFlags &&& flag ≠ 0 then hw else 0

/-- `PAGING_FLAG_ACCESS`, `DIRTY`, `WRITE`, `USER` and `PRESENT`, in the order of
the source, and the bits of `PAGE_ENTRY_FLAG_*` they become. -/
def pagingToHwFlags (pagingFlags : Nat) : Nat :=
  hwFlag pagingFlags 4 32 ||| hwFlag pagingFlags 2 64 ||| hwFlag pagingFlags 16 2 |||
    hwFlag pagingFlags 8 4 ||| hwFlag pagingFlags 1 1

/-! ## Mapping a range -/

section Mapping

variable {σ : Type} (mmAllocPagetable : σ → Kernel (σ × Nat))

/-- `PAGE_ENTRY_WRITE_KERNEL_FLAGS`. -/
def pageEntryWriteKernelFlags : Nat := 3

def ensurePageTable (s : Space) (a : σ) (va : Nat) : Kernel (Space × σ × Nat) := do
  let dirIndex := getPdeIndex va
  let entry ← getTableEntry s va
  if !present entry then
    let (a, newTablePhys) ← mmAllocPagetable a
    assert (newTablePhys % pageSize = 0)
    if newTablePhys = 0 then return (s, a, 0)
    else
      let (s, _) ← mapTableEntry s newTablePhys va pageEntryWriteKernelFlags
      let table ← getPageTable s dirIndex
      return (s, a, table)
  else
    let table ← getPageTable s dirIndex
    return (s, a, table)

/-- `while (pages_in_table && count)`: the space, `count`, `pa` and `va` after it. -/
def mapInTable (hwFlags : Nat) : Nat → Nat → Space → Nat → Nat → Kernel (Space × Nat × Nat × Nat)
  | 0, count, s, pa, va => .ok (s, count, pa, va)
  | _ + 1, 0, s, pa, va => .ok (s, 0, pa, va)
  | pagesInTable + 1, count + 1, s, pa, va => do
    let (s, _) ← mapPageEntry s pa va hwFlags
    mapInTable hwFlags pagesInTable count s (u32 (pa + pageSize)) (u32 (va + pageSize))

/-- `while (count)`; a turn that maps no page would go round for ever. -/
def mapPhysRange (hwFlags : Nat) : Nat → Nat → Space → σ → Nat → Nat → Kernel (Space × σ × Bool)
  | _, 0, s, a, _, _ => .ok (s, a, true)
  | 0, _ + 1, _, _, _, _ => .error .diverges
  | fuel + 1, count + 1, s, a, pa, va => do
    let pagesInTable := entriesAmount - getPteIndex va
    let (s, a, table) ← ensurePageTable mmAllocPagetable s a va
    if table = 0 then return (s, a, false)
    else
      let (s, count, pa, va) ← mapInTable hwFlags pagesInTable (count + 1) s pa va
      mapPhysRange hwFlags fuel count s a pa va

def pagingMapPages (s : Space) (a : σ) (pa va count pagingFlags : Nat) :
    Kernel (Space × σ × Bool) := do
  let hwFlags := pagingToHwFlags (pagingFlags ||| 1)
  assert (pa % pageSize = 0)
  assert (va % pageSize = 0)
  assert (count > 0)
  mapPhysRange mmAllocPagetable hwFlags count count s a pa va

end Mapping

/-! ## The recursive window -/

/-- The entry `d` of the directory. -/
def Space.pde (s : Space) (d : Nat) : Nat := s.mem s.dir d

/-- The entry of a virtual page, by page number. A page without a table has the
empty entry. -/
def Space.entry (s : Space) (page : Nat) : Nat :=
  if present (s.pde (page / 1024)) then s.mem (frameOf (s.pde (page / 1024))) (page % 1024) else 0

/-- Entry 1023 is the directory itself, and no two present entries share a table. -/
structure Recursive (s : Space) : Prop where
  here : present (s.pde 1023) = true
  self : frameOf (s.pde 1023) = s.dir
  own : ∀ d e, d < 1024 → e < 1024 → present (s.pde d) = true → present (s.pde e) = true →
    frameOf (s.pde d) = frameOf (s.pde e) → d = e

theorem Recursive.table_ne_dir {s : Space} (hs : Recursive s) {d : Nat} (hd : d < 1023)
    (hp : present (s.pde d) = true) : frameOf (s.pde d) ≠ s.dir := by
  intro he
  rw [← hs.self] at he
  have := hs.own d 1023 (by omega) (by omega) hp hs.here he
  omega

theorem getPdeIndex_pageDirectory {i : Nat} (hi : i < 1024) :
    getPdeIndex (pageDirectory + 4 * i) = 1023 := by
  unfold getPdeIndex pageDirectory; omega

theorem getPteIndex_pageDirectory {i : Nat} (hi : i < 1024) :
    getPteIndex (pageDirectory + 4 * i) = 1023 := by
  unfold getPteIndex pageDirectory; omega

theorem getPdeIndex_pageTable {d i : Nat} (hd : d < 1024) (hi : i < 1024) :
    getPdeIndex (pageTable d + 4 * i) = 1023 := by
  unfold getPdeIndex pageTable pageSize; omega

theorem getPteIndex_pageTable {d i : Nat} (hd : d < 1024) (hi : i < 1024) :
    getPteIndex (pageTable d + 4 * i) = d := by
  unfold getPteIndex pageTable pageSize; omega

theorem Recursive.walk_dir {s : Space} (hs : Recursive s) {i : Nat} (hi : i < 1024) :
    walk s (pageDirectory + 4 * i) = .ok s.dir := by
  have hhere := hs.here
  have hself := hs.self
  simp only [Space.pde] at hhere hself
  simp only
    [walk, getPdeIndex_pageDirectory hi, getPteIndex_pageDirectory hi, hhere, hself, if_true]

theorem Recursive.walk_table {s : Space} (hs : Recursive s) {d i : Nat} (hd : d < 1024)
    (hi : i < 1024) (hp : present (s.pde d) = true) :
    walk s (pageTable d + 4 * i) = .ok (frameOf (s.pde d)) := by
  have hhere := hs.here
  have hself := hs.self
  simp only [Space.pde] at hhere hself hp
  simp only [walk, getPdeIndex_pageTable hd hi, getPteIndex_pageTable hd hi, hhere, hself, hp,
    Space.pde, if_true]

theorem Recursive.load_dir {s : Space} (hs : Recursive s) {i : Nat} (hi : i < 1024) :
    loadWord s (pageDirectory + 4 * i) = .ok (s.pde i) := by
  have hword : (pageDirectory + 4 * i) % pageSize / 4 = i := by
    unfold pageDirectory pageSize; omega
  simp [loadWord, hs.walk_dir hi, hword, Space.pde]

theorem Recursive.store_dir {s : Space} (hs : Recursive s) {i : Nat} (hi : i < 1024) (v : Nat) :
    storeWord s (pageDirectory + 4 * i) v = .ok (s.put s.dir i v) := by
  have hword : (pageDirectory + 4 * i) % pageSize / 4 = i := by
    unfold pageDirectory pageSize; omega
  simp [storeWord, hs.walk_dir hi, hword]

theorem pageTable_word {d i : Nat} (hi : i < 1024) : (pageTable d + 4 * i) % pageSize / 4 = i := by
  unfold pageTable pageSize; omega

theorem Recursive.load_table {s : Space} (hs : Recursive s) {d i : Nat} (hd : d < 1024)
    (hi : i < 1024) (hp : present (s.pde d) = true) :
    loadWord s (pageTable d + 4 * i) = .ok (s.mem (frameOf (s.pde d)) i) := by
  simp [loadWord, hs.walk_table hd hi hp, pageTable_word hi]

theorem Recursive.store_table {s : Space} (hs : Recursive s) {d i : Nat} (hd : d < 1024)
    (hi : i < 1024) (hp : present (s.pde d) = true) (v : Nat) :
    storeWord s (pageTable d + 4 * i) v = .ok (s.put (frameOf (s.pde d)) i v) := by
  simp [storeWord, hs.walk_table hd hi hp, pageTable_word hi]

/-! ## Stores into a table -/

@[simp] theorem put_dir (s : Space) (f w v : Nat) : (s.put f w v).dir = s.dir := rfl

theorem pde_put {s : Space} {f : Nat} (hf : f ≠ s.dir) (w v d : Nat) :
    (s.put f w v).pde d = s.pde d := by
  simp [Space.pde, Space.put, Ne.symm hf]

theorem Recursive.put {s : Space} (hs : Recursive s) {f : Nat} (hf : f ≠ s.dir) (w v : Nat) :
    Recursive (s.put f w v) where
  here := by rw [pde_put hf]; exact hs.here
  self := by rw [pde_put hf]; exact hs.self
  own := by
    intro d e hd he
    rw [pde_put hf, pde_put hf]
    exact hs.own d e hd he

theorem Recursive.entry_put {s : Space} (hs : Recursive s) {d i : Nat} (hd : d < 1023)
    (hi : i < 1024) (hp : present (s.pde d) = true) (v : Nat) {page : Nat}
    (hpage : page < 1023 * 1024) :
    (s.put (frameOf (s.pde d)) i v).entry page =
      if page = d * 1024 + i then v else s.entry page := by
  have hdir := hs.table_ne_dir hd hp
  unfold Space.entry
  rw [pde_put hdir]
  by_cases he : page = d * 1024 + i
  · have hdiv : page / 1024 = d := by omega
    have hmod : page % 1024 = i := by omega
    rw [if_pos he, hdiv, hmod, if_pos hp]
    simp [Space.put]
  · rw [if_neg he]
    split
    · next hq =>
      simp only [Space.put]
      apply if_neg
      rintro ⟨hframe, hword⟩
      have := hs.own (page / 1024) d (by omega) (by omega) hq hp hframe
      omega
    · rfl

/-! ## Changes of the page entries -/

/-- The `n` pages from `page` on get the entries `e 0, e 1, …`; every other page
below the window keeps its entry. -/
def Maps (s s' : Space) (page n : Nat) (e : Nat → Nat) : Prop :=
  ∀ q < 1023 * 1024, s'.entry q = if page ≤ q ∧ q < page + n then e (q - page) else s.entry q

theorem Maps.none {s s' : Space} (h : ∀ q < 1023 * 1024, s'.entry q = s.entry q) (page : Nat)
    (e : Nat → Nat) : Maps s s' page 0 e := by
  intro q hq
  rw [if_neg (by omega), h q hq]

theorem Maps.after_same {s s' s'' : Space} {page n : Nat} {e : Nat → Nat}
    (h : ∀ q < 1023 * 1024, s'.entry q = s.entry q) (h' : Maps s' s'' page n e) :
    Maps s s'' page n e := by
  intro q hq
  rw [h' q hq, h q hq]

theorem Maps.trans {s s' s'' : Space} {page n m : Nat} {e : Nat → Nat} (h : Maps s s' page n e)
    (h' : Maps s' s'' (page + n) m fun i => e (n + i)) : Maps s s'' page (n + m) e := by
  intro q hq
  rw [h' q hq, h q hq]
  by_cases hlow : q < page + n
  · rw [if_neg (by omega)]
    by_cases hin : page ≤ q
    · rw [if_pos ⟨hin, hlow⟩, if_pos ⟨hin, by omega⟩]
    · rw [if_neg (by omega), if_neg (by omega)]
  · rw [if_neg (by omega : ¬ (page ≤ q ∧ q < page + n))]
    by_cases hin : q < page + n + m
    · rw [if_pos (by omega), if_pos (by omega)]
      show e (n + (q - (page + n))) = e (q - page)
      congr 1
      omega
    · rw [if_neg (by omega), if_neg (by omega)]

/-! ## One page -/

theorem or_flags (k : Nat) {f : Nat} (hf : f < 4096) : k * pageSize ||| f = k * pageSize + f := by
  have h := Nat.two_pow_add_eq_or_of_lt (show f < 2 ^ 12 by omega) k
  unfold pageSize
  rw [Nat.mul_comm k 4096]
  exact h.symm

theorem getPdeIndex_page {d i : Nat} (hi : i < 1024) : getPdeIndex ((d * 1024 + i) * 4096) = d := by
  unfold getPdeIndex; omega

theorem getPteIndex_page {d i : Nat} (hi : i < 1024) : getPteIndex ((d * 1024 + i) * 4096) = i := by
  unfold getPteIndex; omega

/-- The entry `map_page_entry` writes. -/
def pageEntry (pa hwFlags : Nat) : Nat := pa / pageSize * pageSize ||| hwFlags % pageSize

theorem Recursive.mapPageEntry {s : Space} (hs : Recursive s) {d i : Nat} (hd : d < 1023)
    (hi : i < 1024) (hp : present (s.pde d) = true) (pa hwFlags : Nat) :
    ∃ s', mapPageEntry s pa ((d * 1024 + i) * 4096) hwFlags = .ok (s', true) ∧ Recursive s' ∧
      (∀ e, s'.pde e = s.pde e) ∧
      Maps s s' (d * 1024 + i) 1 fun _ => pageEntry pa hwFlags := by
  have hdir := hs.table_ne_dir hd hp
  refine ⟨s.put (frameOf (s.pde d)) i (pageEntry pa hwFlags), ?_, hs.put hdir _ _,
    pde_put hdir _ _, ?_⟩
  · simp only [Paging.mapPageEntry, getPdeIndex_page hi, getPteIndex_page hi,
      hs.load_dir (show d < 1024 by omega), ok_bind, hp, Bool.not_true, Bool.false_eq_true,
      if_false,
      hs.store_table (show d < 1024 by omega) hi hp, pageEntry, pure_eq_ok]
  · intro q hq
    rw [hs.entry_put hd hi hp _ hq]
    apply if_congr _ rfl rfl
    omega

theorem u32_add_u32 (a b : Nat) : u32 (u32 a + b) = u32 (a + b) := Nat.mod_add_mod a (2 ^ 32) b

/-- The pages of one table: the loop stops at the end of the table or of the
range, whichever comes first. -/
theorem Recursive.mapInTable (hwFlags : Nat) {d : Nat} (hd : d < 1023) : ∀ (pages count : Nat)
    {s : Space} {pa i : Nat}, Recursive s → present (s.pde d) = true → i + pages ≤ 1024 →
    pa < 2 ^ 32 →
    ∃ s', mapInTable hwFlags pages count s pa ((d * 1024 + i) * 4096) =
        .ok (s', count - pages, u32 (pa + min pages count * 4096),
          (d * 1024 + i + min pages count) * 4096) ∧
      Recursive s' ∧ (∀ e, s'.pde e = s.pde e) ∧
      Maps s s' (d * 1024 + i) (min pages count) fun k => pageEntry
      (u32 (pa + k * 4096)) hwFlags := by
  intro pages
  induction pages with
  | zero =>
    intro count s pa i hs _ _ hpa
    refine ⟨s, ?_, hs, fun _ => rfl, ?_⟩
    · simp [Paging.mapInTable, u32_of_lt hpa]
    · rw [Nat.zero_min]
      exact Maps.none (fun _ _ => rfl) _ _
  | succ pages ih =>
    intro count s pa i hs hp hi hpa
    cases count with
    | zero =>
      refine ⟨s, ?_, hs, fun _ => rfl, ?_⟩
      · simp [Paging.mapInTable, u32_of_lt hpa]
      · rw [Nat.min_zero]
        exact Maps.none (fun _ _ => rfl) _ _
    | succ count =>
      obtain ⟨s₁, hrun₁, hs₁, hpde₁, hmaps₁⟩ :=
        hs.mapPageEntry hd (show i < 1024 by omega) hp pa hwFlags
      have hva : u32 ((d * 1024 + i) * 4096 + pageSize) = (d * 1024 + (i + 1)) * 4096 := by
        rw [u32_of_lt (by unfold pageSize; omega)]
        unfold pageSize; omega
      obtain ⟨s₂, hrun₂, hs₂, hpde₂, hmaps₂⟩ := ih count (s := s₁) (i := i + 1) hs₁
        (by rw [hpde₁]; exact hp) (by omega) (show u32 (pa + pageSize) < 2 ^ 32 from
          Nat.mod_lt _ (by decide))
      have hmin : min (pages + 1) (count + 1) = 1 + min pages count := by omega
      refine ⟨s₂, ?_, hs₂, fun e => by rw [hpde₂, hpde₁], ?_⟩
      · simp only [Paging.mapInTable, hrun₁, ok_bind, hva, hrun₂, hmin]
        have hpages : pa + pageSize + min pages count * 4096 = pa + (1 + min pages count) * 4096 :=
          by
          unfold pageSize; omega
        have hnext : d * 1024 + (i + 1) + min pages count = d * 1024 + i + (1 + min pages count) :=
          by
          omega
        rw [u32_add_u32, Nat.add_sub_add_right, hpages, hnext]
      · rw [hmin]
        apply Maps.trans (n := 1)
        · intro q hq
          rw [hmaps₁ q hq]
          apply ite_congr rfl _ fun _ => rfl
          intro hin
          have hzero : q - (d * 1024 + i) = 0 := by omega
          simp only [hzero, Nat.zero_mul, Nat.add_zero, u32_of_lt hpa]
        · intro q hq
          rw [hmaps₂ q hq, ← Nat.add_assoc (d * 1024) i 1]
          apply ite_congr rfl _ fun _ => rfl
          intro _
          have hpa' : pa + pageSize + (q - (d * 1024 + i + 1)) * 4096 =
              pa + (1 + (q - (d * 1024 + i + 1))) * 4096 := by
            unfold pageSize; omega
          simp only [u32_add_u32, hpa']

/-! ## A new table -/

/-- The frame is the directory or a table. -/
def InUse (s : Space) (frame : Nat) : Prop :=
  ∃ d < 1024, present (s.pde d) = true ∧ frameOf (s.pde d) = frame

/-- The words `i` to `i + n` of a frame set to zero. -/
def Space.clear (s : Space) (frame i n : Nat) : Space :=
  { s with mem := fun f w => if f = frame ∧ i ≤ w ∧ w < i + n then 0 else s.mem f w }

theorem clear_none (s : Space) (frame i : Nat) : s.clear frame i 0 = s := by
  have hmem : (s.clear frame i 0).mem = s.mem := by
    funext f w
    apply if_neg
    omega
  cases s
  simpa [Space.clear] using hmem

theorem clear_succ (s : Space) (frame i n : Nat) :
    (s.put frame i 0).clear frame (i + 1) n = s.clear frame i (n + 1) := by
  have hmem : ((s.put frame i 0).clear frame (i + 1) n).mem = (s.clear frame i (n + 1)).mem := by
    funext f w
    simp only [Space.clear, Space.put]
    split_ifs <;> first | rfl | omega
  cases s
  simpa [Space.clear, Space.put] using hmem

theorem Recursive.memsetWords {d : Nat} (hd : d < 1023) : ∀ (n : Nat) {s : Space} {i : Nat},
    Recursive s → present (s.pde d) = true → i + n ≤ 1024 →
    memsetWords n s (pageTable d + 4 * i) = .ok (s.clear (frameOf (s.pde d)) i n) := by
  intro n
  induction n with
  | zero =>
    intro s i _ _ _
    rw [clear_none]
    rfl
  | succ n ih =>
    intro s i hs hp hi
    have hdir := hs.table_ne_dir hd hp
    have hput : (s.put (frameOf (s.pde d)) i 0).pde d = s.pde d := pde_put hdir _ _ _
    have hrest := ih (i := i + 1) (hs.put hdir i 0) (by rw [hput]; exact hp) (by omega)
    rw [hput, clear_succ] at hrest
    rw [Paging.memsetWords, hs.store_table (by omega) (by omega) hp, ok_bind, Nat.add_assoc]
    exact hrest

/-- The directory with a table of zeros in a new entry. -/
def Space.install (s : Space) (d frame : Nat) : Space :=
  (s.put s.dir d (frame * pageSize + pageEntryWriteKernelFlags)).clear frame 0 1024

theorem present_table (frame : Nat) :
    present (frame * pageSize + pageEntryWriteKernelFlags) = true := by
  unfold present pageSize pageEntryWriteKernelFlags
  rw [decide_eq_true_eq]
  omega

theorem frameOf_table (frame : Nat) :
    frameOf (frame * pageSize + pageEntryWriteKernelFlags) = frame := by
  unfold frameOf pageSize pageEntryWriteKernelFlags; omega

section Install

variable {s : Space} {d frame : Nat}

theorem pde_put_same (s : Space) (d v e : Nat) :
    (s.put s.dir d v).pde e = if e = d then v else s.pde e := by
  simp [Space.pde, Space.put]

theorem Recursive.put_entry (hs : Recursive s) (hd : d < 1023) (hfree : ¬ InUse s frame) :
    Recursive (s.put s.dir d (frame * pageSize + pageEntryWriteKernelFlags)) where
  here := by rw [pde_put_same, if_neg (by omega)]; exact hs.here
  self := by rw [pde_put_same, if_neg (by omega)]; exact hs.self
  own := by
    intro x y hx hy
    rw [pde_put_same, pde_put_same]
    by_cases hxd : x = d
    · by_cases hyd : y = d
      · intro _ _ _
        exact hxd.trans hyd.symm
      · rw [if_pos hxd, if_neg hyd, frameOf_table]
        intro _ hp he
        exact absurd ⟨y, hy, hp, he.symm⟩ hfree
    · by_cases hyd : y = d
      · rw [if_neg hxd, if_pos hyd, frameOf_table]
        intro hp _ he
        exact absurd ⟨x, hx, hp, he⟩ hfree
      · rw [if_neg hxd, if_neg hyd]
        exact hs.own x y hx hy

theorem dir_inUse (hs : Recursive s) : InUse s s.dir := ⟨1023, by omega, hs.here, hs.self⟩

theorem pde_install (hs : Recursive s) (hfree : ¬ InUse s frame) (e : Nat) :
    (s.install d frame).pde e =
      if e = d then frame * pageSize + pageEntryWriteKernelFlags else s.pde e := by
  have hne : s.dir ≠ frame := by
    intro he
    exact hfree (he ▸ dir_inUse hs)
  rw [← pde_put_same]
  apply if_neg
  intro h
  exact hne h.1

theorem Recursive.install (hs : Recursive s) (hd : d < 1023) (hfree : ¬ InUse s frame) :
    Recursive (s.install d frame) := by
  have hput := hs.put_entry hd hfree
  have hpde : (s.install d frame).pde =
      (s.put s.dir d (frame * pageSize + pageEntryWriteKernelFlags)).pde := by
    funext e
    rw [pde_install hs hfree, pde_put_same]
  constructor
  · rw [hpde]; exact hput.here
  · rw [hpde]; exact hput.self
  · rw [hpde]; exact hput.own

/-- No page gets an entry by the new table: its pages had none before, and the
table is all zeros. -/
theorem entry_install (hs : Recursive s) (hp : present (s.pde d) = false)
    (hfree : ¬ InUse s frame) {page : Nat} (hpage : page < 1023 * 1024) :
    (s.install d frame).entry page = s.entry page := by
  unfold Space.entry
  rw [pde_install hs hfree]
  by_cases he : page / 1024 = d
  · rw [if_pos he, he, present_table, if_pos rfl, frameOf_table, hp]
    exact if_pos ⟨rfl, Nat.zero_le _, by omega⟩
  · rw [if_neg he]
    apply ite_congr rfl _ fun _ => rfl
    intro hq
    have hne : frameOf (s.pde (page / 1024)) ≠ frame := by
      intro h
      exact hfree ⟨page / 1024, by omega, hq, h⟩
    have hdir : frameOf (s.pde (page / 1024)) ≠ s.dir := hs.table_ne_dir (by omega) hq
    simp only [Space.install, Space.clear, Space.put]
    rw [if_neg (by tauto), if_neg (by tauto)]

theorem Recursive.mapTableEntry (hs : Recursive s) (hd : d < 1023)
    (hp : present (s.pde d) = false) (hfree : ¬ InUse s frame) {va : Nat}
    (hva : getPdeIndex va = d) :
    mapTableEntry s (frame * pageSize) va pageEntryWriteKernelFlags =
      .ok (s.install d frame, true) := by
  have hput := hs.put_entry hd hfree
  have hpde := pde_put_same s d (frame * pageSize + pageEntryWriteKernelFlags) d
  rw [if_pos rfl] at hpde
  have hzero := hput.memsetWords hd 1024 (i := 0) (by rw [hpde]; exact present_table frame)
    (by omega)
  rw [hpde, frameOf_table, Nat.mul_zero, Nat.add_zero] at hzero
  have hor : frame * pageSize / pageSize * pageSize ||| pageEntryWriteKernelFlags =
      frame * pageSize + pageEntryWriteKernelFlags := by
    rw [Nat.mul_div_cancel _ (by decide : 0 < pageSize)]
    exact or_flags frame (by decide)
  simp only [Paging.mapTableEntry, hva, hs.load_dir (show d < 1024 by omega), ok_bind, hp,
    Bool.false_eq_true, if_false, hor, hs.store_dir (show d < 1024 by omega), entriesAmount, hzero,
    pure_eq_ok]
  rfl

end Install

/-! ## A range -/

section Range

variable {σ : Type} {mmAllocPagetable : σ → Kernel (σ × Nat)}

/-- The next `n` calls of the allocator give frames that are not in use, each of
them another one. -/
def Supplies (mmAllocPagetable : σ → Kernel (σ × Nat)) : Nat → σ → (Nat → Prop) → Prop
  | 0, _, _ => True
  | n + 1, a, used => ∃ a' frame, mmAllocPagetable a = .ok (a', frame * pageSize) ∧ frame ≠ 0 ∧
      ¬ used frame ∧ Supplies mmAllocPagetable n a' fun f => used f ∨ f = frame

theorem Supplies.of_imp : ∀ {n : Nat} {a : σ} {used used' : Nat → Prop},
    Supplies mmAllocPagetable n a used → (∀ f, used' f → used f) →
    Supplies mmAllocPagetable n a used' := by
  intro n
  induction n with
  | zero => intros; trivial
  | succ n ih =>
    intro a used used' h himp
    obtain ⟨a', frame, hcall, hzero, hfree, hrest⟩ := h
    refine ⟨a', frame, hcall, hzero, fun hu => hfree (himp frame hu), ih hrest ?_⟩
    intro f hf
    exact hf.imp_left (himp f)

/-- How many of the `n` entries from `d` on have no table. -/
def missing (s : Space) : Nat → Nat → Nat
  | _, 0 => 0
  | d, n + 1 => missing s (d + 1) n + if present (s.pde d) then 0 else 1

theorem missing_congr {s s' : Space} : ∀ (n : Nat) {d : Nat},
    (∀ e, d ≤ e → s'.pde e = s.pde e) → missing s' d n = missing s d n := by
  intro n
  induction n with
  | zero => intros; rfl
  | succ n ih =>
    intro d h
    rw [missing, missing, h d (Nat.le_refl d), ih fun e he => h e (by omega)]

theorem inUse_install {s : Space} (hs : Recursive s) {d frame : Nat} (hfree : ¬ InUse s frame)
    {f : Nat} (h : InUse (s.install d frame) f) : InUse s f ∨ f = frame := by
  obtain ⟨e, he, hp, hf⟩ := h
  rw [pde_install hs hfree] at hp hf
  by_cases hed : e = d
  · rw [if_pos hed, frameOf_table] at hf
    exact .inr hf.symm
  · rw [if_neg hed] at hp hf
    exact .inl ⟨e, he, hp, hf⟩

theorem Recursive.getPageTable {s : Space} (hs : Recursive s) {d : Nat} (hd : d < 1024)
    (hp : present (s.pde d) = true) : getPageTable s d = .ok (pageTable d) := by
  simp [Paging.getPageTable, hs.load_dir hd, hp]

/-- `ensure_page_table`: the table is there afterwards, and no page entry changed. -/
theorem Recursive.ensurePageTable {s : Space} (hs : Recursive s) {a : σ} {d n va : Nat}
    (hd : d < 1023) (hva : getPdeIndex va = d)
    (halloc : Supplies mmAllocPagetable (n + if present (s.pde d) then 0 else 1) a (InUse s)) :
    ∃ s' a', ensurePageTable mmAllocPagetable s a va = .ok (s', a', pageTable d) ∧ Recursive s' ∧
      present (s'.pde d) = true ∧ (∀ e, d < e → s'.pde e = s.pde e) ∧
      (∀ q < 1023 * 1024, s'.entry q = s.entry q) ∧ Supplies mmAllocPagetable n a' (InUse s') := by
  have hentry : getTableEntry s va = .ok (s.pde d) := by
    rw [getTableEntry, hva, hs.load_dir (by omega)]
  by_cases hp : present (s.pde d) = true
  · rw [if_pos hp, Nat.add_zero] at halloc
    refine ⟨s, a, ?_, hs, hp, fun _ _ => rfl, fun _ _ => rfl, halloc⟩
    simp [Paging.ensurePageTable, hentry, hva, hp, hs.getPageTable (show d < 1024 by omega) hp]
  · rw [if_neg hp] at halloc
    obtain ⟨a', frame, hcall, hzero, hfree, hrest⟩ := halloc
    have hp' : present (s.pde d) = false := by simpa using hp
    have hs' := hs.install hd hfree
    have hnew : present ((s.install d frame).pde d) = true := by
      rw [pde_install hs hfree, if_pos rfl]
      exact present_table frame
    have hne : frame * pageSize ≠ 0 := by unfold pageSize; omega
    refine ⟨s.install d frame, a', ?_, hs', hnew, ?_, fun q hq => entry_install hs hp' hfree hq, ?_⟩
    · simp [Paging.ensurePageTable, hentry, hva, hp', hcall, assert, hne,
        hs.mapTableEntry hd hp' hfree hva, hs'.getPageTable (show d < 1024 by omega) hnew]
    · intro e he
      rw [pde_install hs hfree, if_neg (by omega)]
    · exact hrest.of_imp fun f hf => inUse_install hs hfree hf

theorem mapPhysRange_zero (hwFlags fuel : Nat) (s : Space) (a : σ) (pa va : Nat) :
    mapPhysRange mmAllocPagetable hwFlags fuel 0 s a pa va = .ok (s, a, true) := by
  cases fuel <;> rfl

/-- The walk over the tables: each turn goes to the end of a table or of the
range, so that the next one starts at the first page of the next table. -/
theorem Recursive.mapPhysRange (hwFlags : Nat) : ∀ (fuel count : Nat) {s : Space} {a : σ}
    {pa d i : Nat}, Recursive s → count ≤ fuel → i < 1024 → d * 1024 + i + count ≤ 1023 * 1024 →
    pa < 2 ^ 32 →
    Supplies mmAllocPagetable (missing s d ((i + count + 1023) / 1024)) a (InUse s) →
    ∃ s' a', mapPhysRange mmAllocPagetable hwFlags fuel count s a pa ((d * 1024 + i) * 4096) =
        .ok (s', a', true) ∧ Recursive s' ∧
      Maps s s' (d * 1024 + i) count fun k => pageEntry (u32 (pa + k * 4096)) hwFlags := by
  intro fuel
  induction fuel with
  | zero =>
    intro count s a pa d i hs hfuel _ _ _ _
    obtain rfl : count = 0 := by omega
    exact ⟨s, a, rfl, hs, Maps.none (fun _ _ => rfl) _ _⟩
  | succ fuel ih =>
    intro count s a pa d i hs hfuel hi hrange hpa halloc
    cases count with
    | zero => exact ⟨s, a, rfl, hs, Maps.none (fun _ _ => rfl) _ _⟩
    | succ count =>
      have hd : d < 1023 := by omega
      obtain ⟨n, hn⟩ : ∃ n, (i + (count + 1) + 1023) / 1024 = n + 1 :=
        ⟨(i + count) / 1024, by omega⟩
      rw [hn, missing] at halloc
      obtain ⟨s₁, a₁, hrun₁, hs₁, hp₁, hpde₁, hentry₁, halloc₁⟩ :=
        hs.ensurePageTable hd (getPdeIndex_page hi) halloc
      obtain ⟨s₂, hrun₂, hs₂, hpde₂, hmaps₂⟩ :=
        Recursive.mapInTable hwFlags hd (1024 - i) (count + 1) (i := i) hs₁ hp₁ (by omega) hpa
      have hmaps : Maps s s₂ (d * 1024 + i) (min (1024 - i) (count + 1))
          fun k => pageEntry (u32 (pa + k * 4096)) hwFlags := Maps.after_same hentry₁ hmaps₂
      have hturn : Paging.mapPhysRange mmAllocPagetable hwFlags (fuel + 1) (count + 1) s a pa
            ((d * 1024 + i) * 4096) =
          Paging.mapPhysRange mmAllocPagetable hwFlags fuel (count + 1 - (1024 - i)) s₂ a₁
            (u32 (pa + min (1024 - i) (count + 1) * 4096))
            ((d * 1024 + i + min (1024 - i) (count + 1)) * 4096) := by
        have hne : pageTable d ≠ 0 := by unfold pageTable; omega
        simp only [Paging.mapPhysRange, getPteIndex_page hi, hrun₁, ok_bind, hne, if_false,
          entriesAmount, hrun₂]
      rw [hturn]
      by_cases hlast : count + 1 ≤ 1024 - i
      · -- the range ends in this table
        rw [Nat.min_eq_right hlast] at hmaps
        rw [show count + 1 - (1024 - i) = 0 by omega, mapPhysRange_zero]
        exact ⟨s₂, a₁, rfl, hs₂, hmaps⟩
      · have hmin : min (1024 - i) (count + 1) = 1024 - i := by omega
        have hnext : d * 1024 + i + (1024 - i) = (d + 1) * 1024 := by omega
        have hcount : count + 1 = (1024 - i) + (count + 1 - (1024 - i)) := by omega
        have htables : (count + 1 - (1024 - i) + 1023) / 1024 = n := by omega
        have hmissing : missing s₂ (d + 1) n = missing s (d + 1) n :=
          missing_congr n fun e he => by rw [hpde₂, hpde₁ e (by omega)]
        have hused : ∀ f, InUse s₂ f → InUse s₁ f := by
          intro f h
          obtain ⟨e, he, hp⟩ := h
          rw [hpde₂] at hp
          exact ⟨e, he, hp⟩
        have hrest := @ih (count + 1 - (1024 - i)) s₂ a₁ (u32 (pa + (1024 - i) * 4096)) (d + 1) 0
          hs₂ (by omega) (by omega)
        rw [Nat.add_zero, Nat.zero_add, htables, hmissing] at hrest
        obtain ⟨s₃, a₃, hrun₃, hs₃, hmaps₃⟩ :=
          hrest (by omega) (Nat.mod_lt _ (by decide)) (halloc₁.of_imp hused)
        rw [hmin, hnext]
        refine ⟨s₃, a₃, hrun₃, hs₃, ?_⟩
        rw [hcount]
        rw [hmin] at hmaps
        apply hmaps.trans
        rw [hnext]
        simpa only [u32_add_u32, Nat.add_mul, Nat.add_assoc] using hmaps₃

end Range

/-! ## What the entries say -/

theorem getPteIndex_lt (va : Nat) : getPteIndex va < 1024 := Nat.mod_lt _ (by decide)

theorem page_div (va : Nat) : va / pageSize / 1024 = getPdeIndex va := by
  unfold pageSize getPdeIndex; omega

theorem page_mod (va : Nat) : va / pageSize % 1024 = getPteIndex va := rfl

theorem page_address {va : Nat} (hva : va % pageSize = 0) :
    va = (getPdeIndex va * 1024 + getPteIndex va) * 4096 ∧
      va / pageSize = getPdeIndex va * 1024 + getPteIndex va := by
  unfold getPdeIndex getPteIndex pageSize at *
  omega

theorem walk_eq_entry (s : Space) (va : Nat) :
    walk s va = if present (s.entry (va / pageSize)) then
      .ok (frameOf (s.entry (va / pageSize))) else .error .outOfBounds := by
  unfold Space.entry
  rw [page_div, page_mod]
  by_cases hp : present (s.pde (getPdeIndex va)) = true
  · rw [if_pos hp]
    simp only [Space.pde] at hp
    simp only [walk, Space.pde, hp, if_true]
    rfl
  · rw [if_neg hp]
    simp only [Space.pde] at hp
    rw [walk, if_neg hp]
    rfl

theorem Recursive.virtToPhys {s : Space} (hs : Recursive s) {va : Nat} (hva : va < 2 ^ 32) :
    virtToPhys s va = .ok (if present (s.entry (va / pageSize)) then
      s.entry (va / pageSize) / pageSize * pageSize ||| va % pageSize else 0) := by
  have hd : getPdeIndex va < 1024 := by unfold getPdeIndex; omega
  unfold Space.entry
  rw [page_div, page_mod, Paging.virtToPhys, hs.load_dir hd, ok_bind]
  by_cases hp : present (s.pde (getPdeIndex va)) = true
  · rw [if_pos hp, hs.load_table hd (getPteIndex_lt va) hp, ok_bind, hp]
    simp only [Bool.not_true, Bool.false_eq_true, if_false]
    split
    · next h => simp_all
    · next h => simp_all
  · have hp' : present (s.pde (getPdeIndex va)) = false := by simpa using hp
    rw [if_neg hp, hp']
    rfl

theorem pagingToHwFlags_lt (pagingFlags : Nat) : pagingToHwFlags pagingFlags < 4096 := by
  have h (flag hw : Nat) (hhw : hw < 2 ^ 12) : hwFlag pagingFlags flag hw < 2 ^ 12 := by
    unfold hwFlag
    split <;> omega
  show pagingToHwFlags pagingFlags < 2 ^ 12
  exact Nat.or_lt_two_pow (Nat.or_lt_two_pow (Nat.or_lt_two_pow (Nat.or_lt_two_pow
    (h 4 32 (by decide)) (h 2 64 (by decide))) (h 16 2 (by decide))) (h 8 4 (by decide)))
    (h 1 1 (by decide))

/-- `PAGING_FLAG_PRESENT` is always passed, so the bit of the entry is always set. -/
theorem present_pagingToHwFlags (pagingFlags : Nat) :
    present (pagingToHwFlags (pagingFlags ||| 1)) = true := by
  have hone : (pagingFlags ||| 1) &&& 1 ≠ 0 := by
    rw [Nat.and_one_is_mod, Nat.or_mod_two_eq_one.2 (.inr rfl)]
    decide
  unfold present pagingToHwFlags
  rw [decide_eq_true_eq, Nat.or_mod_two_eq_one]
  right
  unfold hwFlag
  rw [if_pos hone]

/-! ## The mapping is exact -/

/-- The tables that are missing for a range. -/
def missingTables (s : Space) (va count : Nat) : Nat :=
  missing s (getPdeIndex va) ((getPteIndex va + count + 1023) / 1024)

/-- `paging_map_pages` maps the pages of the range, with the flags it is given, and
nothing else: every other page below the window keeps its entry, and with it its
translation and its flags. -/
theorem pagingMapPages_exact {σ : Type} {mmAllocPagetable : σ → Kernel (σ × Nat)} {s : Space}
    {a : σ} (pa va count pagingFlags : Nat) (hs : Recursive s) (hpa : pa % pageSize = 0)
    (hva : va % pageSize = 0) (hcount : 1 ≤ count) (hrange : va + count * pageSize ≤ 0xFFC00000)
    (hwrap : pa + count * pageSize ≤ 2 ^ 32)
    (halloc : Supplies mmAllocPagetable (missingTables s va count) a (InUse s)) :
    ∃ s' a', pagingMapPages mmAllocPagetable s a pa va count pagingFlags = .ok (s', a', true) ∧
      Recursive s' ∧
      (∀ i < count, ∀ o < pageSize,
        virtToPhys s' (va + i * pageSize + o) = .ok (pa + i * pageSize + o) ∧
        walk s' (va + i * pageSize + o) = .ok (pa / pageSize + i) ∧
        s'.entry (va / pageSize + i) =
          pa + i * pageSize + pagingToHwFlags (pagingFlags ||| 1)) ∧
      ∀ x < 0xFFC00000, x < va ∨ va + count * pageSize ≤ x →
        virtToPhys s' x = virtToPhys s x ∧ walk s' x = walk s x ∧
        s'.entry (x / pageSize) = s.entry (x / pageSize) := by
  have hhw := pagingToHwFlags_lt (pagingFlags ||| 1)
  have hwords : va = (getPdeIndex va * 1024 + getPteIndex va) * 4096 := by
    unfold pageSize at hva
    unfold getPdeIndex getPteIndex
    omega
  have hpage : va / pageSize = getPdeIndex va * 1024 + getPteIndex va := by
    unfold pageSize
    omega
  obtain ⟨s', a', hrun, hs', hmaps⟩ := Recursive.mapPhysRange (pagingToHwFlags (pagingFlags ||| 1))
    count count hs (Nat.le_refl _) (getPteIndex_lt va)
    (by unfold pageSize at hrange; omega)
    (show pa < 2 ^ 32 by unfold pageSize at hwrap; omega) halloc
  rw [← hwords] at hrun
  rw [← hpage] at hmaps
  refine ⟨s', a', ?_, hs', ?_, ?_⟩
  · have hpos : count > 0 := hcount
    simp [pagingMapPages, assert, hpa, hva, hpos, hrun]
  · intro i hi o ho
    have hlt : va + i * pageSize + o < 0xFFC00000 := by unfold pageSize at *; omega
    have hdiv : (va + i * pageSize + o) / pageSize = va / pageSize + i := by
      unfold pageSize at *; omega
    have hmod : (va + i * pageSize + o) % pageSize = o := by unfold pageSize at *; omega
    have hfit : pa + i * 4096 < 2 ^ 32 := by unfold pageSize at *; omega
    have hk : (pa + i * 4096) / pageSize * pageSize = pa + i * pageSize := by
      unfold pageSize at *; omega
    have hentry : s'.entry (va / pageSize + i) =
        pa + i * pageSize + pagingToHwFlags (pagingFlags ||| 1) := by
      have h := hmaps (va / pageSize + i) (by unfold pageSize at *; omega)
      rw [if_pos (by omega), Nat.add_sub_cancel_left] at h
      rw [h]
      show pageEntry (u32 (pa + i * 4096)) _ = _
      rw [u32_of_lt hfit, pageEntry, Nat.mod_eq_of_lt (show _ < pageSize from hhw),
        or_flags _ hhw, hk]
    have hpres : present (s'.entry (va / pageSize + i)) = true := by
      have h := present_pagingToHwFlags pagingFlags
      unfold present at h ⊢
      rw [decide_eq_true_eq] at h ⊢
      rw [hentry]
      unfold pageSize at *; omega
    have hframe : frameOf (s'.entry (va / pageSize + i)) = pa / pageSize + i := by
      rw [hentry]
      unfold frameOf
      unfold pageSize at *; omega
    refine ⟨?_, ?_, hentry⟩
    · rw [hs'.virtToPhys (by omega), hdiv, hmod, if_pos hpres]
      have hbase : s'.entry (va / pageSize + i) / pageSize = pa / pageSize + i := hframe
      have hsum : (pa / pageSize + i) * pageSize = pa + i * pageSize := by
        rw [Nat.add_mul, Nat.div_mul_cancel (Nat.dvd_of_mod_eq_zero hpa)]
      rw [hbase, or_flags _ ho, hsum]
    · rw [walk_eq_entry, hdiv, if_pos hpres, hframe]
  · intro x hx hout
    have hentry : s'.entry (x / pageSize) = s.entry (x / pageSize) := by
      rw [hmaps (x / pageSize) (by unfold pageSize; omega), if_neg]
      unfold pageSize at *; omega
    refine ⟨?_, ?_, hentry⟩
    · rw [hs'.virtToPhys (by omega), hs.virtToPhys (by omega), hentry]
    · rw [walk_eq_entry, walk_eq_entry, hentry]

/-- A directory in frame 1 with the recursive entry only. -/
def bareSpace : Space where
  dir := 1
  mem f w := if f = 1 ∧ w = 1023 then 1 * pageSize + pageEntryWriteKernelFlags else 0

/-- Frames in order. -/
def nextFrame (next : Nat) : Kernel (Nat × Nat) := .ok (next + 1, next * pageSize)

theorem pde_bareSpace (d : Nat) :
    bareSpace.pde d = if d = 1023 then 1 * pageSize + pageEntryWriteKernelFlags else 0 := by
  simp [Space.pde, bareSpace]

theorem present_bareSpace {d : Nat} (h : present (bareSpace.pde d) = true) : d = 1023 := by
  by_contra hd
  rw [pde_bareSpace, if_neg hd] at h
  cases h

theorem recursive_bareSpace : Recursive bareSpace where
  here := by rw [pde_bareSpace, if_pos rfl]; exact present_table 1
  self := by rw [pde_bareSpace, if_pos rfl]; exact frameOf_table 1
  own := by
    intro d e _ _ hd he _
    rw [present_bareSpace hd, present_bareSpace he]

theorem inUse_bareSpace {f : Nat} (h : InUse bareSpace f) : f = 1 := by
  obtain ⟨d, _, hp, hf⟩ := h
  rw [present_bareSpace hp, pde_bareSpace, if_pos rfl, frameOf_table] at hf
  exact hf.symm

/-- Three pages across a table boundary, with both tables missing, for the user
and for writing. -/
theorem threePages_exact :
    ∃ s' a', pagingMapPages nextFrame bareSpace 2 0x9000 0x3FF000 3 24 = .ok (s', a', true) ∧
      virtToPhys s' 0x401234 = .ok 0xB234 ∧ s'.entry 0x401 = 0xB007 ∧
      virtToPhys s' 0x402000 = .ok 0 := by
  have hmissing : missingTables bareSpace 0x3FF000 3 = 2 := by decide +kernel
  have hsupply : Supplies nextFrame 2 2 (InUse bareSpace) := by
    refine ⟨3, 2, rfl, by decide, fun h => absurd (inUse_bareSpace h) (by decide),
      4, 3, rfl, by decide, ?_, trivial⟩
    intro h
    rcases h with h | h
    · exact absurd (inUse_bareSpace h) (by decide)
    · exact absurd h (by decide)
  obtain ⟨s', a', hrun, _, hin, hout⟩ := pagingMapPages_exact 0x9000 0x3FF000 3 24
    recursive_bareSpace (by decide) (by decide) (by decide) (by decide) (by decide)
    (by rw [hmissing]; exact hsupply)
  obtain ⟨htrans, _, hentry⟩ := hin 2 (by decide) 0x234 (by decide)
  refine ⟨s', a', hrun, htrans, hentry, ?_⟩
  rw [(hout 0x402000 (by decide) (by decide)).1]
  decide +kernel

/-- Directory entries 0 and 1 share the table in frame 2. -/
def sharedSpace : Space where
  dir := 1
  mem frame word :=
    if frame = 1 then
      if word = 0 ∨ word = 1 then 2 * pageSize + pageEntryWriteKernelFlags
      else if word = 1023 then 1 * pageSize + pageEntryWriteKernelFlags else 0
    else 0

/-- A table of its own for each entry is needed: the page that is mapped at 0 appears at
`0x400000` as well, and no table had to be supplied. -/
theorem sharedTable_maps_twice :
    present (sharedSpace.pde 1023) = true ∧ frameOf (sharedSpace.pde 1023) = sharedSpace.dir ∧
      missingTables sharedSpace 0 1 = 0 ∧ virtToPhys sharedSpace 0x400000 = .ok 0 ∧
      ∃ s', pagingMapPages nextFrame sharedSpace 3 0x9000 0 1 16 = .ok (s', 3, true) ∧
        virtToPhys s' 0x400000 = .ok 0x9000 := by
  refine ⟨by decide +kernel, by decide +kernel, by decide +kernel, by decide +kernel, _, rfl, ?_⟩
  decide +kernel

end X86Kernel.Paging
