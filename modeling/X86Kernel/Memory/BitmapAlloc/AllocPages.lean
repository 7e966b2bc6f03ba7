import Mathlib.Data.Finset.Card
import Mathlib.Order.Interval.Finset.Nat
import X86Kernel.Memory.BitmapAlloc

/- Taking pages from the boot-time allocator and giving them back
   (`kernel/memory/phys_alloc/bitmap_alloc.c`). `bitmap_alloc_pages` looks for the first free page
   from `last_free_group_index` on and gives the run of free pages that starts there, up to the
   number it is asked for.

   What is proved: it always returns, with no pages when none is free from the hint on, else with
   the first run of free pages from there, which are then the only ones that change
   (`bitmapAllocPages_ok`).

   `handed` is a record of the frames given out so far; the source keeps none.

   Correspondence (C ↔ Lean):
     `pages_allocated`, `last_free_group_index` ↔ `Pool`
     `phys_alloc_t`           ↔ `PhysAlloc`
     `bitmap_alloc_pages`     ↔ `bitmapAllocPages` (`findGroup`, `findRun`)
     `bitmap_alloc_page`      ↔ `bitmapAllocPage`
     `free_phys_page_bitmap`  ↔ `freePhysPageBitmap`
     `free_phys_pages_bitmap` ↔ `freePhysPagesBitmap` -/
namespace X86Kernel.BitmapAlloc

/-- The state of the allocator, with the frames it has given out. -/
structure Pool where
  bitmap : Bitmap
  lastFreeGroupIndex : Nat
  handed : List Nat

/-- `phys_alloc_t`. -/
structure PhysAlloc where
  addr : Nat
  count : Nat
  deriving DecidableEq, Repr

/-- The first byte from `i` on that is not zero, within `n` bytes. -/
def findGroup (b : Bitmap) : Nat → Nat → Nat
  | 0, i => i
  | n + 1, i => if b.bytes i ≠ 0#8 then i else findGroup b n (i + 1)

/-- The scan over the pages from `i` on: `run_start`, where `none` is -1, and `run_length`. -/
def findRun (b : Bitmap) (count : Nat) : Nat → Nat → Option Nat → Nat → Option Nat × Nat
  | 0, _, runStart, runLength => (runStart, runLength)
  | n + 1, i, runStart, runLength =>
    let isFree := (b.bytes (i / 8)).getLsbD (i % 8)
    if !isFree && runStart.isSome then (runStart, runLength)
    else if isFree then
      let runStart := runStart.getD i
      if runLength + 1 = count then (some runStart, runLength + 1)
      else findRun b count n (i + 1) (some runStart) (runLength + 1)
    else findRun b count n (i + 1) runStart runLength

def bitmapAllocPages (p : Pool) (count : Nat) : Kernel (Pool × PhysAlloc) := do
  if count = 0 then return (p, ⟨0, 0⟩)
  else
    let pageGroupIndex :=
      findGroup p.bitmap (pagesArrSize - p.lastFreeGroupIndex) p.lastFreeGroupIndex
    let totalPages := pagesArrSize * 8
    match findRun p.bitmap count (totalPages - pageGroupIndex * 8) (pageGroupIndex * 8) none 0 with
    | (none, _) => return (p, ⟨0, 0⟩)
    | (some runStart, allocated) =>
      let b ← ((List.range' runStart allocated).map (· * pageSize)).foldlM
        (fun b pa => allocPageAt pa b) p.bitmap
      return ({ p with bitmap := b, handed := p.handed ++ List.range' runStart allocated },
        ⟨runStart * pageSize, allocated⟩)

/-- `bitmap_alloc_page`: an address, or NULL. -/
def bitmapAllocPage (p : Pool) : Kernel (Pool × Nat) := do
  let (p, alloc) ← bitmapAllocPages p 1
  return (p, if alloc.count ≠ 0 then alloc.addr else 0)

/-- `free_phys_page_bitmap`: the hint goes to the page, also when that is further on. -/
def freePhysPageBitmap (p : Pool) (pageAddr : Nat) : Kernel Pool := do
  let b ← freePageAt pageAddr p.bitmap
  return { p with bitmap := b, lastFreeGroupIndex := pageAddr / pageSize / 8 }

/-- `free_phys_pages_bitmap`. -/
def freePhysPagesBitmap (p : Pool) (freeParams : PhysAlloc) : Kernel Pool :=
  (List.range freeParams.count).foldlM
    (fun p i => freePhysPageBitmap p (u32 (freeParams.addr + i * pageSize))) p

/-! ## The scan -/

theorem free_iff_bit {b : Bitmap} {f : Nat} (hf : f < pagesArrSize * 8) :
    b.Free f ↔ (b.bytes (f / 8)).getLsbD (f % 8) = true := by
  unfold Bitmap.Free
  constructor
  · intro h
    exact h.2
  · intro h
    exact ⟨by omega, h⟩

theorem Bitmap.Free.lt {b : Bitmap} {f : Nat} (h : b.Free f) : f < pagesArrSize * 8 := by
  have := h.1
  omega

theorem not_free_of_byte {b : Bitmap} {f : Nat} (h : b.bytes (f / 8) = 0#8) : ¬ b.Free f := by
  intro hf
  have hbit := hf.2
  rw [h] at hbit
  simp at hbit

theorem findGroup_ok (b : Bitmap) : ∀ (n i : Nat), i ≤ findGroup b n i ∧ findGroup b n i ≤ i + n ∧
    ∀ j, i ≤ j → j < findGroup b n i → b.bytes j = 0#8 := by
  intro n
  induction n with
  | zero => intro i; exact ⟨Nat.le_refl i, Nat.le_refl i, fun j hge hlt => absurd hlt (by
      rw [findGroup]; omega)⟩
  | succ n ih =>
    intro i
    rw [findGroup]
    by_cases hbyte : b.bytes i = 0#8
    · obtain ⟨hge, hle, hzero⟩ := ih (i + 1)
      rw [if_neg (not_not.2 hbyte)]
      refine ⟨by omega, by omega, fun j hj hlt => ?_⟩
      by_cases hji : j = i
      · rw [hji]
        exact hbyte
      · exact hzero j (by omega) hlt
    · rw [if_pos hbyte]
      exact ⟨Nat.le_refl i, by omega, fun j hge hlt => absurd hlt (by omega)⟩

/-- A run of `m` free pages from `start` on that is as long as it can be, up to `count`. -/
structure FreeRun (b : Bitmap) (count start m : Nat) : Prop where
  pos : 0 < m
  le : m ≤ count
  free : ∀ f, start ≤ f → f < start + m → b.Free f
  ends : m < count → ¬ b.Free (start + m)

theorem findRun_inside (b : Bitmap) (count : Nat) : ∀ (n i start len : Nat),
    i + n = pagesArrSize * 8 → start + len = i → 0 < len → len < count →
    (∀ f, start ≤ f → f < i → b.Free f) →
    ∃ m, findRun b count n i (some start) len = (some start, m) ∧ FreeRun b count start m := by
  intro n
  induction n with
  | zero =>
    intro i start len hn hlen hpos hlt hfree
    refine ⟨len, rfl, hpos, Nat.le_of_lt hlt, fun f hge hf => hfree f hge (by omega), fun _ h => ?_⟩
    have := h.lt
    omega
  | succ n ih =>
    intro i start len hn hlen hpos hlt hfree
    cases hbit : (b.bytes (i / 8)).getLsbD (i % 8) with
    | false =>
      refine ⟨len, ?_, hpos, Nat.le_of_lt hlt, fun f hge hf => hfree f hge (by omega),
        fun _ h => ?_⟩
      · simp [findRun, hbit]
      · rw [hlen, free_iff_bit (by omega), hbit] at h
        cases h
    | true =>
      have hfree' : ∀ f, start ≤ f → f < i + 1 → b.Free f := by
        intro f hge hf
        by_cases hfi : f = i
        · rw [hfi, free_iff_bit (by omega)]
          exact hbit
        · exact hfree f hge (by omega)
      by_cases hcount : len + 1 = count
      · refine ⟨len + 1, ?_, Nat.succ_pos len, hlt, fun f hge hf => hfree' f hge (by omega),
          fun h => absurd h (by omega)⟩
        simp [findRun, hbit, hcount]
      · obtain ⟨m, hrun, hm⟩ :=
          ih (i + 1) start (len + 1) (by omega) (by omega) (by omega) (by omega) hfree'
        refine ⟨m, ?_, hm⟩
        simp [findRun, hbit, hcount, hrun]

/-- Before the first free page: the scan finds none, or the first one and the run from there. -/
theorem findRun_ok (b : Bitmap) {count : Nat} (hcount : 0 < count) : ∀ (n i : Nat),
    i + n = pagesArrSize * 8 →
    (findRun b count n i none 0 = (none, 0) ∧ ∀ f, i ≤ f → ¬ b.Free f) ∨
      ∃ start m, findRun b count n i none 0 = (some start, m) ∧ FreeRun b count start m ∧
        i ≤ start ∧ ∀ f, i ≤ f → f < start → ¬ b.Free f := by
  intro n
  induction n with
  | zero =>
    intro i hn
    refine .inl ⟨rfl, fun f hge h => ?_⟩
    have := h.lt
    omega
  | succ n ih =>
    intro i hn
    cases hbit : (b.bytes (i / 8)).getLsbD (i % 8) with
    | false =>
      have hstep : findRun b count (n + 1) i none 0 = findRun b count n (i + 1) none 0 := by
        simp [findRun, hbit]
      have hnot : ¬ b.Free i := by
        rw [free_iff_bit (by omega), hbit]
        exact Bool.false_ne_true
      -- the page at `i` is not the first free one
      have hskip : ∀ {P : Nat → Prop}, (∀ f, i + 1 ≤ f → P f → ¬ b.Free f) →
          ∀ f, i ≤ f → P f → ¬ b.Free f := by
        intro P h f hge hP
        by_cases hfi : f = i
        · rw [hfi]
          exact hnot
        · exact h f (by omega) hP
      rw [hstep]
      cases ih (i + 1) (by omega) with
      | inl hnone =>
        exact .inl ⟨hnone.1, fun f hge => hskip (P := fun _ => True)
          (fun f hge _ => hnone.2 f hge) f hge trivial⟩
      | inr hfound =>
        obtain ⟨start, m, hrun, hm, hge, hfirst⟩ := hfound
        exact .inr ⟨start, m, hrun, hm, by omega, hskip hfirst⟩
    | true =>
      have hfree : ∀ f, i ≤ f → f < i + 1 → b.Free f := by
        intro f hge hf
        obtain rfl : f = i := by omega
        rw [free_iff_bit (by omega)]
        exact hbit
      right
      by_cases hone : 0 + 1 = count
      · refine ⟨i, 1, ?_, ⟨Nat.one_pos, hcount, hfree, fun h => absurd h (by omega)⟩,
          Nat.le_refl i, fun f hge hlt => absurd hlt (by omega)⟩
        simp [findRun, hbit, ← hone]
      · obtain ⟨m, hrun, hm⟩ :=
          findRun_inside b count n (i + 1) i 1 (by omega) rfl Nat.one_pos (by omega) hfree
        refine ⟨i, m, ?_, hm, Nat.le_refl i, fun f hge hlt => absurd hlt (by omega)⟩
        simp only [findRun, hbit, hone, if_false, Option.getD_none, hrun]
        simp

/-! ## Taking a run -/

/-- The `m` pages from `start` on have been given out. -/
structure Taken (p p' : Pool) (start m : Nat) : Prop where
  was : ∀ f, start ≤ f → f < start + m → p.bitmap.Free f
  free : ∀ f, p'.bitmap.Free f ↔ p.bitmap.Free f ∧ ¬ (start ≤ f ∧ f < start + m)
  handed : ∀ f, f ∈ p'.handed ↔ f ∈ p.handed ∨ (start ≤ f ∧ f < start + m)
  hint : p'.lastFreeGroupIndex = p.lastFreeGroupIndex

/-- Both loops of `bitmap_alloc_pages`. -/
def Pool.scan (p : Pool) (count : Nat) : Option Nat × Nat :=
  let i := findGroup p.bitmap (pagesArrSize - p.lastFreeGroupIndex) p.lastFreeGroupIndex * 8
  findRun p.bitmap count (pagesArrSize * 8 - i) i none 0

/-- The first run from the hint on. -/
structure FirstRun (p : Pool) (count start m : Nat) : Prop extends
    FreeRun p.bitmap count start m where
  above : p.lastFreeGroupIndex * 8 ≤ start
  first : ∀ f, p.lastFreeGroupIndex * 8 ≤ f → f < start → ¬ p.bitmap.Free f

theorem scan_ok (p : Pool) {count : Nat} (hcount : 0 < count) :
    (p.scan count = (none, 0) ∧ ∀ f, p.lastFreeGroupIndex * 8 ≤ f → ¬ p.bitmap.Free f) ∨
      ∃ start m, p.scan count = (some start, m) ∧ FirstRun p count start m := by
  unfold Pool.scan
  dsimp only
  obtain ⟨hge, hle, hzero⟩ := findGroup_ok p.bitmap (pagesArrSize - p.lastFreeGroupIndex)
    p.lastFreeGroupIndex
  generalize hgroup : findGroup p.bitmap (pagesArrSize - p.lastFreeGroupIndex)
    p.lastFreeGroupIndex = g at hge hle hzero ⊢
  have hskipped : ∀ f, p.lastFreeGroupIndex * 8 ≤ f → f < g * 8 → ¬ p.bitmap.Free f := by
    intro f hf hlt
    exact not_free_of_byte (hzero (f / 8) (by omega) (by omega))
  by_cases hin : g * 8 ≤ pagesArrSize * 8
  · cases findRun_ok p.bitmap hcount (pagesArrSize * 8 - g * 8) (g * 8) (by omega) with
    | inl hnone =>
      refine .inl ⟨hnone.1, fun f hf => ?_⟩
      by_cases hlt : f < g * 8
      · exact hskipped f hf hlt
      · exact hnone.2 f (by omega)
    | inr hfound =>
      obtain ⟨start, m, hrun, hm, habove, hfirst⟩ := hfound
      refine .inr ⟨start, m, hrun, hm, by omega, fun f hf hlt => ?_⟩
      by_cases hlow : f < g * 8
      · exact hskipped f hf hlow
      · exact hfirst f (by omega) hlt
  · -- the hint is past the array
    left
    rw [Nat.sub_eq_zero_of_le (by omega)]
    refine ⟨rfl, fun f hf h => ?_⟩
    have := h.lt
    omega

theorem bitmapAllocPages_of_run {p : Pool} {count start m : Nat} (hcount : 0 < count)
    (hscan : p.scan count = (some start, m))
    (hfree : ∀ f, start ≤ f → f < start + m → p.bitmap.Free f) :
    ∃ p', bitmapAllocPages p count = .ok (p', ⟨start * pageSize, m⟩) ∧ Taken p p' start m := by
  have hpos : 0 < pageSize := by decide
  have hpages : ∀ pa ∈ (List.range' start m).map (· * pageSize), pa < 0x80000000 := by
    intro pa hpa
    obtain ⟨f, hf, rfl⟩ := List.mem_map.1 hpa
    rw [List.mem_range'_1] at hf
    have := (hfree f hf.1 hf.2).lt
    unfold pagesArrSize pageSize at *
    omega
  obtain ⟨b, hb, hbits⟩ := allocPages_ok _ p.bitmap hpages
  refine ⟨⟨b, p.lastFreeGroupIndex, p.handed ++ List.range' start m⟩, ?_, hfree, fun f => ?_,
    fun f => ?_, rfl⟩
  · unfold Pool.scan at hscan
    simp only [bitmapAllocPages, if_neg (show ¬ count = 0 by omega), hscan, hb, ok_bind, pure_eq_ok]
  · rw [hbits]
    apply and_congr_right
    intro _
    rw [← List.mem_range'_1]
    constructor
    · intro h hf
      exact h (f * pageSize) (List.mem_map.2 ⟨f, hf, rfl⟩) (Nat.mul_div_cancel f hpos).symm
    · intro h pa hpa hf
      obtain ⟨g, hg, rfl⟩ := List.mem_map.1 hpa
      rw [Nat.mul_div_cancel g hpos] at hf
      exact h (hf ▸ hg)
  · rw [List.mem_append, List.mem_range'_1]

/-- `bitmap_alloc_pages` always returns: with no pages, when none is free from the hint on, or
with the first run of free ones. -/
theorem bitmapAllocPages_ok (p : Pool) {count : Nat} (hcount : 0 < count) :
    (bitmapAllocPages p count = .ok (p, ⟨0, 0⟩) ∧
      ∀ f, p.lastFreeGroupIndex * 8 ≤ f → ¬ p.bitmap.Free f) ∨
    ∃ p' start m, bitmapAllocPages p count = .ok (p', ⟨start * pageSize, m⟩) ∧
      FirstRun p count start m ∧ Taken p p' start m := by
  cases scan_ok p hcount with
  | inl hnone =>
    refine .inl ⟨?_, hnone.2⟩
    have hscan := hnone.1
    unfold Pool.scan at hscan
    simp only [bitmapAllocPages, if_neg (show ¬ count = 0 by omega), hscan, pure_eq_ok]
  | inr hfound =>
    obtain ⟨start, m, hscan, hm⟩ := hfound
    obtain ⟨p', hrun, htaken⟩ := bitmapAllocPages_of_run hcount hscan hm.free
    exact .inr ⟨p', start, m, hrun, hm, htaken⟩

theorem bitmapAllocPages_first {p : Pool} {count lo : Nat} (hcount : 0 < count)
    (habove : p.lastFreeGroupIndex * 8 ≤ lo)
    (hfirst : ∀ f, p.lastFreeGroupIndex * 8 ≤ f → f < lo → ¬ p.bitmap.Free f)
    (hfree : ∀ f, lo ≤ f → f < lo + count → p.bitmap.Free f) :
    ∃ p', bitmapAllocPages p count = .ok (p', ⟨lo * pageSize, count⟩) ∧ Taken p p' lo count := by
  have hlo := hfree lo (Nat.le_refl lo) (by omega)
  cases bitmapAllocPages_ok p hcount with
  | inl hnone => exact absurd hlo (hnone.2 lo habove)
  | inr hfound =>
    obtain ⟨p', start, m, hrun, hm, htaken⟩ := hfound
    have hpos := hm.pos
    have hge : lo ≤ start := by
      by_contra hlt
      exact hfirst start hm.above (by omega) (hm.free start (Nat.le_refl start) (by omega))
    have hle : start ≤ lo := by
      by_contra hlt
      exact hm.first lo habove (by omega) hlo
    obtain rfl : start = lo := by omega
    have hall : ¬ m < count := fun hlt => hm.ends hlt (hfree _ (by omega) (by omega))
    obtain rfl : m = count := by
      have := hm.le
      omega
    exact ⟨p', hrun, htaken⟩

/-! ## The pages an allocation can find -/

instance (b : Bitmap) (f : Nat) : Decidable (b.Free f) := inferInstanceAs (Decidable (_ ∧ _))

/-- The free pages from the hint on. -/
def Pool.reachable (p : Pool) : Finset Nat :=
  (Finset.range (pagesArrSize * 8)).filter fun f => p.lastFreeGroupIndex * 8 ≤ f ∧ p.bitmap.Free f

/-- How many there are. -/
def Pool.freeCount (p : Pool) : Nat := p.reachable.card

theorem mem_reachable {p : Pool} {f : Nat} :
    f ∈ p.reachable ↔ p.lastFreeGroupIndex * 8 ≤ f ∧ p.bitmap.Free f := by
  unfold Pool.reachable
  rw [Finset.mem_filter, Finset.mem_range]
  constructor
  · intro h
    exact h.2
  · intro h
    exact ⟨h.2.lt, h⟩

theorem freeCount_of_taken {p p' : Pool} {start m : Nat} (h : Taken p p' start m)
    (habove : p.lastFreeGroupIndex * 8 ≤ start) : p'.freeCount + m = p.freeCount := by
  have hsub : Finset.Ico start (start + m) ⊆ p.reachable := by
    intro f hf
    rw [Finset.mem_Ico] at hf
    exact mem_reachable.2 ⟨by omega, h.was f hf.1 hf.2⟩
  have hrest : p'.reachable = p.reachable \ Finset.Ico start (start + m) := by
    ext f
    rw [Finset.mem_sdiff, mem_reachable, mem_reachable, Finset.mem_Ico, h.hint, h.free]
    constructor
    · intro hf
      exact ⟨⟨hf.1, hf.2.1⟩, hf.2.2⟩
    · intro hf
      exact ⟨hf.1.1, hf.1.2, hf.2⟩
  have hcard := Finset.card_sdiff_add_card_eq_card hsub
  rw [← hrest, Nat.card_Ico, Nat.add_sub_cancel_left] at hcard
  exact hcard

theorem freeCount_zero {p : Pool} (h : ∀ f, p.lastFreeGroupIndex * 8 ≤ f → ¬ p.bitmap.Free f) :
    p.freeCount = 0 := by
  rw [Pool.freeCount, Finset.card_eq_zero, Finset.eq_empty_iff_forall_notMem]
  intro f hf
  obtain ⟨hge, hfree⟩ := mem_reachable.1 hf
  exact h f hge hfree

theorem bitmapAllocPage_ok (p : Pool) :
    (bitmapAllocPage p = .ok (p, 0) ∧ ∀ f, p.lastFreeGroupIndex * 8 ≤ f → ¬ p.bitmap.Free f) ∨
    ∃ p' frame, bitmapAllocPage p = .ok (p', frame * pageSize) ∧ FirstRun p 1 frame 1 ∧
      Taken p p' frame 1 := by
  cases bitmapAllocPages_ok p Nat.one_pos with
  | inl hnone =>
    refine .inl ⟨?_, hnone.2⟩
    rw [bitmapAllocPage, hnone.1]
    rfl
  | inr hfound =>
    obtain ⟨p', start, m, hrun, hm, htaken⟩ := hfound
    obtain rfl : m = 1 := by
      have hpos := hm.pos
      have hle := hm.le
      omega
    refine .inr ⟨p', start, ?_, hm, htaken⟩
    rw [bitmapAllocPage, hrun]
    rfl

theorem FirstRun.ne_zero {p : Pool} {count frame m : Nat} (h : FirstRun p count frame m)
    (hzero : p.lastFreeGroupIndex = 0 → ¬ p.bitmap.Free 0) : frame ≠ 0 := by
  intro he
  have hpos := h.pos
  have habove := h.above
  exact hzero (by omega) (he ▸ h.free frame (Nat.le_refl frame) (by omega))

end X86Kernel.BitmapAlloc
