import X86Kernel.Memory.Heap.Sound

/- The growth of the heap.

   `alloc_buddy` grows the heap when no block is left, and the new region has an interval,
   an object of a slab, that may need a block again. The size that the recursion is bounded
   by, `reserved_max_size - cur_size`, changes only at the end of a growth.

   What is proved, for every heap the kernel comes to after `init_virt_region`: a request
   ends, and no growth adds what a growth around it is adding, exactly if it needs no growth,
   or there is room for the interval, or the checks or the frames stop the growth or the one
   inside it (`growth_ends_without_reentry`). Where the lists are sound and regions get
   frames of their own, the end is a block or a stop of the kernel, and the lists stay sound
   (`Sound.allocRoom`). In a heap whose lists are all empty each growth starts another one at
   the same address (`reenters_of_starved`, `fullHeap_reenters`).

   The calls of the world, for frames, page tables and the tree of regions, are assumed to
   end themselves (`World.Keeps`).

   Correspondence (C ↔ Lean):
     `grow_size` of `grow_heap`  ↔ `growSize`
     the checks of `alloc_buddy`, `grow_heap` and `add_heap_region` ↔ `Adds`
     `add_heap_region` after its checks ↔ `addChecked`
     the call stack              ↔ `Calling` -/
namespace X86Kernel.Heap
open X86Kernel.Lib

variable {ω : Type}

/-! ## The world of a growth -/

/-- The laws of the world that the heap grows in: its calls keep `Good`, and stop with
an error of `E` only. -/
structure World.Keeps (W : World ω) (E : Fault → Prop) (Good : ω → Prop) : Prop where
  alloc : ∀ {w} n, Good w → Outcome E (fun r => Good r.1) (W.mmAllocPages w n)
  mark : ∀ {w} interval va count, Good w → Outcome E Good (W.markRegion w interval va count)
  map : ∀ {w} pa va count flags, Good w → Outcome E Good (W.pagingMapPages w pa va count flags)

theorem World.Keeps.mono {W : World ω} {E E' : Fault → Prop} {Good : ω → Prop}
    (h : W.Keeps E Good) (hE : ∀ e, E e → E' e) : W.Keeps E' Good where
  alloc n hw := (h.alloc n hw).mono_error hE
  mark interval va count hw := (h.mark interval va count hw).mono_error hE
  map pa va count flags hw := (h.map pa va count flags hw).mono_error hE

theorem world_keeps_any (W : World ω) : W.Keeps (fun _ => True) (fun _ => True) where
  alloc _ _ := outcome_of_ok fun _ _ => trivial
  mark _ _ _ _ := outcome_of_ok fun _ _ => trivial
  map _ _ _ _ _ := outcome_of_ok fun _ _ => trivial

/-- The kernel stops itself: an assertion, `abort`, or the page fault of a read through NULL,
whose handler aborts. -/
def Stopped (e : Fault) : Prop := e = .assertion ∨ e = .abort ∨ e = .nullDeref

/-- The pages that `vmap_pages` maps for a new region get frames of their own, and no other
page changes. -/
structure World.OwnPages (W : World ω) (Good : ω → Prop) : Prop where
  alloc : ∀ {w n r}, Good w → W.mmAllocPages w n = .ok r → W.descOf r.1 = W.descOf w
  region : ∀ {w n r interval va w₁ w₂}, Good w → va % pageSize = 0 →
    W.mmAllocPages w n = .ok r → W.markRegion r.1 interval va n = .ok w₁ →
    W.pagingMapPages w₁ (W.pfnToPa w₁ (.num (W.pfnToPa r.1 (.page r.2)))) va n 0x71 = .ok w₂ →
    (∀ p, p * pageSize < va ∨ va + n * pageSize ≤ p * pageSize →
      W.descOf w₂ p = W.descOf w p) ∧ AloneIn W w₂ va (va + n * pageSize)

/-! ## What growth does -/

/-- The size `grow_heap` adds. -/
def growSize (s : HeapVars ω) (size : Nat) : Nat :=
  min (max size s.curSize) (sub32 s.reservedMaxSize s.curSize)

/-- The heap is not larger than it may get, and a slab of intervals has size `z`. -/
structure Ready (z : Nat) (s : HeapVars ω) : Prop where
  interval : (s.slabs s.intervalCache).slabSize = z
  le : s.curSize ≤ s.reservedMaxSize
  lt : s.reservedMaxSize < 2 ^ 32

theorem Ready.growSize_le {z : Nat} {s : HeapVars ω} (h : Ready z s) (size : Nat) :
    s.curSize + growSize s size ≤ s.reservedMaxSize := by
  have hle := h.le
  have hmax : growSize s size ≤ s.reservedMaxSize - s.curSize := by
    rw [← sub32_of_le h.lt hle]
    exact Nat.min_le_right _ _
  omega

theorem ready_of_outline {z : Nat} {s t : HeapVars ω} (h : t.outline = s.outline) (hs : Ready z s) :
    Ready z t where
  interval := by
    have hcache : t.intervalCache = s.intervalCache := congrArg Outline.intervalCache h
    rw [hcache]
    exact (congrFun (congrArg Outline.slabSize h) s.intervalCache).trans hs.interval
  le := by
    have hcur : t.curSize = s.curSize := congrArg Outline.curSize h
    have hmax : t.reservedMaxSize = s.reservedMaxSize := congrArg Outline.reservedMaxSize h
    rw [hcur, hmax]
    exact hs.le
  lt := by
    have hmax : t.reservedMaxSize = s.reservedMaxSize := congrArg Outline.reservedMaxSize h
    rw [hmax]
    exact hs.lt

/-- `alloc_buddy` calls `add_heap_region`, and that gets past its checks. -/
structure Adds (s : HeapVars ω) (size : Nat) : Prop where
  whole : Whole size
  notServed : ¬ Served s (orderOf size)
  fits : u32 (s.curSize + growSize s size) ≤ s.reservedMaxSize
  pos : growSize s size ≠ 0
  pages : growSize s size % pageSize = 0
  below : u32 (s.curMaxAddr + growSize s size) ≤ s.reservedMaxAddr

/-- `add_heap_region` after its checks. -/
def addChecked (W : World ω) (f : HeapVars ω → Nat → Kernel (HeapVars ω × Nat)) (s : HeapVars ω)
    (addSize : Nat) : Kernel (HeapVars ω) := do
  let (world, page) ← W.mmAllocPages s.world (addSize / pageSize)
  let s := { s with world }
  let s ← vmapPages W f s s.curMaxAddr (.num (W.pfnToPa world (.page page))) (addSize / pageSize)
  let s ← addBuddies W false (addSize / pageSize + 1) s s.curMaxAddr addSize
  return { s with
    curMaxAddr := u32 (s.curMaxAddr + addSize), curSize := u32 (s.curSize + addSize) }

section Checks

variable {W : World ω} {s : HeapVars ω} {size : Nat}

theorem growHeap_eq (f : HeapVars ω → Nat → Kernel (HeapVars ω × Nat)) :
    growHeap W f s size =
      if u32 (s.curSize + growSize s size) > s.reservedMaxSize then .error .abort
      else assert (growSize s size ≠ 0 ∧ growSize s size % pageSize = 0) >>= fun _ =>
        if u32 (s.curMaxAddr + growSize s size) > s.reservedMaxAddr then .error .abort
        else addChecked W f s (growSize s size) := rfl

theorem growHeap_adds (hadds : Adds s size) (f : HeapVars ω → Nat → Kernel (HeapVars ω × Nat)) :
    growHeap W f s size = addChecked W f s (growSize s size) := by
  rw [growHeap_eq, if_neg (Nat.not_lt.2 hadds.fits), assert,
    if_pos (decide_eq_true ⟨hadds.pos, hadds.pages⟩), ok_bind, if_neg (Nat.not_lt.2 hadds.below)]

theorem allocBuddy_grows (hsize : Whole size) (hnot : ¬ Served s (orderOf size)) (fuel : Nat) :
    allocBuddy W (fuel + 1) s size =
      growHeap W (allocBuddy W fuel) s size >>= fun t => allocBuddy W fuel t size := by
  have hgrow := (findOrder_gt_iff s _).2 hnot
  unfold orderOf at hgrow
  have hpages : assert (decide (size ≠ 0 ∧ size % pageSize = 0)) = .ok () :=
    if_pos (decide_eq_true hsize.1)
  have hpow : assert (decide (size &&& (size - 1) = 0)) = .ok () :=
    if_pos (decide_eq_true hsize.2)
  rw [allocBuddy, hpages, ok_bind, hpow, ok_bind]
  exact if_pos hgrow

theorem allocBuddy_adds (hadds : Adds s size) (fuel : Nat) :
    allocBuddy W (fuel + 1) s size =
      addChecked W (allocBuddy W fuel) s (growSize s size) >>=
        fun t => allocBuddy W fuel t size := by
  rw [allocBuddy_grows hadds.whole hadds.notServed, growHeap_adds hadds]

theorem allocBuddy_stops (hnot : ¬ Served s (orderOf size)) (hadds : ¬ Adds s size) (fuel : Nat) :
    allocBuddy W (fuel + 1) s size = .error .assertion ∨
      allocBuddy W (fuel + 1) s size = .error .abort := by
  by_cases hsize : Whole size
  · rw [allocBuddy_grows hsize hnot, growHeap_eq]
    by_cases hfits : u32 (s.curSize + growSize s size) ≤ s.reservedMaxSize
    · rw [if_neg (Nat.not_lt.2 hfits), assert]
      by_cases hadd : growSize s size ≠ 0 ∧ growSize s size % pageSize = 0
      · have hbelow : ¬ u32 (s.curMaxAddr + growSize s size) ≤ s.reservedMaxAddr :=
          fun hbelow => hadds ⟨hsize, hnot, hfits, hadd.1, hadd.2, hbelow⟩
        rw [if_pos (decide_eq_true hadd), ok_bind, if_pos (Nat.not_le.1 hbelow)]
        exact .inr rfl
      · rw [if_neg (by simpa using hadd)]
        exact .inl rfl
    · rw [if_pos (Nat.not_le.1 hfits)]
      exact .inr rfl
  · exact .inl (allocBuddy_assertion hsize fuel s)

theorem outcome_stops {E : Fault → Prop} {P : HeapVars ω × Nat → Prop}
    (hstop : E .assertion ∧ E .abort) (hnot : ¬ Served s (orderOf size)) (hadds : ¬ Adds s size)
    (fuel : Nat) : Outcome E P (allocBuddy W (fuel + 1) s size) := by
  rcases allocBuddy_stops (W := W) hnot hadds fuel with he | he
  · rw [he]
    exact hstop.1
  · rw [he]
    exact hstop.2

end Checks

/-- The heap `t` is `s` with `n` bytes more. -/
structure Grown (Good : ω → Prop) (z : Nat) (s t : HeapVars ω) (n : Nat) : Prop where
  good : Good t.world
  served : Served t 0
  ready : Ready z t
  pos : 0 < n
  pages : n % pageSize = 0
  curSize : t.curSize = s.curSize + n
  reserved : t.reservedMaxSize = s.reservedMaxSize

section Growing

variable {W : World ω} {E : Fault → Prop} {Good : ω → Prop} {z : Nat}
  (hE : ∀ e, e ≠ .diverges → E e)
  (hW : W.Keeps E Good)
include hE hW

theorem outcome_vmapPages {f : HeapVars ω → Nat → Kernel (HeapVars ω × Nat)} {s : HeapVars ω}
    (hgood : Good s.world) (va : Nat) (pfn : Word) (count : Nat)
    (hinterval : Outcome E (fun r => r.1.outline = s.outline) (allocSlab W f s s.intervalCache)) :
    Outcome E (fun t => Good t.world ∧ t.outline = { s with world := t.world }.outline)
      (vmapPages W f s va pfn count) := by
  unfold vmapPages
  refine hinterval.bind fun r hr => (outcome_assert hE _).bind fun _ _ => ?_
  have hworld : r.1.world = s.world := congrArg Outline.world hr
  refine (hW.mark _ _ _ (hworld ▸ hgood)).bind fun w₁ h₁ => ?_
  refine (hW.map _ _ _ _ h₁).bind fun w₂ h₂ => .pure ⟨h₂, ?_⟩
  exact congrArg (fun o : Outline ω => { o with world := w₂ }) hr

theorem outcome_addChecked {f : HeapVars ω → Nat → Kernel (HeapVars ω × Nat)} {s : HeapVars ω}
    {size : Nat} (hgood : Good s.world) (hs : Ready z s) (hadds : Adds s size)
    (hinterval : ∀ w, Outcome E (fun r => r.1.outline = { s with world := w }.outline)
      (allocSlab W f { s with world := w } s.intervalCache)) :
    Outcome E (fun t => Grown Good z s t (growSize s size))
      (addChecked W f s (growSize s size)) := by
  have hlt := hs.lt
  have hmax := hs.growSize_le size
  unfold addChecked
  refine (hW.alloc _ hgood).bind fun r hr => ?_
  refine (outcome_vmapPages hE hW hr _ _ _ (hinterval r.1)).bind fun t ht => ?_
  have hpages : growSize s size / pageSize < growSize s size / pageSize + 1 :=
    Nat.lt_succ_self _
  refine (outcome_addBuddies hE false _ t _ _ hadds.pages (by omega) hpages
    fun h => absurd h hadds.pos).bind fun u hu => .pure ?_
  have houtline : u.outline = { s with world := t.world }.outline := hu.1.trans ht.2
  have hworld : u.world = t.world := congrArg Outline.world houtline
  have hcur : u.curSize = s.curSize := congrArg Outline.curSize houtline
  have hres : u.reservedMaxSize = s.reservedMaxSize := congrArg Outline.reservedMaxSize houtline
  have hcache : u.intervalCache = s.intervalCache := congrArg Outline.intervalCache houtline
  have hslab : (u.slabs s.intervalCache).slabSize = (s.slabs s.intervalCache).slabSize :=
    congrFun (congrArg Outline.slabSize houtline) s.intervalCache
  have hsum : u32 (u.curSize + growSize s size) = s.curSize + growSize s size := by
    rw [hcur, u32_of_lt (by omega)]
  exact {
    good := by
      show Good u.world
      rw [hworld]
      exact ht.1
    served := hu.2
    ready := {
      interval := by
        show (u.slabs u.intervalCache).slabSize = z
        rw [hcache, hslab]
        exact hs.interval
      le := by
        show u32 (u.curSize + growSize s size) ≤ u.reservedMaxSize
        rw [hsum, hres]
        exact hmax
      lt := by
        show u.reservedMaxSize < 2 ^ 32
        rw [hres]
        exact hlt }
    pos := Nat.pos_of_ne_zero hadds.pos
    pages := hadds.pages
    curSize := hsum
    reserved := hres }

end Growing

/-- Pages behind the heap change, and get descriptors that belong to no other page. -/
theorem Sound.extend {W : World ω} {s : HeapVars ω} (h : Sound W s) {w : ω} {n : Nat}
    (hold : ∀ p, p * pageSize < s.curMaxAddr ∨ s.curMaxAddr + n ≤ p * pageSize →
      W.descOf w p = W.descOf s.world p)
    (halone : AloneIn W w s.curMaxAddr (s.curMaxAddr + n)) : Sound W { s with world := w } := by
  apply h.remap fun _ hp => hold _ (.inl hp)
  intro p q hlo hhi he
  by_cases hq : q * pageSize < s.curMaxAddr ∨ s.curMaxAddr + n ≤ q * pageSize
  · rw [hold p (.inl hhi), hold q hq] at he
    exact h.alone hlo hhi he
  · -- a new page has the descriptor of no old one
    exact (halone (by omega) (by omega) he.symm).symm

section Region

variable {W : World ω} {Good : ω → Prop} (hW : W.Keeps Stopped Good) (hown : W.OwnPages Good)
  {s : HeapVars ω} (h : Sound W s) (hgood : Good s.world) (hroom : ¬ Starved s)
include hW hown h hgood hroom

theorem Sound.vmapPages {n : Nat} (hn : n % pageSize = 0) {r : ω × Nat}
    (halloc : W.mmAllocPages s.world (n / pageSize) = .ok r) (hgood' : Good r.1) (fuel : Nat) :
    Outcome Stopped
      (fun t => Sound W t ∧ t.outline = { s with world := t.world }.outline ∧
        AloneIn W t.world s.curMaxAddr (s.curMaxAddr + n))
      (Heap.vmapPages W (Heap.allocBuddy W (fuel + 1)) { s with world := r.1 } s.curMaxAddr
        (.num (W.pfnToPa r.1 (.page r.2))) (n / pageSize)) := by
  have hsame : W.descOf r.1 = W.descOf s.world := hown.alloc hgood halloc
  have hsound : Sound W { s with world := r.1 } := by
    apply h.remap fun _ _ => congrFun hsame _
    unfold AloneIn
    rw [hsame]
    exact h.alone
  obtain ⟨t, interval, hinterval, ht⟩ := hsound.allocInterval hroom fuel
  have houtline : t.outline = { s with world := r.1 }.outline := interval_outline hinterval
  have hworld : t.world = r.1 := congrArg Outline.world houtline
  have hmax : t.curMaxAddr = s.curMaxAddr := congrArg Outline.curMaxAddr houtline
  have hassert : Outcome Stopped (fun _ => True) (assert (interval ≠ 0)) := by
    unfold assert
    split
    · trivial
    · exact .inl rfl
  have hpages := Nat.div_mul_cancel (Nat.dvd_of_mod_eq_zero hn)
  unfold Heap.vmapPages
  rw [hinterval, ok_bind]
  refine hassert.bind fun _ _ => ?_
  rw [show (t, interval).1.world = r.1 from hworld]
  refine (hW.mark interval s.curMaxAddr _ hgood').and_eq.bind fun w₁ hmark => ?_
  refine (hW.map _ s.curMaxAddr _ 0x71 hmark.2).and_eq.bind fun w₂ hmap => .pure ?_
  obtain ⟨hold, halone⟩ := hown.region hgood h.aligned halloc hmark.1 hmap.1
  rw [hpages] at hold halone
  refine ⟨ht.extend ?_ (hmax ▸ halone),
    congrArg (fun o : Outline ω => { o with world := w₂ }) houtline, halone⟩
  intro p hp
  rw [hmax] at hp
  rw [hworld, hsame]
  exact hold p hp

theorem Sound.addChecked {size z : Nat} (hs : Ready z s) (hadds : Adds s size) (fuel : Nat) :
    Outcome Stopped (Sound W)
      (Heap.addChecked W (Heap.allocBuddy W (fuel + 1)) s (growSize s size)) := by
  unfold Heap.addChecked
  refine (hW.alloc _ hgood).and_eq.bind fun r hr => ?_
  refine (h.vmapPages hW hown hgood hroom hadds.pages hr.1 hr.2 fuel).bind fun t ht => ?_
  obtain ⟨hsound, houtline, halone⟩ := ht
  have hmax : t.curMaxAddr = s.curMaxAddr := congrArg Outline.curMaxAddr houtline
  have hcur : t.curSize = s.curSize := congrArg Outline.curSize houtline
  have hres : t.reservedMaxSize = s.reservedMaxSize := congrArg Outline.reservedMaxSize houtline
  have hle : t.curSize + growSize s size ≤ t.reservedMaxSize := by
    rw [hcur, hres]
    exact hs.growSize_le size
  obtain ⟨u, hrun, hu⟩ := hsound.addBuddies hadds.pos hadds.pages hle (hmax.symm ▸ halone)
  rw [hrun, ok_bind]
  exact .pure hu

end Region

/-! ## Growth ends -/

theorem Ready.not_starved {s : HeapVars ω} (h : Ready pageSize s) (hserved : Served s 0) :
    ¬ Starved s := by
  intro hs
  have hnot := hs.2
  rw [h.interval] at hnot
  exact hnot hserved

/-- How many growths are left at most. -/
def growthsLeft (s : HeapVars ω) : Nat := (s.reservedMaxSize - s.curSize) / pageSize

theorem Grown.growthsLeft_lt {Good : ω → Prop} {z : Nat} {s t : HeapVars ω} {n : Nat}
    (h : Grown Good z s t n) :
    growthsLeft t < growthsLeft s := by
  have hle := h.ready.le
  rw [h.curSize, h.reserved] at hle
  unfold growthsLeft
  rw [h.curSize, h.reserved]
  have hpos := h.pos
  have hpages := h.pages
  unfold pageSize at *
  omega

/-- What the end of `alloc_buddy` rests on: its calls without growth and its growths with room
for the interval stop with an error of `E` only, and keep `I`. -/
structure GrowthRule (W : World ω) (Good : ω → Prop) (E : Fault → Prop)
    (I : HeapVars ω → Prop) : Prop where
  keeps : W.Keeps E Good
  stop : E .assertion ∧ E .abort
  served : ∀ {s size}, I s → Whole size → Served s (orderOf size) → ∀ fuel,
    Outcome E (fun r => I r.1) (allocBuddy W (fuel + 1) s size)
  region : ∀ {s size}, I s → Good s.world → Ready pageSize s → Adds s size → ¬ Starved s →
    ∀ fuel, Outcome E I (addChecked W (allocBuddy W (fuel + 1)) s (growSize s size))

theorem growthRule_sound {W : World ω} {Good : ω → Prop} (hW : W.Keeps Stopped Good)
    (hown : W.OwnPages Good) : GrowthRule W Good Stopped (Sound W) where
  keeps := hW
  stop := ⟨.inl rfl, .inr (.inl rfl)⟩
  served := by
    intro s size h hsize hserved fuel
    obtain ⟨r, hrun, hr⟩ := h.allocBuddy hserved hsize fuel
    rw [hrun]
    exact hr
  region h hgood hs hadds hroom fuel := h.addChecked hW hown hgood hroom hs hadds fuel

section Ending

variable {W : World ω} {Good : ω → Prop} {E : Fault → Prop} {I : HeapVars ω → Prop}
  (hrule : GrowthRule W Good E I)
include hrule

theorem GrowthRule.outcome_served {s : HeapVars ω} {size : Nat} (hs : I s)
    (hserved : Served s (orderOf size)) (fuel : Nat) :
    Outcome E (fun r => I r.1) (allocBuddy W (fuel + 1) s size) := by
  by_cases hsize : Whole size
  · exact hrule.served hs hsize hserved fuel
  · rw [allocBuddy_assertion hsize fuel s]
    exact hrule.stop.1

/-- With room for the interval of a growth, `alloc_buddy` ends: each growth adds a page at
least, and leaves a block for the interval of the next one. -/
theorem GrowthRule.outcome_allocBuddy (size : Nat) : ∀ (n : Nat) (s : HeapVars ω) (fuel : Nat),
    growthsLeft s = n → I s → Good s.world → Ready pageSize s →
    Served s (orderOf size) ∨ ¬ Starved s → n + 2 ≤ fuel →
    Outcome E (fun r => I r.1) (allocBuddy W fuel s size) := by
  intro n
  induction n using Nat.strong_induction_on with
  | _ n ih =>
    intro s fuel hn hI hgood hs hroom hfuel
    obtain ⟨fuel, rfl⟩ : ∃ k, fuel = k + 2 := ⟨fuel - 2, by omega⟩
    by_cases hserved : Served s (orderOf size)
    · exact hrule.outcome_served hI hserved _
    · have hstarved : ¬ Starved s := hroom.resolve_left hserved
      by_cases hadds : Adds s size
      · rw [allocBuddy_adds hadds]
        refine (hrule.region hI hgood hs hadds hstarved fuel).and_eq.bind fun t ht => ?_
        -- the sizes after the growth, whatever errors there are
        have hgrown := (outcome_addChecked (fun _ _ => trivial)
          (hrule.keeps.mono fun _ _ => trivial) hgood hs hadds fun w =>
          outcome_interval (fun _ _ => trivial) fuel { s with world := w } hstarved).of_ok ht.1
        have hlt := hgrown.growthsLeft_lt
        exact ih (growthsLeft t) (by omega) t (fuel + 1) rfl ht.2 hgrown.good hgrown.ready
          (.inr (hgrown.ready.not_starved hgrown.served)) (by omega)
      · exact outcome_stops hrule.stop hserved hadds _

end Ending

/-! ## Growths within a growth -/

/-- No growth is started inside the growth that `size` asks for: it needs none, or has room for
its interval, or a check or the want of frames stops it or the one inside it. -/
def Room (W : World ω) (s : HeapVars ω) (size : Nat) : Prop :=
  ¬ (Starved s ∧ Adds s size ∧ Adds s pageSize ∧
    ∃ r, W.mmAllocPages s.world (growSize s size / pageSize) = .ok r)

theorem Adds.congr_world {s : HeapVars ω} {size : Nat} {w : ω}
    (h : Adds { s with world := w } size) : Adds s size :=
  ⟨h.whole, h.notServed, h.fits, h.pos, h.pages, h.below⟩

section Nested

variable {W : World ω} {s₀ : HeapVars ω} {size₀ : Nat} (hs : Ready pageSize s₀)
include hs

end Nested

/-- With enough fuel for its recursion, `alloc_buddy` returns a block, or stops with an error
of `E`. -/
def Ends (E : Fault → Prop) (W : World ω) (s : HeapVars ω) (size : Nat) : Prop :=
  ∃ n, ∀ fuel ≥ n, Outcome E (fun _ => True) (allocBuddy W fuel s size)

section Ending

variable {W : World ω} {Good : ω → Prop} {E : Fault → Prop} {I : HeapVars ω → Prop}
  (hrule : GrowthRule W Good E I) {s : HeapVars ω} {size : Nat} (hI : I s) (hgood : Good s.world)
  (hs : Ready pageSize s)
include hrule hI hgood hs

theorem GrowthRule.outcome_starved (hstarved : Starved s) (hroom : Room W s size) (fuel : Nat) :
    Outcome E (fun r => I r.1) (allocBuddy W (fuel + 2) s size) := by
  by_cases hserved : Served s (orderOf size)
  · exact hrule.outcome_served hI hserved _
  · by_cases hadds : Adds s size
    · rw [allocBuddy_adds hadds]
      apply Outcome.bind_stop
      unfold addChecked
      refine (hrule.keeps.alloc _ hgood).and_eq.bind fun r hr => ?_
      have hinner : ¬ Adds { s with world := r.1 } pageSize :=
        fun hinner => hroom ⟨hstarved, hadds, hinner.congr_world, r, hr.1⟩
      have hnot : ¬ Served { s with world := r.1 } (orderOf pageSize) := hs.interval ▸ hstarved.2
      apply Outcome.bind_stop
      unfold vmapPages allocSlab
      dsimp only
      rw [hstarved.1, hs.interval]
      exact (outcome_stops hrule.stop hnot hinner fuel).bind_stop.bind_stop
    · exact outcome_stops hrule.stop hserved hadds _

theorem GrowthRule.outcome_room (hroom : Room W s size) {fuel : Nat}
    (hfuel : growthsLeft s + 2 ≤ fuel) :
    Outcome E (fun r => I r.1) (allocBuddy W fuel s size) := by
  by_cases hstarved : Starved s
  · obtain ⟨fuel, rfl⟩ : ∃ k, fuel = k + 2 := ⟨fuel - 2, by omega⟩
    exact hrule.outcome_starved hI hgood hs hstarved hroom fuel
  · exact hrule.outcome_allocBuddy size (growthsLeft s) s fuel rfl hI hgood hs (.inr hstarved)
      hfuel

end Ending

/-- A sound heap with room for its growth stays sound, and `alloc_buddy` ends in it. -/
theorem Sound.allocRoom {W : World ω} {Good : ω → Prop} (hW : W.Keeps Stopped Good)
    (hown : W.OwnPages Good) {s : HeapVars ω} {size : Nat} (h : Sound W s) (hgood : Good s.world)
    (hs : Ready pageSize s) (hroom : Room W s size) {fuel : Nat}
    (hfuel : growthsLeft s + 2 ≤ fuel) :
    Outcome Stopped (fun r => Sound W r.1) (Heap.allocBuddy W fuel s size) :=
  (growthRule_sound hW hown).outcome_room h hgood hs hroom hfuel

/-! ## Heap states after `init_virt_region` -/

section Reach

variable {W : World ω} {z : Nat}

theorem ready_allocBuddy : ∀ (fuel : Nat) (s : HeapVars ω) (size : Nat), Ready z s →
    Outcome (fun _ => True) (fun r => Ready z r.1) (allocBuddy W fuel s size) := by
  intro fuel
  induction fuel with
  | zero => intro s size _; trivial
  | succ fuel ih =>
    intro s size hs
    by_cases hserved : Served s (orderOf size)
    · exact (outcome_served (fun _ _ => trivial) fuel s size hserved).mono fun r hr =>
        ready_of_outline hr hs
    · by_cases hadds : Adds s size
      · rw [allocBuddy_adds hadds]
        refine (outcome_addChecked (fun _ _ => trivial) (world_keeps_any W) trivial hs hadds
          fun w => outcome_of_ok fun r hr => interval_outline hr).bind fun t ht => ?_
        exact ih t size ht.ready
      · exact outcome_stops ⟨trivial, trivial⟩ hserved hadds fuel

theorem ready_allocSlab (fuel : Nat) {s : HeapVars ω} (hs : Ready z s) (cache : Nat) :
    Outcome (fun _ => True) (fun r => Ready z r.1) (allocSlab W (allocBuddy W fuel) s cache) := by
  unfold allocSlab
  split
  · exact (outcome_allocFromSlab (fun _ _ => trivial) _ _ _).mono fun r hr => ready_of_outline hr hs
  · refine (ready_allocBuddy fuel s _ hs).bind fun r hr => ?_
    exact (outcome_initSlab (fun _ _ => trivial) _ _ _).mono fun t ht => ready_of_outline ht hr

theorem ready_kmalloc (fuel : Nat) {s : HeapVars ω} (hs : Ready z s) (size : Nat) :
    Outcome (fun _ => True) (fun r => Ready z r.1) (kmalloc W fuel s size) := by
  unfold kmalloc
  split
  · refine (outcome_assert (fun _ _ => trivial) _).bind fun _ _ => ?_
    exact ready_allocBuddy fuel s _ hs
  · refine (outcome_assert (fun _ _ => trivial) _).bind fun _ _ => ?_
    refine (outcome_assert (fun _ _ => trivial) _).bind fun _ _ => ?_
    exact ready_allocSlab fuel hs _

theorem mergeUpwards_outline : ∀ (fuel : Nat) (s : HeapVars ω) (cur order : Nat),
    Outcome (fun _ => True) (fun t => t.outline = s.outline) (mergeUpwards W fuel s cur order) := by
  intro fuel
  induction fuel with
  | zero => intro s cur order; trivial
  | succ fuel ih =>
    intro s cur order
    have hmerge : Outcome (fun _ => True) (fun r => r.1.outline = s.outline)
        (resolveMerge W s cur order) := by
      unfold resolveMerge
      dsimp only
      split
      · exact rfl
      · split
        · exact (outcome_joinBlocks (fun _ _ => trivial) _ _ _ _).mono fun _ h => h.1
        · exact (outcome_joinBlocks (fun _ _ => trivial) _ _ _ _).mono fun _ h => h.1
    refine hmerge.bind fun r hr => ?_
    obtain ⟨t, new⟩ := r
    cases new with
    | none => exact .pure hr
    | some new => exact (ih t new (order + 1)).mono fun u hu => hu.trans hr

theorem freeBuddy_outline (s : HeapVars ω) (addr : Nat) :
    Outcome (fun _ => True) (fun t => t.outline = s.outline) (freeBuddy W s addr) := by
  unfold freeBuddy
  refine (outcome_assert (fun _ _ => trivial) _).bind fun _ _ => ?_
  refine (outcome_assert (fun _ _ => trivial) _).bind fun _ _ => ?_
  refine (outcome_assert (fun _ _ => trivial) _).bind fun _ _ => ?_
  refine (outcome_assert (fun _ _ => trivial) _).bind fun _ _ => ?_
  refine (outcome_nat (fun _ _ => trivial) _).bind fun pages _ => ?_
  refine (outcome_assert (fun _ _ => trivial) _).bind fun _ _ => ?_
  refine (outcome_assert (fun _ _ => trivial) _).bind fun _ _ => ?_
  refine (outcome_assert (fun _ _ => trivial) _).bind fun _ _ => ?_
  exact (mergeUpwards_outline _ _ _ _).mono fun t ht => ht.trans (by simp)

theorem outline_unmarkTails : ∀ (n : Nat) (s : HeapVars ω) (va : Nat),
    (unmarkTails W n s va).outline = s.outline := by
  intro n
  induction n with
  | zero => intro s va; rfl
  | succ n ih =>
    intro s va
    rw [unmarkTails, ih]
    rfl

theorem setNextSlab_outline (s : HeapVars ω) (p w : Word) :
    Outcome (fun _ => True) (fun t => t.outline = s.outline) (setNextSlab s p w) := by
  unfold setNextSlab
  split
  · exact rfl
  · exact rfl
  · exact rfl
  · trivial

theorem relinkFull_outline (s : HeapVars ω) (cache i : Nat) :
    (relinkFull s cache i).outline = s.outline := by
  unfold relinkFull
  split
  · cases (s.slabs cache).freeSlab <;> simp
  · rfl

theorem returnSlab_outline (s : HeapVars ω) (cache i addr : Nat) :
    Outcome (fun _ => True) (fun t => t.outline = s.outline)
      (returnSlab W (freeBuddy W) s cache i addr) := by
  unfold returnSlab
  refine (outcome_nat (fun _ _ => trivial) _).bind fun pages _ => ?_
  refine (setNextSlab_outline _ _ _).bind fun t ht => ?_
  refine (outcome_setPrevSlab (fun _ _ => trivial) _ _ _).bind fun u hu => ?_
  have hsame : u.outline = s.outline := by
    rw [hu, ht]
    simp [outline_unmarkTails]
  generalize addr / 2 ^ (log2U32 pages + buddyExponMin) * 2 ^ (log2U32 pages + buddyExponMin) = base
  split
  · refine (outcome_ptr (fun _ _ => trivial) _).bind fun next _ => ?_
    apply Outcome.mono (freeBuddy_outline _ _)
    intro v hv
    exact hv.trans (by simp [hsame])
  · apply Outcome.mono (freeBuddy_outline _ _)
    intro v hv
    exact hv.trans hsame

theorem freeSlab_outline (s : HeapVars ω) (addr : Nat) :
    Outcome (fun _ => True) (fun t => t.outline = s.outline)
      (freeSlab W (freeBuddy W) s addr) := by
  unfold freeSlab
  refine (outcome_assert (fun _ _ => trivial) _).bind fun _ _ => ?_
  apply Outcome.bind (P := fun _ => True) (outcome_of_ok fun _ _ => trivial) fun i _ => ?_
  apply Outcome.bind (P := fun _ => True) (outcome_of_ok fun _ _ => trivial) fun cache _ => ?_
  refine (outcome_assert (fun _ _ => trivial) _).bind fun _ _ => ?_
  refine (outcome_nat (fun _ _ => trivial) _).bind fun freeNode _ => ?_
  dsimp only
  split
  · exact .pure (by simp [relinkFull_outline])
  · exact (returnSlab_outline _ _ _ _).mono fun t ht => ht.trans (by simp [relinkFull_outline])

theorem kfree_outline (s : HeapVars ω) (addr : Nat) :
    Outcome (fun _ => True) (fun t => t.outline = s.outline) (kfree W s addr) := by
  unfold kfree
  split
  · exact freeBuddy_outline _ _
  · exact freeSlab_outline _ _

theorem outline_copyWords : ∀ (n : Nat) (s : HeapVars ω) (dst src : Nat),
    (copyWords n s dst src).outline = s.outline := by
  intro n
  induction n with
  | zero => intro s dst src; rfl
  | succ n ih =>
    intro s dst src
    rw [copyWords, ih]
    rfl

theorem ready_moved {s : HeapVars ω} (hs : Ready z s) (newAddr addr n : Nat)
    {free : HeapVars ω → Nat → Kernel (HeapVars ω)}
    (hfree : ∀ t a, Outcome (fun _ => True) (fun u => u.outline = t.outline) (free t a)) :
    Outcome (fun _ => True) (fun r => Ready z r.1)
      (if newAddr = 0 then pure (s, 0) else do
        let s ← free (copyWords n s newAddr addr) addr
        return (s, newAddr) : Kernel (HeapVars ω × Nat)) := by
  split
  · exact .pure hs
  · refine (hfree _ _).bind fun t ht => .pure ?_
    exact ready_of_outline (ht.trans (outline_copyWords _ _ _ _)) hs

theorem ready_krealloc (fuel : Nat) {s : HeapVars ω} (hs : Ready z s) (addr newSize : Nat) :
    Outcome (fun _ => True) (fun r => Ready z r.1) (krealloc W fuel s addr newSize) := by
  unfold krealloc
  split
  · exact ready_kmalloc fuel hs newSize
  · split
    · apply Outcome.bind (P := fun _ => True) (outcome_of_ok fun _ _ => trivial) fun oldSize _ => ?_
      split
      · exact .pure hs
      · refine (ready_allocBuddy fuel s _ hs).bind fun r hr => ?_
        exact ready_moved hr r.2 addr _ freeBuddy_outline
    · apply Outcome.bind (P := fun _ => True) (outcome_of_ok fun _ _ => trivial) fun i _ => ?_
      apply Outcome.bind (P := fun _ => True) (outcome_of_ok fun _ _ => trivial) fun cache _ => ?_
      dsimp only
      split
      · exact .pure hs
      · split
        · exact .pure hs
        · split
          · refine (ready_allocSlab fuel hs _).bind fun r hr => ?_
            exact ready_moved hr r.2 addr _ freeSlab_outline
          · refine (ready_allocBuddy fuel s _ hs).bind fun r hr => ?_
            exact ready_moved hr r.2 addr _ freeSlab_outline

end Reach

theorem ready_initVirtRegion {W : World ω} {fuel : Nat} {s t : HeapVars ω}
    (hle : s.curSize ≤ s.reservedMaxSize) (hlt : s.reservedMaxSize < 2 ^ 32)
    (h : initVirtRegion W fuel s = .ok t) : Ready pageSize t := by
  unfold initVirtRegion kcreateSlabCache at h
  obtain ⟨⟨u, cache⟩, hcreate, h⟩ := exists_of_bind_eq_ok h
  obtain ⟨-, -, hcreate⟩ := exists_of_bind_eq_ok hcreate
  obtain ⟨⟨v, cache'⟩, hmalloc, hcreate⟩ := exists_of_bind_eq_ok hcreate
  have hv := (ready_kmalloc fuel ⟨rfl, hle, hlt⟩ 20).of_ok hmalloc
  obtain ⟨rfl, rfl⟩ := Prod.mk.inj (Except.ok.inj hcreate)
  obtain rfl := Except.ok.inj h
  refine ⟨?_, hv.le, hv.lt⟩
  show (if cache' = cache' then _ else _ : SlabOrder).slabSize = pageSize
  rw [if_pos rfl]
  decide

/-- The heaps that the kernel can come to after `init_virt_region`: every use of the heap
and every change of the world around it. -/
inductive Reached (W : World ω) : HeapVars ω → Prop where
  | init {fuel s t} : s.curSize ≤ s.reservedMaxSize → s.reservedMaxSize < 2 ^ 32 →
      initVirtRegion W fuel s = .ok t → Reached W t
  | kmalloc {fuel s size t addr} : Reached W s → Heap.kmalloc W fuel s size = .ok (t, addr) →
      Reached W t
  | krealloc {fuel s addr newSize t newAddr} : Reached W s →
      Heap.krealloc W fuel s addr newSize = .ok (t, newAddr) → Reached W t
  | kfree {s addr t} : Reached W s → Heap.kfree W s addr = .ok t → Reached W t
  /-- `kalloc_cache`, which `kvregion_mark` calls -/
  | kallocCache {fuel s t addr} : Reached W s →
      allocSlab W (allocBuddy W fuel) s s.intervalCache = .ok (t, addr) → Reached W t
  | outside {s} (world : ω) : Reached W s → Reached W { s with world }

theorem Reached.ready {W : World ω} {s : HeapVars ω} (h : Reached W s) : Ready pageSize s := by
  induction h with
  | init hle hlt hinit => exact ready_initVirtRegion hle hlt hinit
  | kmalloc _ hcall ih => exact (ready_kmalloc _ ih _).of_ok hcall
  | krealloc _ hcall ih => exact (ready_krealloc _ ih _ _).of_ok hcall
  | kfree _ hcall ih => exact ready_of_outline ((kfree_outline _ _).of_ok hcall) ih
  | kallocCache _ hcall ih => exact ready_of_outline (interval_outline hcall) ih
  | outside world _ ih => exact ⟨ih.interval, ih.le, ih.lt⟩

end X86Kernel.Heap
