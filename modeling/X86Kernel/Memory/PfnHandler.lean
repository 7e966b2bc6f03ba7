import X86Kernel.Memory.FrameAlloc.Intact
import X86Kernel.Memory.BitmapAlloc

/- The first types of the page descriptors (`kernel/memory/core/pfn_handler.c`): every
   descriptor is marked as reserved, then the free regions of the memory map as unused, then
   its reserved regions as reserved again.

   What is proved: after these passes a frame is unused exactly if it is declared free and in
   no reserved region (`markMemoryMap_unused`), on maps below 2 GiB. This is also what the
   bits of the boot-time allocator say, so the two see the same free memory, unless one of
   the two passes stops (`same_free_memory_iff`): `reset_pages_allocated` leaves its array
   with more than 256 MiB, and the first `mark_range` gets an empty range when there is just
   one descriptor.

   The later passes of `init_phys_pages` (kernel image, descriptors, page tables) are not in
   this module.

   Correspondence (C ↔ Lean):
     `mark_range`          ↔ `markRange`
     `mark_range_usable`   ↔ `markRangeUsable`
     `mark_range_reserved` ↔ `markRangeReserved`
     `init_pfn_descriptors` ↔ `zeroed` (the descriptors after `memset`)
     `init_phys_pages`     ↔ `markMemoryMap` (its first three passes) -/
namespace X86Kernel.Frame
open X86Kernel.Boot X86Kernel.BitmapAlloc

def pageflagReserved : Nat := 4

/-- `mark_range`; the end is exclusive, its name in the source notwithstanding. -/
def markRange (s : Frames) (startPa inclusiveEndPa : Nat) (type : PageType)
    (refCount flags : Nat) : Kernel (Frames × Option Nat) := do
  assert (decide (startPa < inclusiveEndPa))
  let start := startPa / pageSize
  let stop := sub32 inclusiveEndPa 1 / pageSize
  if s.count ≤ start then return (s, none)
  else
    let stop := if s.count ≤ stop then s.count - 1 else stop
    let s ← pfnMarkPages type flags refCount (stop + 1 - start) s start
    return (s, some start)

def markRangeUsable (startPa endPa : Nat) (s : Frames) : Kernel Frames := do
  let (s, _) ← markRange s startPa endPa .unused 0 0
  return s

def markRangeReserved (startPa endPa : Nat) (s : Frames) : Kernel Frames := do
  let (s, _) ← markRange s startPa endPa .reserved 0 pageflagReserved
  return s

/-- `count` descriptors after `memset(pfn_data.descs, 0, …)`. -/
def zeroed (count : Nat) : Frames := ⟨count, fun _ => ⟨0, 0, .none, none, none, 0⟩, none⟩

/-- The first three passes of `init_phys_pages`. -/
def markMemoryMap (mmap : List MmapEntry) (s : Frames) : Kernel Frames := do
  let (s, _) ← markRange s 0 (u32 (sub32 s.count 1 * pageSize)) .reserved 1 0
  let s ← bootForeachFreePageRegion markRangeUsable mmap s
  bootForeachReservedRegion markRangeReserved mmap s

/-! ## The passes -/

theorem markRange_ok (s : Frames) {r : Nat × Nat} (hr : Aligned r) (hlt : r.1 < r.2)
    (hend : r.2 < 2 ^ 32) (type : PageType) (refCount flags : Nat) :
    ∃ s' p, markRange s r.1 r.2 type refCount flags = .ok (s', p) ∧ s'.count = s.count ∧
      ∀ f < s.count, (InRegion r f → (s'.desc f).type = type) ∧
        (¬ InRegion r f → (s'.desc f).type = (s.desc f).type) := by
  have hsub : sub32 r.2 1 = r.2 - 1 := sub32_of_le hend (by omega)
  have hpages : ∀ f, InRegion r f ↔ r.1 / pageSize ≤ f ∧ f ≤ (r.2 - 1) / pageSize := by
    intro f
    obtain ⟨h₁, h₂, -⟩ := hr
    unfold InRegion pageSize at *
    omega
  have hassert : assert (decide (r.1 < r.2)) = .ok () := by
    rw [decide_eq_true hlt]
    rfl
  have hle : r.1 / pageSize ≤ (r.2 - 1) / pageSize := Nat.div_le_div_right (by omega)
  rw [markRange, hassert, ok_bind, hsub]
  simp only [hpages]
  generalize r.1 / pageSize = i at hle ⊢
  generalize (r.2 - 1) / pageSize = j at hle ⊢
  by_cases hstart : s.count ≤ i
  · refine ⟨s, none, if_pos hstart, rfl, fun f hf => ⟨fun hin => ?_, fun _ => rfl⟩⟩
    omega
  · rw [if_neg hstart]
    -- the last descriptor of the region, or of the array
    generalize hstop : (if s.count ≤ j then s.count - 1 else j) = stop
    have hbound : i + (stop + 1 - i) ≤ s.count := by
      rw [← hstop]
      split <;> omega
    refine ⟨s.onRange i (stop + 1 - i) fun d => { d with type, flags, refCount }, some i, ?_, rfl,
      fun f hf => ?_⟩
    · rw [pfnMarkPages_ok _ _ _ _ _ _ hbound]
      rfl
    · have hiff : f ≤ stop ↔ f ≤ j := by
        rw [← hstop]
        split <;> omega
      rw [onRange_desc]
      constructor
      · intro hin
        rw [if_pos (by omega)]
      · intro hout
        rw [if_neg (by omega)]

theorem markRegions_ok {type : PageType} {mark : Nat → Nat → Frames → Kernel Frames}
    (hmark : ∀ (s : Frames) (r : Nat × Nat), Aligned r → r.1 < r.2 → r.2 < 2 ^ 32 →
      ∃ s', mark r.1 r.2 s = .ok s' ∧ s'.count = s.count ∧
        ∀ f < s.count, (InRegion r f → (s'.desc f).type = type) ∧
          (¬ InRegion r f → (s'.desc f).type = (s.desc f).type)) :
    ∀ (rs : List (Nat × Nat)) (s : Frames), (∀ r ∈ rs, Aligned r ∧ r.1 < r.2 ∧ r.2 < 2 ^ 32) →
      ∃ s', rs.foldlM (fun s r => mark r.1 r.2 s) s = .ok s' ∧ s'.count = s.count ∧
        ∀ f < s.count, ((∃ r ∈ rs, InRegion r f) → (s'.desc f).type = type) ∧
          ((∀ r ∈ rs, ¬ InRegion r f) → (s'.desc f).type = (s.desc f).type) := by
  apply Lib.foldlM_ok (C := fun r => Aligned r ∧ r.1 < r.2 ∧ r.2 < 2 ^ 32)
    (R := fun (s : Frames) rs (s' : Frames) => s'.count = s.count ∧
      ∀ f < s.count, ((∃ r ∈ rs, InRegion r f) → (s'.desc f).type = type) ∧
        ((∀ r ∈ rs, ¬ InRegion r f) → (s'.desc f).type = (s.desc f).type))
  · intro s
    refine ⟨rfl, fun f _ => ⟨fun h => ?_, fun _ => rfl⟩⟩
    obtain ⟨r, hr, -⟩ := h
    cases hr
  · rintro s r rs ⟨hal, hlt, hend⟩
    obtain ⟨s₁, hs₁, hc₁, ht₁⟩ := hmark s r hal hlt hend
    refine ⟨s₁, hs₁, fun s₂ hrest => ?_⟩
    obtain ⟨hc₂, ht₂⟩ := hrest
    refine ⟨hc₂.trans hc₁, fun f hf => ?_⟩
    obtain ⟨hin₁, hout₁⟩ := ht₁ f hf
    obtain ⟨hin₂, hout₂⟩ := ht₂ f (hc₁ ▸ hf)
    constructor
    · intro h
      by_cases hlater : ∃ q ∈ rs, InRegion q f
      · exact hin₂ hlater
      · rw [hout₂ fun q hq hin => hlater ⟨q, hq, hin⟩]
        apply hin₁
        rw [List.exists_mem_cons_iff] at h
        exact h.resolve_right hlater
    · intro h
      rw [List.forall_mem_cons] at h
      rw [hout₂ h.2, hout₁ h.1]

theorem markRangeUsable_ok (s : Frames) (r : Nat × Nat) (hr : Aligned r) (hlt : r.1 < r.2)
    (hend : r.2 < 2 ^ 32) : ∃ s', markRangeUsable r.1 r.2 s = .ok s' ∧ s'.count = s.count ∧
      ∀ f < s.count, (InRegion r f → (s'.desc f).type = .unused) ∧
        (¬ InRegion r f → (s'.desc f).type = (s.desc f).type) := by
  obtain ⟨s', p, hs', h⟩ := markRange_ok s hr hlt hend .unused 0 0
  refine ⟨s', ?_, h⟩
  rw [markRangeUsable, hs']
  rfl

theorem markRangeReserved_ok (s : Frames) (r : Nat × Nat) (hr : Aligned r) (hlt : r.1 < r.2)
    (hend : r.2 < 2 ^ 32) : ∃ s', markRangeReserved r.1 r.2 s = .ok s' ∧ s'.count = s.count ∧
      ∀ f < s.count, (InRegion r f → (s'.desc f).type = .reserved) ∧
        (¬ InRegion r f → (s'.desc f).type = (s.desc f).type) := by
  obtain ⟨s', p, hs', h⟩ := markRange_ok s hr hlt hend .reserved 0 pageflagReserved
  refine ⟨s', ?_, h⟩
  rw [markRangeReserved, hs']
  rfl

theorem freeRegions_ok (mmap : List MmapEntry) :
    ∀ r ∈ mmap.filterMap MmapEntry.freeRegion, Aligned r ∧ r.1 < r.2 ∧ r.2 < 2 ^ 32 := by
  intro r hr
  obtain ⟨e, he, hr⟩ := List.mem_filterMap.1 hr
  unfold MmapEntry.freeRegion at hr
  split at hr
  · rename_i hfree
    obtain rfl := Option.some.inj hr
    refine ⟨⟨dvd_roundPageUp _, dvd_roundPageDown _, Nat.le_of_lt hfree.2⟩, hfree.2, ?_⟩
    exact lt_of_le_of_lt (roundPageDown_le _) (endLow_lt e)
  · cases hr

theorem reservedRegions_ok {mmap : List MmapEntry}
    (hinside : ∀ r ∈ mmap.filterMap MmapEntry.reservedRegion ++ [((0 : Nat), stor1MiB)],
      Aligned r ∧ r.2 ≤ 0x80000000) :
    ∀ r ∈ mmap.filterMap MmapEntry.reservedRegion ++ [((0 : Nat), stor1MiB)],
      Aligned r ∧ r.1 < r.2 ∧ r.2 < 2 ^ 32 := by
  intro r hr
  obtain ⟨hal, hend⟩ := hinside r hr
  refine ⟨hal, ?_, by omega⟩
  rw [List.mem_append] at hr
  cases hr with
  | inl hr =>
    obtain ⟨e, he, hr⟩ := List.mem_filterMap.1 hr
    unfold MmapEntry.reservedRegion at hr
    split at hr
    · rename_i hres
      obtain rfl := Option.some.inj hr
      exact hres.2
    · cases hr
  | inr hr =>
    obtain rfl := List.mem_singleton.1 hr
    decide

/-- The first pass: all descriptors but the last one become reserved, and none is unused. -/
theorem markAll_ok {count : Nat} (hcount : count ≠ 1) (hle : count ≤ 2 ^ 20) :
    ∃ s p, markRange (zeroed count) 0
    (u32 (sub32 (zeroed count).count 1 * pageSize)) .reserved 1 0 =
      .ok (s, p) ∧ s.count = count ∧ ∀ f < count, (s.desc f).type ≠ .unused := by
  have hend : pageSize ∣ u32 (sub32 count 1 * pageSize) ∧ 0 < u32 (sub32 count 1 * pageSize) := by
    unfold u32 sub32 pageSize
    omega
  have hlt : u32 (sub32 count 1 * pageSize) < 2 ^ 32 := Nat.mod_lt _ (by decide)
  show ∃ s p, markRange (zeroed count) 0 (u32 (sub32 count 1 * pageSize)) .reserved 1 0 = _ ∧ _
  generalize u32 (sub32 count 1 * pageSize) = stop at hend hlt
  have hal : Aligned (0, stop) := ⟨Nat.dvd_zero pageSize, hend.1, Nat.zero_le stop⟩
  obtain ⟨s, p, hs, hc, ht⟩ := markRange_ok (zeroed count) hal hend.2 hlt .reserved 1 0
  refine ⟨s, p, hs, hc, fun f hf => ?_⟩
  by_cases hin : InRegion (0, stop) f
  · rw [(ht f hf).1 hin]
    decide
  · rw [(ht f hf).2 hin]
    show PageType.none ≠ .unused
    decide

/-- The unused frames after the three passes: those that are declared free and in no
reserved region. -/
theorem markMemoryMap_unused {mmap : List MmapEntry}
    (hinside : ∀ r ∈ mmap.filterMap MmapEntry.reservedRegion ++ [((0 : Nat), stor1MiB)],
      Aligned r ∧ r.2 ≤ 0x80000000) {count : Nat} (hcount : count ≠ 1) (hle : count ≤ 2 ^ 20) :
    ∃ s, markMemoryMap mmap (zeroed count) = .ok s ∧ ∀ f, s.Unused f ↔
      f < count ∧ (∃ r ∈ mmap.filterMap MmapEntry.freeRegion, InRegion r f) ∧
      ∀ r ∈ mmap.filterMap MmapEntry.reservedRegion ++ [((0 : Nat), stor1MiB)],
        ¬ InRegion r f := by
  obtain ⟨s₀, p, hs₀, hc₀, ht₀⟩ := markAll_ok hcount hle
  obtain ⟨s₁, hs₁, hc₁, ht₁⟩ := markRegions_ok markRangeUsable_ok _ s₀ (freeRegions_ok mmap)
  obtain ⟨s₂, hs₂, hc₂, ht₂⟩ := markRegions_ok markRangeReserved_ok _ s₁ (reservedRegions_ok hinside)
  refine ⟨s₂, ?_, fun f => ?_⟩
  · rw [markMemoryMap, hs₀]
    simp only [ok_bind]
    rw [bootForeachFreePageRegion_eq, hs₁, ok_bind, bootForeachReservedRegion_eq, hs₂]
  · unfold Frames.Unused
    rw [hc₂, hc₁, hc₀]
    apply and_congr_right
    intro hf
    have ht₀ := ht₀ f hf
    obtain ⟨hfree, hother⟩ := ht₁ f (hc₀ ▸ hf)
    obtain ⟨hres, hkeep⟩ := ht₂ f (hc₁ ▸ hc₀ ▸ hf)
    by_cases hin : ∃ r ∈ mmap.filterMap MmapEntry.reservedRegion ++ [((0 : Nat), stor1MiB)],
        InRegion r f
    · obtain ⟨r, hr, hrf⟩ := hin
      rw [hres ⟨r, hr, hrf⟩]
      constructor
      · intro h
        cases h
      · intro h
        exact absurd hrf (h.2 r hr)
    · have hnone : ∀ r ∈ mmap.filterMap MmapEntry.reservedRegion ++ [((0 : Nat), stor1MiB)],
          ¬ InRegion r f := fun r hr hrf => hin ⟨r, hr, hrf⟩
      rw [hkeep hnone]
      refine ⟨fun h => ⟨?_, hnone⟩, fun h => hfree h.1⟩
      by_contra hnot
      rw [hother fun r hr hrf => hnot ⟨r, hr, hrf⟩] at h
      exact ht₀ h

theorem markMemoryMap_single (mmap : List MmapEntry) :
    markMemoryMap mmap (zeroed 1) = .error .assertion := by
  have hempty : u32 (sub32 (zeroed 1).count 1 * pageSize) = 0 := by
    show u32 (sub32 1 1 * pageSize) = 0
    decide
  rw [markMemoryMap, hempty]
  rfl

/-! ## The two allocators -/

/-- Both initialisations get through their passes over the map, and a frame from 1 MiB on is
free in the bitmap exactly if its descriptor is unused. -/
def SameFreeMemory (mmap : List MmapEntry) : Prop :=
  ∃ b s, initBitmap mmap Bitmap.zero = .ok b ∧
    markMemoryMap mmap (zeroed (getMaxMemory mmap / pageSize)) = .ok s ∧
    ∀ f, stor1MiB ≤ f * pageSize → (b.Free f ↔ s.Unused f)

/-- A page of the one walk is in a region of the other and below `max_memory`, unless the end
of its entry is rounded up to 0. -/
theorem freeRegion_of_page {mmap : List MmapEntry} {e : MmapEntry} (he : e ∈ mmap) {pa : Nat}
    (hpa : pa ∈ e.freePages) (hend : e.endLow ≤ roundPageUp e.endLow) :
    pa / pageSize < getMaxMemory mmap / pageSize ∧
      ∃ r ∈ mmap.filterMap MmapEntry.freeRegion, InRegion r (pa / pageSize) := by
  obtain ⟨hav, hpa⟩ := window_of_freePages hpa
  rw [mem_window] at hpa
  have heq : pa / pageSize * pageSize = pa := Nat.div_mul_cancel hpa.1
  have hlow : roundPageUp e.addrLow.toNat < roundPageDown e.endLow := by omega
  refine ⟨?_, (_, _), List.mem_filterMap.2 ⟨e, he, if_pos ⟨hav, hlow⟩⟩, ?_⟩
  · have hdown := roundPageDown_le e.endLow
    have hmax := le_getMaxMemory he
    obtain ⟨k, hk⟩ := dvd_roundPageDown e.endLow
    rw [Nat.lt_div_iff_mul_lt (show 0 < pageSize by decide), heq]
    unfold pageSize at *
    omega
  · rw [InRegion, heq]
    exact hpa.2

/-- From 1 MiB on the two walks declare the same pages free; they are below `max_memory`. -/
theorem freePages_iff {mmap : List MmapEntry} (hbelow : Below mmap 0x80000000) {f : Nat}
    (hf : stor1MiB ≤ f * pageSize) :
    (∃ pa ∈ mmap.flatMap MmapEntry.freePages, f = pa / pageSize) ↔
      f < getMaxMemory mmap / pageSize ∧ ∃ r ∈ mmap.filterMap MmapEntry.freeRegion, InRegion r f :=
      by
  have hpos : 0 < pageSize := by decide
  constructor
  · intro h
    obtain ⟨pa, hpa, rfl⟩ := h
    obtain ⟨e, he, hpa⟩ := List.mem_flatMap.1 hpa
    exact freeRegion_of_page he hpa (hbelow.roundPageUp_endLow he).1
  · intro h
    obtain ⟨-, r, hr, hrf⟩ := h
    obtain ⟨e, he, hr⟩ := List.mem_filterMap.1 hr
    unfold MmapEntry.freeRegion at hr
    split at hr
    · rename_i hfree
      obtain rfl := Option.some.inj hr
      refine ⟨f * pageSize, List.mem_flatMap.2 ⟨e, he, ?_⟩, (Nat.mul_div_cancel f hpos).symm⟩
      rw [MmapEntry.freePages, if_pos hfree.1,
        mem_pagesOf (dvd_max_stor1MiB _) (dvd_roundPageDown _)]
      exact ⟨Nat.dvd_mul_left _ _, Nat.max_le.2 ⟨hrf.1, hf⟩, hrf.2⟩
    · cases hr

/-- On a map below 2 GiB the two allocators start with the same free memory, exactly if
`reset_pages_allocated` stays in its array and there is not just one descriptor. -/
theorem same_free_memory_iff {mmap : List MmapEntry} (hbelow : Below mmap 0x80000000) :
    SameFreeMemory mmap ↔
      getMaxMemory mmap / pageSize ≤ pagesArrSize ∧ getMaxMemory mmap / pageSize ≠ 1 := by
  constructor
  · intro h
    obtain ⟨b, s, hb, hs, -⟩ := h
    constructor
    · by_contra hgt
      rw [initBitmap, resetPagesAllocated_outOfBounds _ (Nat.not_le.1 hgt)] at hb
      cases hb
    · intro hone
      rw [hone, markMemoryMap_single] at hs
      cases hs
  · intro h
    have hle : getMaxMemory mmap / pageSize ≤ 2 ^ 20 := by
      have := getMaxMemory_lt mmap
      unfold pageSize
      omega
    obtain ⟨b, hb, hbits⟩ := initBitmap_bits hbelow h.1
    obtain ⟨s, hs, hunused⟩ := markMemoryMap_unused hbelow.reservedRegions h.2 hle
    refine ⟨b, s, hb, hs, fun f hf => ?_⟩
    rw [hbits, hunused, freePages_iff hbelow hf, and_assoc]

/-- 3 MiB from 1 MiB on, with a reserved page at its end. -/
def smallMap : List MmapEntry :=
  [⟨0x100000#32, 0#32, 0x300000#32, 0#32, 1#32⟩, ⟨0x3FF800#32, 0#32, 0x800#32, 0#32, 2#32⟩]

theorem smallMap_same : Below smallMap 0x80000000 ∧ SameFreeMemory smallMap := by
  have hbelow : Below smallMap 0x80000000 := by
    unfold Below
    decide
  exact ⟨hbelow, (same_free_memory_iff hbelow).2 (by decide +kernel)⟩

/-- 511 MiB from 1 MiB on. -/
def halfGiB : List MmapEntry := [⟨0x100000#32, 0#32, 0x1FF00000#32, 0#32, 1#32⟩]

/-- The array of the bitmap is left before its first bit is set. -/
theorem halfGiB_outOfBounds : Below halfGiB 0x80000000 ∧
    initBitmap halfGiB Bitmap.zero = .error .outOfBounds ∧ ¬ SameFreeMemory halfGiB := by
  have hfault : initBitmap halfGiB Bitmap.zero = .error .outOfBounds := by
    rw [initBitmap, resetPagesAllocated_outOfBounds _ (by decide +kernel)]
    rfl
  refine ⟨?_, hfault, fun h => ?_⟩
  · unfold Below
    decide
  · obtain ⟨b, s, hb, -⟩ := h
    rw [hfault] at hb
    cases hb

end X86Kernel.Frame
