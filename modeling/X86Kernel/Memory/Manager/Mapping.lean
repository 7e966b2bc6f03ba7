import X86Kernel.Memory.Manager
import X86Kernel.Memory.Paging.Shortage

/- What the mapping functions do to the page tables.

   What is proved: `vmap_identity` maps its first page to itself exactly if the page number
   is the one that the conversion of a descriptor leaves alone, one for each base of the
   descriptor array (`vmapIdentity_iff`). Without free frames no page table is allocated and
   `paging_map_pages` says so, with the directory as it was, but `mm_alloc_pages` reads
   through the NULL it got (`shortage_reported_iff`). -/
namespace X86Kernel.Manager
open X86Kernel.Frame X86Kernel.Paging X86Kernel.VirtRegion X86Kernel.Heap

/-! ## Pages and their frames -/

theorem present_pageEntry (pa pagingFlags : Nat) :
    present (pageEntry pa (pagingToHwFlags (pagingFlags ||| 1))) = true := by
  have hhw := pagingToHwFlags_lt (pagingFlags ||| 1)
  have h := present_pagingToHwFlags pagingFlags
  unfold present at h ⊢
  rw [decide_eq_true_eq] at h ⊢
  rw [pageEntry, Nat.mod_eq_of_lt (show _ < pageSize from hhw), or_flags _ hhw]
  unfold pageSize
  omega

theorem virtToPhys_of_entry {s : Space} (hs : Recursive s) {va o pa pagingFlags : Nat}
    (hva : va % pageSize = 0) (hlt : va < 0xFFC00000) (ho : o < pageSize) (hpa : pa % pageSize = 0)
    (hentry : s.entry (va / pageSize) = pageEntry pa (pagingToHwFlags (pagingFlags ||| 1))) :
    virtToPhys s (va + o) = .ok (pa + o) := by
  have hhw := pagingToHwFlags_lt (pagingFlags ||| 1)
  have hpages : pa / pageSize * pageSize = pa := Nat.div_mul_cancel (Nat.dvd_of_mod_eq_zero hpa)
  have hvalue : s.entry (va / pageSize) = pa + pagingToHwFlags (pagingFlags ||| 1) := by
    rw [hentry, pageEntry, Nat.mod_eq_of_lt (show _ < pageSize from hhw), or_flags _ hhw, hpages]
  have hpresent : present (s.entry (va / pageSize)) = true := by
    rw [hentry]
    exact present_pageEntry pa pagingFlags
  have hdiv : (va + o) / pageSize = va / pageSize := by unfold pageSize at *; omega
  have hmod : (va + o) % pageSize = o := by unfold pageSize at *; omega
  have hframe : s.entry (va / pageSize) / pageSize = pa / pageSize := by
    rw [hvalue]
    unfold pageSize at *
    omega
  rw [hs.virtToPhys (by unfold pageSize at *; omega), hdiv, hmod, if_pos hpresent, hframe,
    or_flags _ ho, hpages]

/-- `paging_map_pages` with enough page tables: page `i` of the range is mapped to page `i`
of the physical range, which may wrap, and every other page is translated as before. -/
theorem pagingMapPages_translates {σ : Type} {mmAllocPagetable : σ → Kernel (σ × Nat)} {s : Space}
    {a : σ} {pa va count : Nat} (pagingFlags : Nat) (hs : Recursive s) (hpa : pa % pageSize = 0)
    (hlt : pa < 2 ^ 32) (hva : va % pageSize = 0) (hcount : 1 ≤ count)
    (hrange : va + count * pageSize ≤ 0xFFC00000)
    (halloc : Supplies mmAllocPagetable (missingTables s va count) a (InUse s)) :
    ∃ s' a', pagingMapPages mmAllocPagetable s a pa va count pagingFlags = .ok (s', a', true) ∧
      Recursive s' ∧ (∀ i < count, ∀ o < pageSize,
        virtToPhys s' (va + i * pageSize + o) = .ok (u32 (pa + i * pageSize) + o)) ∧
      ∀ x < 0xFFC00000, ¬ (va ≤ x ∧ x < va + count * pageSize) →
        virtToPhys s' x = virtToPhys s x := by
  obtain ⟨haddr, hpage⟩ := page_address hva
  obtain ⟨s', a', hrun, hs', hmaps⟩ := Recursive.mapPhysRange (pagingToHwFlags (pagingFlags ||| 1))
    count count hs (Nat.le_refl _) (getPteIndex_lt va) (by unfold pageSize at hrange; omega) hlt
    halloc
  rw [← haddr] at hrun
  rw [← hpage] at hmaps
  refine ⟨s', a', ?_, hs', fun i hi o ho => ?_, fun x hx hout => ?_⟩
  · have hpos : count > 0 := hcount
    simp [pagingMapPages, assert, hpa, hva, hpos, hrun]
  · have hdiv : (va + i * pageSize) / pageSize = va / pageSize + i := by
      unfold pageSize at *
      omega
    have hentry : s'.entry ((va + i * pageSize) / pageSize) =
        pageEntry (u32 (pa + i * pageSize)) (pagingToHwFlags (pagingFlags ||| 1)) := by
      have h := hmaps (va / pageSize + i) (by unfold pageSize at *; omega)
      rw [if_pos (by omega), Nat.add_sub_cancel_left] at h
      rw [hdiv]
      exact h
    apply virtToPhys_of_entry hs' _ _ ho _ hentry
    · unfold pageSize at *
      omega
    · unfold pageSize at *
      omega
    · unfold u32 pageSize at *
      omega
  · have hentry : s'.entry (x / pageSize) = s.entry (x / pageSize) := by
      rw [hmaps (x / pageSize) (by unfold pageSize; omega), if_neg]
      unfold pageSize at *
      omega
    rw [hs'.virtToPhys (by omega), hs.virtToPhys (by omega), hentry]

/-! ## The heap's part -/

theorem kvregionMark_world {descs fuel va count : Nat} {s t : HeapVars Mem}
    {vregion : VirtRegionType} {name : String}
    (h : kvregionMark descs fuel s va count vregion name = .ok t) :
    t.world.frames = s.world.frames ∧ t.world.space = s.world.space := by
  obtain ⟨⟨u, interval⟩, halloc, hrest⟩ := exists_of_bind_eq_ok h
  obtain ⟨regions, -, hmark⟩ := exists_of_bind_eq_ok hrest
  obtain rfl := Except.ok.inj hmark
  have hworld : u.world = s.world := congrArg Outline.world (interval_outline halloc)
  have hframes : u.world.frames = s.world.frames := by rw [hworld]
  have hspace : u.world.space = s.world.space := by rw [hworld]
  exact ⟨hframes, hspace⟩

theorem vmapPages_eq_ok {descs fuel va count : Nat} {s t : HeapVars Mem} {pfn : Word}
    {vregion : VirtRegionType} (h : vmapPages descs fuel s va pfn vregion count = .ok t) :
    ∃ b, pagingMapPages (mmAllocPagetable descs) s.world.space s.world.frames (pfnToPa descs pfn)
      va count (vflagsToPaging (vregionToVflags vregion)) =
        .ok (t.world.space, t.world.frames, b) := by
  obtain ⟨name, -, hrest⟩ := exists_of_bind_eq_ok h
  obtain ⟨u, hmark, hmap⟩ := exists_of_bind_eq_ok hrest
  obtain ⟨world, hworld, ht⟩ := exists_of_bind_eq_ok hmap
  obtain ⟨⟨space, frames, b⟩, hpages, hw⟩ := exists_of_bind_eq_ok hworld
  obtain rfl := Except.ok.inj ht
  obtain rfl := Except.ok.inj hw
  obtain ⟨hframes, hspace⟩ := kvregionMark_world hmark
  rw [hframes, hspace] at hpages
  exact ⟨b, hpages⟩

/-! ## A small memory -/

/-- A directory in frame 1 with the recursive entry and one table, in frame 2. -/
def tabledSpace (d : Nat) : Space where
  dir := 1
  mem f w :=
    if f = 1 then
      if w = 1023 then 1 * pageSize + pageEntryWriteKernelFlags
      else if w = d then 2 * pageSize + pageEntryWriteKernelFlags
      else 0
    else 0

theorem pde_tabledSpace (d e : Nat) :
    (tabledSpace d).pde e = if e = 1023 then 1 * pageSize + pageEntryWriteKernelFlags
      else if e = d then 2 * pageSize + pageEntryWriteKernelFlags else 0 := by
  simp [Space.pde, tabledSpace]

theorem frameOf_tabledSpace {d e : Nat} (h : present ((tabledSpace d).pde e) = true) :
    (e = 1023 ∧ frameOf ((tabledSpace d).pde e) = 1) ∨
      (e = d ∧ frameOf ((tabledSpace d).pde e) = 2) := by
  rw [pde_tabledSpace] at h ⊢
  by_cases he : e = 1023
  · rw [if_pos he]
    exact .inl ⟨he, frameOf_table 1⟩
  · rw [if_neg he] at h ⊢
    by_cases hed : e = d
    · rw [if_pos hed]
      exact .inr ⟨hed, frameOf_table 2⟩
    · rw [if_neg hed] at h
      cases h

theorem recursive_tabledSpace (d : Nat) : Recursive (tabledSpace d) where
  here := by
    rw [pde_tabledSpace, if_pos rfl]
    exact present_table 1
  self := by
    rw [pde_tabledSpace, if_pos rfl]
    exact frameOf_table 1
  own := by
    intro e e' _ _ he he' hsame
    have hframe := frameOf_tabledSpace he
    have hframe' := frameOf_tabledSpace he'
    omega

/-- A heap without blocks, no regions, and a slab of intervals from 0x20000 on. -/
def slabHeap (frames : Frames) (space : Space) : HeapVars Mem where
  world := ⟨frames, space, ⟨⟨0#32, fun _ => ⟨0#32, 0#32, 0#32⟩, fun _ => ()⟩,
    fun _ => ⟨0, 0, "", .unknown⟩⟩⟩
  desc _ := ⟨⟨false, false, true⟩, .num 1, 100, .num 0, .num 0, .num 0x20000, .num 0⟩
  mem a := if a % 64 = 4 then .num (a + 60) else .num 0
  freeBuddies _ := none
  slabs _ := ⟨2, 64, 4096, some 0⟩
  intervalCache := slabCustomOrder
  minAddr := 0x20000
  curMaxAddr := 0x21000
  reservedMaxAddr := 0x400000
  curSize := 0x1000
  reservedMaxSize := 0x3e0000

/-! ## Identity -/

/-- `vmap_identity` of `count` pages from `pa` on, below the window and with page tables
enough: the pages are mapped to themselves exactly if 1015 times the page number is the
word number of the descriptor array, in 20 bits. -/
theorem vmapIdentity_iff {descs fuel pa count va : Nat} {s t : HeapVars Mem} {type : VirtRegionType}
    (hdescs : descs % 4 = 0) (hlt : descs < 2 ^ 32) (hs : Recursive s.world.space)
    (hpa : pa % pageSize = 0) (hcount : 1 ≤ count) (hrange : pa + count * pageSize ≤ 0xFFC00000)
    (hsupply : Supplies (mmAllocPagetable descs) (missingTables s.world.space pa count)
      s.world.frames (InUse s.world.space))
    (hrun : vmapIdentity descs fuel s pa count type = .ok (t, va)) :
    (∀ i < count, ∀ o < pageSize, virtToPhys t.world.space (pa + i * pageSize + o) =
      .ok (pa + i * pageSize + o)) ↔
      1015 * (pa / pageSize) % 2 ^ 20 = descs / 4 % 2 ^ 20 := by
  have hpa' : pa < 2 ^ 32 := by unfold pageSize at hrange; omega
  obtain ⟨u, hmap, hu⟩ := exists_of_bind_eq_ok hrun
  obtain rfl : u = t := (Prod.mk.inj (Except.ok.inj hu)).1
  obtain ⟨b, hpages⟩ := vmapPages_eq_ok hmap
  have hconv := pfnToPa_identity_iff hdescs hlt hpa hpa'
  have haligned := pageSize_dvd_pfnToPa descs (.num pa)
  have hbound := pfnToPa_lt descs (.num pa)
  refine Iff.trans ?_ hconv
  clear hconv
  -- from here on it does not matter how the address was converted
  generalize pfnToPa descs (.num pa) = converted at hpages haligned hbound ⊢
  obtain ⟨s', a', hexact, -, htranslates, -⟩ := pagingMapPages_translates
    (vflagsToPaging (vregionToVflags type)) hs haligned hbound hpa hcount hrange hsupply
  rw [hexact] at hpages
  obtain ⟨rfl, -⟩ := Prod.mk.inj (Except.ok.inj hpages)
  constructor
  · intro h
    have hsame := (h 0 hcount 0 (by decide)).symm.trans (htranslates 0 hcount 0 (by decide))
    have haddr := Except.ok.inj hsame
    rw [Nat.zero_mul, Nat.add_zero, Nat.add_zero, Nat.add_zero, u32_of_lt hbound] at haddr
    exact haddr.symm
  · intro h i hi o ho
    have hfits : pa + i * pageSize < 2 ^ 32 := by
      unfold pageSize at *
      omega
    rw [htranslates i hi o ho, h, u32_of_lt hfits]

/-- Page 0 with the descriptors at `MM_AREA_VIRT` is the one that is mapped to itself. -/
theorem pageZero_identity :
    ∃ t va, vmapIdentity mmAreaVirt 1 (slabHeap (framesOf [])
        (tabledSpace 0)) 0 1 .acpi = .ok (t, va) ∧
      ∀ i < 1, ∀ o < pageSize, virtToPhys t.world.space (0 + i * pageSize + o) =
        .ok (0 + i * pageSize + o) := by
  obtain ⟨t, hrun⟩ : ∃ t, vmapIdentity mmAreaVirt 1 (slabHeap (framesOf [])
      (tabledSpace 0)) 0 1 .acpi = .ok t :=
    ⟨_, rfl⟩
  refine ⟨t.1, t.2, hrun, (vmapIdentity_iff (by decide) (by decide) (recursive_tabledSpace 0)
    (by decide) (by decide) (by decide) ?_ hrun).mpr (by decide)⟩
  have hmissing : missingTables (tabledSpace 0) 0 1 = 0 := by decide +kernel
  show Supplies _ (missingTables (tabledSpace 0) 0 1) _ _
  rw [hmissing]
  trivial

/-- The page at 0xF0000, where the firmware has its tables, is mapped to 0x5C000000. -/
theorem biosPage_moved :
    ∃ t, vmapIdentity mmAreaVirt 1 (slabHeap (framesOf [])
        (tabledSpace 0)) 0xF0000 1 .acpi = .ok t ∧
      virtToPhys t.1.world.space 0xF0000 = .ok 0x5C000000 ∧
      virtToPhys t.1.world.space 0xF0000 ≠ .ok 0xF0000 := by
  refine ⟨_, rfl, ?_, ?_⟩
  · decide +kernel
  · decide +kernel

/-! ## Without frames -/

theorem mmAllocPagetable_none {a : Frames} (h : frameAllocPhysPages a 1 = .ok (a, none)) :
    mmAllocPagetable mmAreaVirt a = .ok (a, 0) := by
  unfold mmAllocPagetable
  rw [h, ok_bind]
  show Except.ok (a, pfnToPa mmAreaVirt (.num 0)) = _
  rw [pfnToPa_null]

theorem allocator_none {a : Frames} (h : frameAllocPhysPages a 1 = .ok (a, none))
    (inUse : Nat → Prop) :
    Allocator (mmAllocPagetable mmAreaVirt) (fun _ => False)
      fun b used => b = a ∧ ∀ f, used f → inUse f where
  call := by
    intro b used hb
    rw [hb.1, mmAllocPagetable_none h]
    exact .inl ⟨rfl, rfl, hb.2⟩
  less hb himp := ⟨hb.1, fun f hf => hb.2 f (himp f hf)⟩

/-- A page of the range has no table. -/
def NeedsTable (s : Space) (va count : Nat) : Prop :=
  ∃ q, va / pageSize ≤ q ∧ q < va / pageSize + count ∧ present (s.pde (q / 1024)) = false

theorem pagingMapPages_none {a : Frames} (h : frameAllocPhysPages a 1 = .ok (a, none)) {s : Space}
    {pa va count : Nat} (pagingFlags : Nat) (hs : Recursive s) (hpa : pa % pageSize = 0)
    (hlt : pa < 2 ^ 32) (hva : va % pageSize = 0) (hcount : 1 ≤ count)
    (hrange : va + count * pageSize ≤ 0xFFC00000) (hneeds : NeedsTable s va count) :
    ∃ s', pagingMapPages (mmAllocPagetable mmAreaVirt) s a pa va count pagingFlags =
        .ok (s', a, false) ∧ ∀ e < 1024, s'.pde e = s.pde e := by
  have hwalk := (allocator_none h (InUse s)).pagingMapPages pagingFlags hs hpa hlt hva hcount
    hrange ⟨rfl, fun _ hf => hf⟩
  cases hrun : pagingMapPages (mmAllocPagetable mmAreaVirt) s a pa va count pagingFlags with
  | error e => exact absurd hrun fun hrun => hwalk.of_error hrun
  | ok r =>
    obtain ⟨s', b, done⟩ := r
    obtain ⟨-, ⟨rfl, hused⟩, hgrows, ⟨m, hwalked⟩, -⟩ := hwalk.of_ok hrun
    have hpde : ∀ e < 1024, s'.pde e = s.pde e := by
      intro e he
      cases hgrows e with
      | inl hsame => exact hsame
      | inr hnew => exact absurd (hused _ ⟨e, he, hnew.2.1, rfl⟩) hnew.2.2
    cases done with
    | false => exact ⟨s', rfl, hpde⟩
    | true =>
      -- every page of the range has an entry now, also the one without a table
      obtain ⟨q, hq, hq', hmissing⟩ := hneeds
      have hq'' : q < 1023 * 1024 := by unfold pageSize at *; omega
      have hentry := hwalked.maps q hq''
      have hempty : s'.entry q = 0 := by
        rw [Space.entry, hpde _ (by omega), hmissing]
        rfl
      rw [hwalked.complete rfl, if_pos ⟨hq, hq'⟩, hempty] at hentry
      have hpresent := present_pageEntry (u32 (pa + (q - va / pageSize) * 4096)) pagingFlags
      dsimp only at hentry
      rw [← hentry] at hpresent
      cases hpresent

/-- What the callers are told when `frame_alloc_phys_pages` returns NULL for `n` pages. -/
structure ShortageReported (a : Frames) (n : Nat) : Prop where
  pages : mmAllocPages a n = .ok (a, none)
  pagetable : frameAllocPhysPages a 1 = .ok (a, none) → mmAllocPagetable mmAreaVirt a = .ok (a, 0)
  mapping : frameAllocPhysPages a 1 = .ok (a, none) → ∀ {s : Space} {pa va count : Nat}
    (pagingFlags : Nat), Recursive s → pa % pageSize = 0 → pa < 2 ^ 32 → va % pageSize = 0 →
    1 ≤ count → va + count * pageSize ≤ 0xFFC00000 → NeedsTable s va count →
    ∃ s', pagingMapPages (mmAllocPagetable mmAreaVirt) s a pa va count pagingFlags =
        .ok (s', a, false) ∧ ∀ e < 1024, s'.pde e = s.pde e

/-- When `frame_alloc_phys_pages` returns NULL for `n` pages, this is reported all the way up
exactly if no page was asked for: `mm_alloc_pages` goes over the pages it did not get. -/
theorem shortage_reported_iff {a a' : Frames} {n : Nat}
    (h : frameAllocPhysPages a n = .ok (a', none)) : ShortageReported a n ↔ n = 0 := by
  obtain rfl := frameAllocPhysPages_none h
  have hpages : mmAllocPages a' n = if n = 0 then .ok (a', none) else .error .nullDeref := by
    unfold mmAllocPages
    rw [h, ok_bind]
    rfl
  constructor
  · intro hreported
    have hreturns := hreported.pages
    rw [hpages] at hreturns
    by_contra hn
    rw [if_neg hn] at hreturns
    cases hreturns
  · intro hn
    refine ⟨?_, mmAllocPagetable_none, fun h1 => pagingMapPages_none h1⟩
    rw [hpages, if_pos hn]

/-- A request for no page, with all four frames in use. -/
theorem noFrames_nothing_asked :
    frameAllocPhysPages (framesOf [.used, .used, .used, .used]) 0 =
        .ok (framesOf [.used, .used, .used, .used], none) ∧
      ShortageReported (framesOf [.used, .used, .used, .used]) 0 :=
  ⟨rfl, (shortage_reported_iff (show frameAllocPhysPages (framesOf [.used, .used, .used, .used])
    0 = .ok (framesOf [.used, .used, .used, .used], none) from rfl)).mpr rfl⟩

/-- A request for one page, with all four frames in use: the loop reads through NULL. -/
theorem allUsed_one_nullDeref :
    frameAllocPhysPages (framesOf [.used, .used, .used, .used]) 1 =
        .ok (framesOf [.used, .used, .used, .used], none) ∧
      mmAllocPages (framesOf [.used, .used, .used, .used]) 1 = .error .nullDeref ∧
      ¬ ShortageReported (framesOf [.used, .used, .used, .used]) 1 := by
  refine ⟨rfl, rfl, fun h => ?_⟩
  have hreturns := h.pages
  cases hreturns

end X86Kernel.Manager
