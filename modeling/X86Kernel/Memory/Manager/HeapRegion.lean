import X86Kernel.Memory.Manager.Release

/- The heap grows by pages of its own.

   `add_heap_region` takes frames with `mm_alloc_pages` and has `vmap_pages` map them. What it
   passes is `pfn_to_pa(page)`, the address of the first frame, for the descriptor that
   `vmap_pages` expects, so that the conversion is applied twice.

   What is proved: with the descriptors at `MM_AREA_VIRT` the new pages of the heap are mapped
   to the frames that were taken exactly if the first of these is frame 0
   (`addHeapRegion_mapped_iff`). Pages outside the new region are translated as before in
   any case. -/
namespace X86Kernel.Manager
open X86Kernel.Frame X86Kernel.Paging X86Kernel.Heap

/-- The new region is mapped to the run of frames from `p` on, and nothing else is changed. -/
structure GrowthMapped (s t : HeapVars Mem) (addSize p : Nat) : Prop where
  pages : ∀ i < addSize / pageSize, ∀ o < pageSize,
    virtToPhys t.world.space (s.curMaxAddr + i * pageSize + o) = .ok ((p + i) * pageSize + o)
  others : ∀ x < 0xFFC00000, ¬ (s.curMaxAddr ≤ x ∧ x < s.curMaxAddr + addSize) →
    virtToPhys t.world.space x = virtToPhys s.world.space x

theorem heapVmapPages_space {fuel va count : Nat} {s t : HeapVars Mem} {pfn : Word}
    (h : Heap.vmapPages (memWorld mmAreaVirt) (allocBuddy (memWorld mmAreaVirt) fuel) s va pfn
      count = .ok t) :
    ∃ a b, pagingMapPages (mmAllocPagetable mmAreaVirt) s.world.space s.world.frames
      (pfnToPa mmAreaVirt pfn) va count 0x71 = .ok (t.world.space, a, b) := by
  obtain ⟨⟨s₁, interval⟩, hinterval, hrest⟩ := exists_of_bind_eq_ok h
  obtain ⟨_, -, hrest'⟩ := exists_of_bind_eq_ok hrest
  obtain ⟨w₁, hmark, hmap⟩ := exists_of_bind_eq_ok hrest'
  obtain ⟨w₂, hpages, hreturn⟩ := exists_of_bind_eq_ok hmap
  obtain rfl := Except.ok.inj hreturn
  obtain ⟨regions, -, hw₁⟩ := exists_of_bind_eq_ok hmark
  obtain rfl := Except.ok.inj hw₁
  obtain ⟨⟨space, frames, b⟩, hmapped, hw₂⟩ := exists_of_bind_eq_ok hpages
  obtain rfl := Except.ok.inj hw₂
  have hworld : s₁.world = s.world := congrArg Outline.world (interval_outline hinterval)
  rw [hworld] at hmapped
  exact ⟨frames, b, hmapped⟩

theorem addHeapRegion_space {fuel addSize p : Nat} {s t : HeapVars Mem} {frames : Frames}
    (hsize : addSize < 2 ^ 32)
    (hpages : mmAllocPages s.world.frames (addSize / pageSize) = .ok (frames, some p))
    (hrun : addHeapRegion (memWorld mmAreaVirt) (allocBuddy (memWorld mmAreaVirt) fuel) s addSize =
      .ok t) :
    addSize ≠ 0 ∧ addSize % pageSize = 0 ∧ ∃ a b, pagingMapPages (mmAllocPagetable mmAreaVirt)
      s.world.space frames (pfnToPa mmAreaVirt (.num (pfnToPa mmAreaVirt (.page p))))
      s.curMaxAddr (addSize / pageSize) 0x71 = .ok (t.world.space, a, b) := by
  obtain ⟨_, hassert, hrest⟩ := exists_of_bind_eq_ok hrun
  have hadd : addSize ≠ 0 ∧ addSize % pageSize = 0 := by
    simpa using of_assert_eq_ok hassert
  refine ⟨hadd.1, hadd.2, ?_⟩
  split at hrest
  · cases hrest
  · obtain ⟨⟨world, page⟩, halloc, hmap⟩ := exists_of_bind_eq_ok hrest
    have htaken : (memWorld mmAreaVirt).mmAllocPages s.world (addSize / pageSize) =
        .ok ({ s.world with frames }, p) := by
      simp only [memWorld, hpages, ok_bind]
      rfl
    rw [htaken] at halloc
    obtain ⟨rfl, rfl⟩ := Prod.mk.inj (Except.ok.inj halloc)
    obtain ⟨u, hvmap, hbuddies⟩ := exists_of_bind_eq_ok hmap
    obtain ⟨v, hadded, hreturn⟩ := exists_of_bind_eq_ok hbuddies
    obtain rfl := Except.ok.inj hreturn
    obtain ⟨a, b, hmapped⟩ := heapVmapPages_space hvmap
    have houtline := ((outcome_addBuddies (E := fun _ => True) (fun _ _ => trivial) false _ u
      u.curMaxAddr addSize hadd.2 hsize (Nat.lt_succ_self _)
      fun h => absurd h hadd.1).of_ok hadded).1
    have hworld : v.world = u.world := congrArg Outline.world houtline
    refine ⟨a, b, ?_⟩
    rw [hworld]
    exact hmapped

/-- The address of frame `p`, converted as if it were a descriptor, is the address of frame
`p` for frame 0 only. -/
theorem converted_twice_iff {p : Nat} (hp : p < 2 ^ 20) :
    pfnToPa mmAreaVirt (.num (pfnToPa mmAreaVirt (.page p))) = p * pageSize ↔ p = 0 := by
  have hpage : pfnToPa mmAreaVirt (.page p) = p * pageSize := by
    rw [pfnToPa, Nat.mul_comm]
    apply u32_of_lt
    unfold pageSize
    omega
  have hiff := pfnToPa_identity_iff (show mmAreaVirt % 4 = 0 by decide) (by decide)
    (Nat.mul_mod_left p pageSize) (show p * pageSize < 2 ^ 32 by unfold pageSize; omega)
  rw [hpage, hiff, Nat.mul_div_cancel _ (by decide : 0 < pageSize),
    show mmAreaVirt / 4 % 2 ^ 20 = 0 from rfl]
  constructor
  · intro h
    -- 1015 is odd
    have hdvd : 2 ^ 20 ∣ 1015 * p := Nat.dvd_of_mod_eq_zero h
    exact Nat.eq_zero_of_dvd_of_lt (Nat.Coprime.dvd_of_dvd_mul_left (by decide) hdvd) hp
  · rintro rfl
    rfl

/-- Growth of the heap below the window, with page tables enough: the new pages are mapped to
the frames that `mm_alloc_pages` returned exactly if these start with frame 0. -/
theorem addHeapRegion_mapped_iff {fuel addSize p : Nat} {s t : HeapVars Mem} {frames : Frames}
    (hsmall : s.world.frames.count < 2 ^ 20) (hs : Recursive s.world.space)
    (haligned : s.curMaxAddr % pageSize = 0) (hrange : s.curMaxAddr + addSize ≤ 0xFFC00000)
    (hpages : mmAllocPages s.world.frames (addSize / pageSize) = .ok (frames, some p))
    (hsupply : Supplies (mmAllocPagetable mmAreaVirt)
      (missingTables s.world.space s.curMaxAddr (addSize / pageSize)) frames
      (InUse s.world.space))
    (hrun : addHeapRegion (memWorld mmAreaVirt) (allocBuddy (memWorld mmAreaVirt) fuel) s addSize =
      .ok t) :
    GrowthMapped s t addSize p ↔ p = 0 := by
  obtain ⟨hzero, hmult, a, b, hmap⟩ := addHeapRegion_space (by omega) hpages hrun
  have hcount : 1 ≤ addSize / pageSize := by unfold pageSize at *; omega
  have hsize : addSize / pageSize * pageSize = addSize :=
    Nat.div_mul_cancel (Nat.dvd_of_mod_eq_zero hmult)
  obtain ⟨q, hq, -, htakes⟩ := mmAllocPages_takes hsmall hcount (by unfold pageSize; omega) hpages
  obtain rfl := Option.some.inj hq
  have hbound : p < 2 ^ 20 := by
    have hunused := (htakes p (Nat.le_refl p) (by omega)).1
    exact Nat.lt_trans hunused.1 hsmall
  have hconv := converted_twice_iff hbound
  have hdvd := pageSize_dvd_pfnToPa mmAreaVirt (.num (pfnToPa mmAreaVirt (.page p)))
  have hlt := pfnToPa_lt mmAreaVirt (.num (pfnToPa mmAreaVirt (.page p)))
  generalize pfnToPa mmAreaVirt (.num (pfnToPa mmAreaVirt (.page p))) = converted at *
  obtain ⟨space, a', hexact, -, htranslates, hothers⟩ := pagingMapPages_translates 0x71 hs hdvd hlt
    haligned hcount (by rw [hsize]; exact hrange) hsupply
  rw [hexact] at hmap
  obtain ⟨rfl, -⟩ := Prod.mk.inj (Except.ok.inj hmap)
  rw [hsize] at hothers
  refine Iff.trans ⟨fun h => ?_, fun h => ⟨fun i hi o ho => ?_, hothers⟩⟩ hconv
  · -- the first page of the region
    have hsame := (htranslates 0 hcount 0 (by decide)).symm.trans (h.pages 0 hcount 0 (by decide))
    have haddr := Except.ok.inj hsame
    rw [Nat.zero_mul, Nat.add_zero, Nat.add_zero, Nat.add_zero, Nat.add_zero, u32_of_lt hlt]
      at haddr
    exact haddr
  · have hlast := (htakes (p + i) (by omega) (by omega)).1.1
    have hpa : converted + i * pageSize = (p + i) * pageSize := by rw [h, Nat.add_mul]
    have hfits : (p + i) * pageSize < 2 ^ 32 := by unfold pageSize; omega
    rw [htranslates i hi o ho, hpa, u32_of_lt hfits]

/-- Growth by the only free frame, frame 0. -/
theorem frameZero_mapped :
    ∃ r q t, buildFreeList (framesOf [.unused, .used, .used]) = .ok r ∧
      mmAllocPages r.1 1 = .ok (q, some 0) ∧
      addHeapRegion (memWorld mmAreaVirt) (allocBuddy (memWorld mmAreaVirt) 1)
        (slabHeap r.1 (tabledSpace 0)) 0x1000 = .ok t ∧
      GrowthMapped (slabHeap r.1 (tabledSpace 0)) t 0x1000 0 := by
  have hrun : ∃ r, buildFreeList (framesOf [.unused, .used, .used]) = .ok r ∧
      r.1.count < 2 ^ 20 ∧ (∃ q, mmAllocPages r.1 1 = .ok q ∧ q.2 = some 0) ∧
      ∃ t, addHeapRegion (memWorld mmAreaVirt) (allocBuddy (memWorld mmAreaVirt) 1)
        (slabHeap r.1 (tabledSpace 0)) 0x1000 = .ok t ∧ t.curMaxAddr = 0x22000 := by
    decide +kernel
  obtain ⟨r, hbuild, hsmall, ⟨⟨q, page⟩, hpages, rfl⟩, t, hgrow, -⟩ := hrun
  have hmissing : missingTables (tabledSpace 0) 0x21000 1 = 0 := by decide +kernel
  have hsupply : Supplies (mmAllocPagetable mmAreaVirt) (missingTables (tabledSpace 0) 0x21000 1) q
      (InUse (tabledSpace 0)) := by
    rw [hmissing]
    trivial
  exact ⟨r, q, t, hbuild, hpages, hgrow, (addHeapRegion_mapped_iff hsmall (recursive_tabledSpace 0)
    (show 0x21000 % pageSize = 0 by decide) (show 0x21000 + 0x1000 ≤ 0xFFC00000 by decide) hpages
    hsupply hgrow).mpr rfl⟩

/-- A request for a block of one page makes the heap grow by frame 6, the only free one; the
new page is mapped to 0x55800000. -/
theorem frameSix_moved :
    ∃ r, buildFreeList (framesOf [.used, .used, .used, .used, .used, .used, .unused, .used]) =
        .ok r ∧
      (∃ q, mmAllocPages r.1 1 = .ok q ∧ q.2 = some 6) ∧
      ∃ t, allocBuddy (memWorld mmAreaVirt) 2 (slabHeap r.1 (tabledSpace 0)) 0x1000 = .ok t ∧
        virtToPhys t.1.world.space 0x21000 = .ok 0x55800000 ∧
        virtToPhys t.1.world.space 0x21000 ≠ .ok (6 * pageSize) := by
  decide +kernel

end X86Kernel.Manager
