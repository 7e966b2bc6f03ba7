import X86Kernel.Memory.Manager.Mapping

/- Kernel pages are allocated and released.

   `kvalloc_pages` reserves a region, takes frames for it and maps them; `kvfree_pages`
   releases the region and does nothing else. What is proved: in every state of the memory,
   whatever the regions and the page tables are, no allocation of one page or more is undone
   by the release, as each frame that `mm_alloc_pages` handed out was free and is not
   (`kvfreePages_keeps_frames`). -/
namespace X86Kernel.Manager
open X86Kernel.Frame X86Kernel.Paging X86Kernel.VirtRegion X86Kernel.Heap

/-- No frame becomes free. -/
structure Fewer (s s' : Frames) : Prop where
  size : s'.count = s.count
  unused : ∀ f, s'.Unused f → s.Unused f

theorem setRefs_type : ∀ (n : Nat) {s s' : Frames} {i : Nat}, setRefs n s i = .ok s' →
    s'.count = s.count ∧ ∀ j, (s'.desc j).type = (s.desc j).type := by
  intro n
  induction n with
  | zero =>
    intro s s' i h
    obtain rfl := Except.ok.inj h
    exact ⟨rfl, fun _ => rfl⟩
  | succ n ih =>
    intro s s' i h
    obtain ⟨d, hload, hrest⟩ := exists_of_bind_eq_ok h
    obtain ⟨-, -, hrest'⟩ := exists_of_bind_eq_ok hrest
    obtain ⟨s₁, hmodify, hrefs⟩ := exists_of_bind_eq_ok hrest'
    rw [modify_ok _ (load_eq_ok hload).1] at hmodify
    obtain rfl := Except.ok.inj hmodify
    obtain ⟨hsize, htype⟩ := ih hrefs
    refine ⟨hsize, fun j => ?_⟩
    rw [htype, set_desc]
    by_cases hj : j = i
    · rw [if_pos hj, hj]
    · rw [if_neg hj]

theorem mmAllocPages_takes {s s' : Frames} {n : Nat} {result : Option Nat}
    (hsmall : s.count < 2 ^ 20) (hn : 1 ≤ n) (hlt : n < 2 ^ 32)
    (h : mmAllocPages s n = .ok (s', result)) :
    ∃ p, result = some p ∧ s'.count = s.count ∧
      ∀ j, p ≤ j → j < p + n → s.Unused j ∧ ¬ s'.Unused j := by
  obtain ⟨⟨s₁, found⟩, halloc, hrest⟩ := exists_of_bind_eq_ok h
  cases found with
  | none =>
    dsimp only at hrest
    rw [if_neg (by omega)] at hrest
    cases hrest
  | some p =>
    obtain ⟨s₂, hrefs, hreturn⟩ := exists_of_bind_eq_ok hrest
    obtain ⟨rfl, rfl⟩ := Prod.mk.inj (Except.ok.inj hreturn)
    have hmarked := frameAllocPhysPages_marked hsmall hn hlt halloc
    obtain ⟨hsize, htype⟩ := setRefs_type n hrefs
    refine ⟨p, rfl, hsize.trans hmarked.size, fun j hj hjn => ⟨(hmarked.unused j hj hjn).1, ?_⟩⟩
    intro hu
    rw [Frames.Unused, hsize, htype] at hu
    exact ((hmarked.unused_iff j).1 hu).2 ⟨hj, by omega⟩

theorem fewer_allocPagetable {descs pa : Nat} {s s' : Frames} (hsmall : s.count < 2 ^ 20)
    (h : mmAllocPagetable descs s = .ok (s', pa)) : Fewer s s' := by
  obtain ⟨⟨s₁, found⟩, halloc, hreturn⟩ := exists_of_bind_eq_ok h
  obtain ⟨rfl, -⟩ := Prod.mk.inj (Except.ok.inj hreturn)
  cases found with
  | none =>
    obtain rfl := frameAllocPhysPages_none halloc
    exact ⟨rfl, fun _ hf => hf⟩
  | some p =>
    have hmarked := frameAllocPhysPages_marked hsmall (Nat.le_refl 1) (by decide) halloc
    exact ⟨hmarked.size, fun f hf => ((hmarked.unused_iff f).1 hf).1⟩

theorem fewer_vmapPages {descs fuel va count : Nat} {s t : HeapVars Mem} {pfn : Word}
    {vregion : VirtRegionType} (hsmall : s.world.frames.count < 2 ^ 20)
    (h : vmapPages descs fuel s va pfn vregion count = .ok t) :
    Fewer s.world.frames t.world.frames := by
  obtain ⟨b, hpages⟩ := vmapPages_eq_ok h
  apply pagingMapPages_keeps (I := Fewer s.world.frames) _ hpages ⟨rfl, fun _ hf => hf⟩
  intro a a' pa ha hcall
  have hfewer := fewer_allocPagetable (by rw [ha.size]; exact hsmall) hcall
  exact ⟨hfewer.size.trans ha.size, fun f hf => ha.unused f (hfewer.unused f hf)⟩

theorem kvregionReserve_frames {descs fuel count va : Nat} {s t : HeapVars Mem}
    {vregion : VirtRegionType} {name : String}
    (h : kvregionReserve descs fuel s count vregion name = .ok (t, va)) :
    t.world.frames = s.world.frames := by
  obtain ⟨gapStart, -, hrest⟩ := exists_of_bind_eq_ok h
  split at hrest
  · obtain ⟨rfl, -⟩ := Prod.mk.inj (Except.ok.inj hrest)
    rfl
  · obtain ⟨u, hmark, hreturn⟩ := exists_of_bind_eq_ok hrest
    obtain ⟨rfl, -⟩ := Prod.mk.inj (Except.ok.inj hreturn)
    exact (kvregionMark_world hmark).1

/-- The free frames are those of before, page tables aside; page tables are taken when
`mm_alloc_pages` has returned. -/
def FramesReturned (s u : Mem) (count : Nat) : Prop :=
  ∃ tables : Nat → Prop,
    (∀ f, tables f → ∀ frames page, mmAllocPages s.frames count = .ok (frames, page) →
      frames.Unused f) ∧
    ∀ f, ¬ tables f → (u.frames.Unused f ↔ s.frames.Unused f)

/-- Every allocation that succeeds and is released leaves frames behind. -/
theorem kvfreePages_keeps_frames {descs fuel count va : Nat} {s t u : HeapVars Mem}
    {vregion : VirtRegionType} {probe : Ptr} (hsmall : s.world.frames.count < 2 ^ 20)
    (hcount : 1 ≤ count) (hlt : count < 2 ^ 32)
    (halloc : kvallocPages descs fuel s count vregion = .ok (t, va))
    (hfree : kvfreePages t probe va = .ok u) : ¬ FramesReturned s.world u.world count := by
  obtain ⟨name, -, hrest⟩ := exists_of_bind_eq_ok halloc
  obtain ⟨⟨s₁, va₁⟩, hreserve, hrest'⟩ := exists_of_bind_eq_ok hrest
  obtain ⟨⟨frames, page⟩, hpages, hmap⟩ := exists_of_bind_eq_ok hrest'
  obtain ⟨t₁, hvmap, hreturn⟩ := exists_of_bind_eq_ok hmap
  obtain ⟨rfl, -⟩ := Prod.mk.inj (Except.ok.inj hreturn)
  obtain ⟨regions, -, hrelease⟩ := exists_of_bind_eq_ok hfree
  obtain rfl := Except.ok.inj hrelease
  rw [kvregionReserve_frames hreserve] at hpages
  obtain ⟨p, rfl, hsize, htakes⟩ := mmAllocPages_takes hsmall hcount hlt hpages
  have hfewer := fewer_vmapPages (show frames.count < 2 ^ 20 by rw [hsize]; exact hsmall) hvmap
  -- the first page of the region
  obtain ⟨hbefore, htaken⟩ := htakes p (Nat.le_refl p) (by omega)
  intro hreturned
  obtain ⟨tables, htables, hsame⟩ := hreturned
  have hnot : ¬ tables p := fun htable => htaken (htables p htable _ _ hpages)
  exact htaken (hfewer.unused p ((hsame p hnot).2 hbefore))

/-- Frames of which two are free, after the tables of `tabledSpace`. -/
def twoFreeFrames : List PageType := [.reserved, .used, .used, .unused, .unused, .used]

/-- One page is allocated and released. -/
theorem onePage_keeps_frames :
    ∃ r t u, buildFreeList (framesOf twoFreeFrames) = .ok r ∧
      kvallocPages mmAreaVirt 1 (slabHeap r.1 (tabledSpace 768)) 1 .bioBuffer = .ok t ∧
      kvfreePages t.1 0x1000#32 t.2 = .ok u ∧ ¬ FramesReturned
      (slabHeap r.1 (tabledSpace 768)).world
        u.world 1 := by
  have hrun : ∃ r t u, buildFreeList (framesOf twoFreeFrames) = .ok r ∧
      kvallocPages mmAreaVirt 1 (slabHeap r.1 (tabledSpace 768)) 1 .bioBuffer = .ok t ∧
      kvfreePages t.1 0x1000#32 t.2 = .ok u ∧ r.1.count < 2 ^ 20 := by
    refine ⟨_, _, _, rfl, rfl, rfl, ?_⟩
    decide +kernel
  obtain ⟨r, t, u, hbuild, halloc, hfree, hsmall⟩ := hrun
  exact ⟨r, t, u, hbuild, halloc, hfree,
    kvfreePages_keeps_frames hsmall (by decide) (by decide) halloc hfree⟩

/-- After it frame 4 is not free any more, and its page is still mapped. -/
theorem released_page_stays :
    ∃ r t u, buildFreeList (framesOf twoFreeFrames) = .ok r ∧
      kvallocPages mmAreaVirt 1 (slabHeap r.1 (tabledSpace 768)) 1 .bioBuffer = .ok t ∧
      t.2 = 0xC0000000 ∧ kvfreePages t.1 0x1000#32 t.2 = .ok u ∧
      r.1.Unused 4 ∧ ¬ u.world.frames.Unused 4 ∧
      virtToPhys u.world.space 0xC0000000 = .ok 0x4000 := by
  refine ⟨_, _, _, rfl, rfl, rfl, rfl, ?_, ?_, ?_⟩
  · decide +kernel
  · decide +kernel
  · decide +kernel

end X86Kernel.Manager
