import X86Kernel.Lib.Outcome
import X86Kernel.Lib.Run
import X86Kernel.Memory.BitmapAlloc.Init

/- The hint of the boot-time allocator, over whole runs (`bitmap_alloc_pages`,
   `free_phys_page_bitmap`, `free_phys_pages_bitmap`). A free moves `last_free_group_index` to the
   group of the page it frees, also upwards, and a search never looks below it.

   What is proved: in every state, an allocation answers as it should (`AllocExact`) exactly if a
   page is free from the hint on or none is free at all; and that holds all along a run in which
   no page is freed above another free one (`alloc_exact_iff`). Freeing a low page and then a
   high one leaves the low one out of reach (`lowPage_lost`). -/
namespace X86Kernel.BitmapAlloc
open Lib X86Kernel.Boot

/-- The calls, with the answer of an allocation. -/
inductive Call where
  | allocPages (count : Nat)
  | freePage (pageAddr : Nat)
  | freePages (freeParams : PhysAlloc)

def step (p : Pool) : Call → Kernel (Pool × PhysAlloc)
  | .allocPages count => bitmapAllocPages p count
  | .freePage pageAddr => do
    let p ← freePhysPageBitmap p pageAddr
    return (p, ⟨0, 0⟩)
  | .freePages freeParams => do
    let p ← freePhysPagesBitmap p freeParams
    return (p, ⟨0, 0⟩)

/-- What an allocation of `n` pages should do: no page only if none is free, otherwise a run of
free pages that is as long as it can be up to `n`, and no other bit changes. -/
def AllocExact (p : Pool) (n : Nat) : Prop :=
  ∃ p' start count, bitmapAllocPages p n = .ok (p', ⟨start * pageSize, count⟩) ∧
    (count = 0 → ∀ f, ¬ p.bitmap.Free f) ∧
    (count ≠ 0 → count ≤ n ∧ (∀ f, start ≤ f → f < start + count → p.bitmap.Free f) ∧
      (count < n → ¬ p.bitmap.Free (start + count))) ∧
    ∀ f, p'.bitmap.Free f ↔ p.bitmap.Free f ∧ ¬ (start ≤ f ∧ f < start + count)

/-- If a page is free, one is from the hint on. -/
def Pool.HintReaches (p : Pool) : Prop :=
  (∃ f, p.bitmap.Free f) → ∃ f, p.lastFreeGroupIndex * 8 ≤ f ∧ p.bitmap.Free f

theorem allocExact_iff_reaches (p : Pool) {n : Nat} (hn : 1 ≤ n) :
    AllocExact p n ↔ p.HintReaches := by
  cases bitmapAllocPages_ok p (show 0 < n from hn) with
  | inl hnone =>
    obtain ⟨hrun, hnot⟩ := hnone
    constructor
    · intro h hfree
      obtain ⟨p', start, count, hrun', hzero, -⟩ := h
      rw [hrun] at hrun'
      obtain ⟨-, halloc⟩ := Prod.mk.inj (Except.ok.inj hrun')
      obtain ⟨f, hf⟩ := hfree
      exact absurd hf (hzero (PhysAlloc.mk.inj halloc).2.symm f)
    · intro h
      refine ⟨p, 0, 0, by rw [hrun, Nat.zero_mul], fun _ f hf => ?_, fun h => absurd rfl h,
        fun f => ?_⟩
      · obtain ⟨g, hge, hg⟩ := h ⟨f, hf⟩
        exact hnot g hge hg
      · rw [and_iff_left (by omega)]
  | inr hfound =>
    obtain ⟨p', start, m, hrun, hm, htaken⟩ := hfound
    have hpos := hm.pos
    constructor
    · intro _ _
      exact ⟨start, hm.above, hm.free start (Nat.le_refl start) (by omega)⟩
    · intro _
      exact ⟨p', start, m, hrun, fun h => absurd h (by omega),
        fun _ => ⟨hm.le, hm.free, hm.ends⟩, htaken.free⟩

/-! ## Runs -/

/-- Every free page is from the hint on. -/
def Pool.HintLow (p : Pool) : Prop := ∀ f, p.bitmap.Free f → p.lastFreeGroupIndex ≤ f / 8

theorem Pool.HintLow.reaches {p : Pool} (h : p.HintLow) : p.HintReaches := by
  intro hfree
  obtain ⟨f, hf⟩ := hfree
  refine ⟨f, ?_, hf⟩
  have := h f hf
  omega

/-- The group of page `i` of a range. -/
def PhysAlloc.group (a : PhysAlloc) (i : Nat) : Nat := u32 (a.addr + i * pageSize) / pageSize / 8

/-- No page is freed above a page that is free then. -/
def FreesLow (p : Pool) : Call → Prop
  | .allocPages _ => True
  | .freePage pageAddr => ∀ f, p.bitmap.Free f → pageAddr / pageSize / 8 ≤ f / 8
  | .freePages freeParams => 0 < freeParams.count →
    (∀ f, p.bitmap.Free f → freeParams.group (freeParams.count - 1) ≤ f / 8) ∧
    ∀ i < freeParams.count, freeParams.group (freeParams.count - 1) ≤ freeParams.group i

/-- A page that is freed becomes the hint, and nothing else becomes free. -/
theorem freePhysPageBitmap_ok {p p' : Pool} {pageAddr : Nat}
    (h : freePhysPageBitmap p pageAddr = .ok p') :
    p'.lastFreeGroupIndex = pageAddr / pageSize / 8 ∧
      ∀ f, p'.bitmap.Free f ↔ p.bitmap.Free f ∨ f = pageAddr / pageSize := by
  obtain ⟨b, hb, hret⟩ := exists_of_bind_eq_ok h
  obtain rfl := Except.ok.inj hret
  refine ⟨rfl, ?_⟩
  by_cases hin : pageAddr < 0x80000000
  · obtain ⟨b', hb', hbits⟩ := freePageAt_ok p.bitmap hin
    rw [hb] at hb'
    obtain rfl := Except.ok.inj hb'
    exact hbits
  · have hout : ¬ pageAddr / pageSize / 8 < pagesArrSize := by
      unfold pagesArrSize pageSize
      omega
    rw [freePageAt, store, if_neg hout] at hb
    cases hb

/-- A range: the hint is the group of its last page. -/
theorem freePhysPagesBitmap_ok (a : PhysAlloc) : ∀ (n : Nat) {p p' : Pool},
    (List.range n).foldlM (fun p i => freePhysPageBitmap p (u32 (a.addr + i * pageSize))) p =
      .ok p' →
    p'.lastFreeGroupIndex = (if n = 0 then p.lastFreeGroupIndex else a.group (n - 1)) ∧
      ∀ f, p'.bitmap.Free f → p.bitmap.Free f ∨ ∃ i < n, f / 8 = a.group i := by
  intro n
  induction n with
  | zero =>
    intro p p' h
    obtain rfl := Except.ok.inj h
    exact ⟨rfl, fun f hf => .inl hf⟩
  | succ n ih =>
    intro p p' h
    rw [List.range_succ, List.foldlM_append] at h
    obtain ⟨p₁, hp₁, hlast⟩ := exists_of_bind_eq_ok h
    rw [List.foldlM_cons] at hlast
    obtain ⟨p₂, hp₂, hret⟩ := exists_of_bind_eq_ok hlast
    obtain rfl := Except.ok.inj hret
    obtain ⟨hhint, hbits⟩ := freePhysPageBitmap_ok hp₂
    refine ⟨?_, fun f hf => ?_⟩
    · rw [hhint, if_neg (Nat.succ_ne_zero n)]
      rfl
    · cases (hbits f).1 hf with
      | inl hf₁ =>
        cases (ih hp₁).2 f hf₁ with
        | inl hf₀ => exact .inl hf₀
        | inr hi =>
          obtain ⟨i, hi, hg⟩ := hi
          exact .inr ⟨i, by omega, hg⟩
      | inr hnew => exact .inr ⟨n, Nat.lt_succ_self n, by rw [hnew]; rfl⟩

theorem step_hintLow {p p' : Pool} {c : Call} {out : PhysAlloc} (hp : p.HintLow)
    (hc : FreesLow p c) (h : step p c = .ok (p', out)) : p'.HintLow := by
  cases c with
  | allocPages count =>
    by_cases hzero : count = 0
    · have hrun : bitmapAllocPages p count = .ok (p, ⟨0, 0⟩) := by
        rw [bitmapAllocPages, if_pos hzero]
        rfl
      obtain rfl : p = p' := (Prod.mk.inj (Except.ok.inj (hrun.symm.trans h))).1
      exact hp
    · cases bitmapAllocPages_ok p (Nat.pos_of_ne_zero hzero) with
      | inl hnone =>
        obtain rfl : p = p' := (Prod.mk.inj (Except.ok.inj (hnone.1.symm.trans h))).1
        exact hp
      | inr hfound =>
        obtain ⟨p₁, start, m, hrun, -, htaken⟩ := hfound
        obtain rfl : p₁ = p' := (Prod.mk.inj (Except.ok.inj (hrun.symm.trans h))).1
        intro f hf
        rw [htaken.hint]
        exact hp f ((htaken.free f).1 hf).1
  | freePage pageAddr =>
    obtain ⟨p₁, hp₁, hret⟩ := exists_of_bind_eq_ok h
    obtain rfl : p₁ = p' := (Prod.mk.inj (Except.ok.inj hret)).1
    obtain ⟨hhint, hbits⟩ := freePhysPageBitmap_ok hp₁
    intro f hf
    rw [hhint]
    cases (hbits f).1 hf with
    | inl hold => exact hc f hold
    | inr hnew => rw [hnew]
  | freePages a =>
    obtain ⟨p₁, hp₁, hret⟩ := exists_of_bind_eq_ok h
    obtain rfl : p₁ = p' := (Prod.mk.inj (Except.ok.inj hret)).1
    obtain ⟨hhint, hbits⟩ := freePhysPagesBitmap_ok a a.count hp₁
    intro f hf
    rw [hhint]
    by_cases hzero : a.count = 0
    · rw [if_pos hzero]
      cases hbits f hf with
      | inl hold => exact hp f hold
      | inr hnew =>
        obtain ⟨i, hi, -⟩ := hnew
        omega
    · rw [if_neg hzero]
      obtain ⟨hold, hrange⟩ := hc (Nat.pos_of_ne_zero hzero)
      cases hbits f hf with
      | inl hf₀ => exact hold f hf₀
      | inr hnew =>
        obtain ⟨i, hi, hg⟩ := hnew
        rw [hg]
        exact hrange i hi

theorem initBitmapPhysAllocator_hint {img : Image} {mmap : List MmapEntry} {p : Pool}
    (h : initBitmapPhysAllocator img mmap = .ok p) : p.lastFreeGroupIndex = 0 := by
  obtain ⟨b₁, -, hrest⟩ := exists_of_bind_eq_ok h
  obtain ⟨b₂, -, hret⟩ := exists_of_bind_eq_ok hrest
  rw [← Except.ok.inj hret]

/-- After any run an allocation is exact, whatever its size, exactly if a page is free from the
hint on or none is free; and it is after a run in which no page is freed above a free one. -/
theorem alloc_exact_iff {img : Image} {mmap : List MmapEntry} {p₀ p : Pool} {calls : List Call}
    {outs : List PhysAlloc} (h₀ : initBitmapPhysAllocator img mmap = .ok p₀)
    (hrun : run step p₀ calls = .ok (p, outs)) :
    ((∀ n, 1 ≤ n → AllocExact p n) ↔ p.HintReaches) ∧
      (Meets step FreesLow p₀ calls → ∀ n, 1 ≤ n → AllocExact p n) := by
  have hiff : (∀ n, 1 ≤ n → AllocExact p n) ↔ p.HintReaches := by
    constructor
    · intro h
      exact (allocExact_iff_reaches p (Nat.le_refl 1)).1 (h 1 (Nat.le_refl 1))
    · intro h n hn
      exact (allocExact_iff_reaches p hn).2 h
  refine ⟨hiff, fun hlow => hiff.2 (Pool.HintLow.reaches ?_)⟩
  refine run_keeps step_hintLow (fun f _ => ?_) hlow hrun
  rw [initBitmapPhysAllocator_hint h₀]
  exact Nat.zero_le _

theorem freePhysPageBitmap_inside (p : Pool) {pageAddr : Nat} (h : pageAddr < 0x80000000) :
    ∃ p', freePhysPageBitmap p pageAddr = .ok p' := by
  obtain ⟨b, hb, -⟩ := freePageAt_ok p.bitmap h
  refine ⟨⟨b, pageAddr / pageSize / 8, p.handed⟩, ?_⟩
  rw [freePhysPageBitmap, hb]
  rfl

/-- A page is taken and given back. -/
theorem onePage_back : ∃ p₀ p outs, initBitmapPhysAllocator smallImage secondMiB = .ok p₀ ∧
    run step p₀ [.allocPages 1, .freePage 0x143000] = .ok (p, outs) ∧
    ∀ n, 1 ≤ n → AllocExact p n := by
  obtain ⟨p₀, h₀, hhint₀, -, hfree₀⟩ := secondMiB_free
  obtain ⟨p₁, hp₁, htaken₁⟩ := @bitmapAllocPages_first p₀ 1 323
    (by decide) (by omega) (fun f _ hf h => absurd ((hfree₀ f).1 h) (by omega))
    (fun f hge hf => (hfree₀ f).2 (by omega))
  obtain ⟨p₂, hp₂⟩ := freePhysPageBitmap_inside p₁ (show 0x143000 < 0x80000000 by decide)
  have hstep₁ : step p₀ (.allocPages 1) = .ok (p₁, ⟨323 * pageSize, 1⟩) := hp₁
  have hstep₂ : step p₁ (.freePage 0x143000) = .ok (p₂, ⟨0, 0⟩) := by
    rw [step, hp₂]
    rfl
  have hrun := run_cons_ok hstep₁ (run_cons_ok hstep₂ (show run step p₂ [] = .ok (p₂, []) from rfl))
  refine ⟨p₀, p₂, _, h₀, hrun, (alloc_exact_iff h₀ hrun).2 ?_⟩
  rw [meets_cons_ok hstep₁, meets_cons_ok hstep₂]
  refine ⟨trivial, fun f hf => ?_, trivial⟩
  have := (hfree₀ f).1 ((htaken₁.free f).1 hf).1
  unfold pageSize
  omega

/-- All pages are taken, the first and the last one are given back in this order, and the last
one is taken again: the first one is free, and no allocation finds it. -/
theorem lowPage_lost : ∃ p₀ p outs, initBitmapPhysAllocator smallImage secondMiB = .ok p₀ ∧
    run step p₀ [.allocPages 189, .freePage 0x143000, .freePage 0x1FF000, .allocPages 1] =
      .ok (p, outs) ∧
    p.bitmap.Free 323 ∧ bitmapAllocPages p 1 = .ok (p, ⟨0, 0⟩) ∧ ¬ AllocExact p 1 := by
  obtain ⟨p₀, h₀, hhint₀, -, hfree₀⟩ := secondMiB_free
  obtain ⟨p₁, hp₁, htaken₁⟩ := @bitmapAllocPages_first p₀ 189 323
    (by decide) (by omega) (fun f _ hf h => absurd ((hfree₀ f).1 h) (by omega))
    (fun f hge hf => (hfree₀ f).2 (by omega))
  have hfree₁ : ∀ f, ¬ p₁.bitmap.Free f := by
    intro f hf
    obtain ⟨hold, hnot⟩ := (htaken₁.free f).1 hf
    have := (hfree₀ f).1 hold
    omega
  obtain ⟨p₂, hp₂⟩ := freePhysPageBitmap_inside p₁ (show 0x143000 < 0x80000000 by decide)
  obtain ⟨-, hbits₂⟩ := freePhysPageBitmap_ok hp₂
  obtain ⟨p₃, hp₃⟩ := freePhysPageBitmap_inside p₂ (show 0x1FF000 < 0x80000000 by decide)
  obtain ⟨hhint₃, hbits₃⟩ := freePhysPageBitmap_ok hp₃
  have hgroup : (0x1FF000 : Nat) / pageSize / 8 = 63 := by decide
  have hfree₃ : ∀ f, p₃.bitmap.Free f ↔ f = 323 ∨ f = 511 := by
    intro f
    rw [hbits₃, hbits₂]
    simp only [hfree₁ f, false_or]
    rfl
  obtain ⟨p₄, hp₄, htaken₄⟩ := @bitmapAllocPages_first p₃ 1 511
    (by decide) (by omega) (fun f hge hf h => by have := (hfree₃ f).1 h; omega)
    (fun f hge hf => (hfree₃ f).2 (by omega))
  have hlow : p₄.bitmap.Free 323 := (htaken₄.free 323).2 ⟨(hfree₃ 323).2 (by omega), by omega⟩
  have hnone : ∀ f, p₄.lastFreeGroupIndex * 8 ≤ f → ¬ p₄.bitmap.Free f := by
    intro f hge hf
    rw [htaken₄.hint, hhint₃, hgroup] at hge
    obtain ⟨hold, hnot⟩ := (htaken₄.free f).1 hf
    have := (hfree₃ f).1 hold
    omega
  refine ⟨p₀, p₄, _, h₀, run_cons_ok (show step p₀ (.allocPages 189) = .ok (p₁, _) from hp₁)
    (run_cons_ok (show step p₁ (.freePage 0x143000) = .ok (p₂, ⟨0, 0⟩) by rw [step, hp₂]; rfl)
      (run_cons_ok (show step p₂ (.freePage 0x1FF000) = .ok (p₃, ⟨0, 0⟩) by rw [step, hp₃]; rfl)
        (run_cons_ok (show step p₃ (.allocPages 1) = .ok (p₄, _) from hp₄)
          (show run step p₄ [] = .ok (p₄, []) from rfl)))), hlow, ?_, ?_⟩
  · cases bitmapAllocPages_ok p₄ (show 0 < 1 by decide) with
    | inl h => exact h.1
    | inr h =>
      obtain ⟨p', start, m, -, hm, -⟩ := h
      have hpos := hm.pos
      exact absurd (hm.free start (Nat.le_refl start) (by omega)) (hnone start hm.above)
  · rw [allocExact_iff_reaches p₄ (Nat.le_refl 1)]
    intro h
    obtain ⟨f, hge, hf⟩ := h ⟨323, hlow⟩
    exact hnone f hge hf

end X86Kernel.BitmapAlloc
