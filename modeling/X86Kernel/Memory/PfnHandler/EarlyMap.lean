import X86Kernel.Memory.BitmapAlloc.Init
import X86Kernel.Memory.Paging.Shortage

/- Memory for the page descriptors before there is a frame allocator
   (`early_alloc_and_map`, `kernel/memory/core/pfn_handler.c`): runs of pages from the bitmap are
   mapped one after another, and the page tables this takes come from the same bitmap.

   What is proved: the loop ends; when it returns, every page of the range is mapped to a frame of
   its own that was free before and is no page table, exactly if the free pages are enough for the
   range and for the tables that are missing (`earlyAllocAndMap_covers_iff`). The answer of
   `paging_map_pages` is not looked at, so with just the pages of the range the call returns as
   if it had mapped them (`lastPages_not_mapped`).

   Correspondence (C ↔ Lean):
     `early_alloc_and_map` ↔ `earlyAllocAndMap` (`earlyAllocLoop`)
     `mm_alloc_pagetable`  ↔ `bitmapAllocPage` (`ALLOC_BITMAP`) -/
namespace X86Kernel.Frame
open Lib X86Kernel.Boot X86Kernel.BitmapAlloc X86Kernel.Paging

/-- `while (mapped < total_pages)`; every turn maps a page or halts. -/
def earlyAllocLoop (totalPages pagingFlags : Nat) :
    Nat → Space → Pool → Nat → Nat → Kernel (Space × Pool × Nat)
  | 0, s, p, mapped, _ => if mapped < totalPages then .error .diverges else .ok (s, p, mapped)
  | fuel + 1, s, p, mapped, curVa =>
    if mapped < totalPages then do
      let remaining := totalPages - mapped
      let (p, physRun) ← bitmapAllocPages p remaining
      if physRun.count = 0 then .error .abort
      else
        let (s, p, _) ←
          pagingMapPages bitmapAllocPage s p physRun.addr curVa physRun.count pagingFlags
        earlyAllocLoop totalPages pagingFlags fuel s p (mapped + physRun.count)
          (u32 (curVa + physRun.count * pageSize))
    else .ok (s, p, mapped)

/-- `early_alloc_and_map`. -/
def earlyAllocAndMap (s : Space) (p : Pool) (startVa totalPages pagingFlags : Nat) :
    Kernel (Space × Pool × Nat) :=
  earlyAllocLoop totalPages pagingFlags totalPages s p 0 startVa

/-! ## Tables from the bitmap -/

/-- Frames in use and free pages are apart, and both are among the frames `B`; page 0, which an
allocation cannot tell from NULL, is not found. -/
structure Fresh (B : Nat → Prop) (p : Pool) (used : Nat → Prop) : Prop where
  used : ∀ f, used f → ¬ p.bitmap.Free f ∧ B f
  free : ∀ f, p.bitmap.Free f → B f
  zero : p.lastFreeGroupIndex = 0 → ¬ p.bitmap.Free 0

theorem bitmapAllocPage_allocator (B : Nat → Prop) :
    Allocator bitmapAllocPage (fun _ => False) (Fresh B) where
  call := by
    intro p used hp
    cases bitmapAllocPage_ok p with
    | inl hnone =>
      rw [hnone.1]
      exact .inl ⟨rfl, hp⟩
    | inr hfound =>
      obtain ⟨p', frame, hrun, hfirst, htaken⟩ := hfound
      have hfree := htaken.was frame (Nat.le_refl frame) (Nat.lt_succ_self frame)
      rw [hrun]
      refine .inr ⟨frame, hfirst.ne_zero hp.zero, rfl, fun hu => (hp.used frame hu).1 hfree, ?_⟩
      refine ⟨fun f hf => ?_, fun f hf => hp.free f ((htaken.free f).1 hf).1, fun hhint hf => ?_⟩
      · cases hf with
        | inl hu =>
          refine ⟨fun h => (hp.used f hu).1 ((htaken.free f).1 h).1, (hp.used f hu).2⟩
        | inr he =>
          rw [he]
          refine ⟨fun h => ((htaken.free frame).1 h).2 ⟨Nat.le_refl frame, Nat.lt_succ_self frame⟩,
            hp.free frame hfree⟩
      · rw [htaken.hint] at hhint
        exact hp.zero hhint ((htaken.free 0).1 hf).1
  less hp himp := ⟨fun f hf => hp.used f (himp f hf), hp.free, hp.zero⟩

theorem given_freeCount : ∀ {n : Nat} {p p' : Pool}, Given bitmapAllocPage n p p' →
    (p.lastFreeGroupIndex = 0 → ¬ p.bitmap.Free 0) →
    p'.freeCount + n = p.freeCount ∧ p'.lastFreeGroupIndex = p.lastFreeGroupIndex ∧
      ∀ f, p'.bitmap.Free f → p.bitmap.Free f := by
  intro n
  induction n with
  | zero =>
    intro p p' h _
    obtain rfl : p' = p := h
    exact ⟨Nat.add_zero _, rfl, fun _ hf => hf⟩
  | succ n ih =>
    intro p p' h hzero
    obtain ⟨p₁, frame, hcall, hne, hrest⟩ := h
    cases bitmapAllocPage_ok p with
    | inl hnone =>
      obtain ⟨-, hframe⟩ := Prod.mk.inj (Except.ok.inj (hnone.1.symm.trans hcall))
      unfold pageSize at hframe
      omega
    | inr hfound =>
      obtain ⟨p₂, frame₂, hrun, hfirst, htaken⟩ := hfound
      obtain ⟨rfl, -⟩ := Prod.mk.inj (Except.ok.inj (hrun.symm.trans hcall))
      have hcount := freeCount_of_taken htaken hfirst.above
      obtain ⟨hcount', hhint, hfree⟩ := ih hrest fun hh hf =>
        hzero (htaken.hint ▸ hh) ((htaken.free 0).1 hf).1
      exact ⟨by omega, hhint.trans htaken.hint, fun f hf => ((htaken.free f).1 (hfree f hf)).1⟩

theorem freeCount_of_null {p p' : Pool} (h : bitmapAllocPage p = .ok (p', 0))
    (hzero : p.lastFreeGroupIndex = 0 → ¬ p.bitmap.Free 0) :
    p' = p ∧ ∀ f, p.lastFreeGroupIndex * 8 ≤ f → ¬ p.bitmap.Free f := by
  cases bitmapAllocPage_ok p with
  | inl hnone =>
    obtain ⟨rfl, -⟩ := Prod.mk.inj (Except.ok.inj (hnone.1.symm.trans h))
    exact ⟨rfl, hnone.2⟩
  | inr hfound =>
    obtain ⟨p₂, frame, hrun, hfirst, -⟩ := hfound
    obtain ⟨-, hframe⟩ := Prod.mk.inj (Except.ok.inj (hrun.symm.trans h))
    have hne := hfirst.ne_zero hzero
    unfold pageSize at hframe
    omega

/-! ## The tables of a range in two parts -/

theorem missing_append (s : Space) : ∀ (n k : Nat) {d : Nat},
    missing s d (n + k) = missing s d n + missing s (d + n) k := by
  intro n
  induction n with
  | zero =>
    intro k d
    rw [Nat.zero_add, missing, Nat.zero_add, Nat.add_zero]
  | succ n ih =>
    intro k d
    rw [Nat.add_right_comm, missing, missing, ih, Nat.add_assoc d 1 n, Nat.add_comm 1 n]
    omega

/-- Once the tables of the first `m` pages are there, what is missing for the whole range is what
was missing for them and what is missing for the rest. -/
theorem missingTables_split {s s₁ : Space} {va m r : Nat} (hva : va % pageSize = 0) (hpos : 0 < m)
    (hlt : m < r)
    (hbeyond : ∀ e, getPdeIndex va + (getPteIndex va + m + 1023) / 1024 ≤ e → s₁.pde e = s.pde e)
    (hlast : present (s₁.pde ((va / pageSize + (m - 1)) / 1024)) = true) :
    missingTables s va r = missingTables s va m + missingTables s₁ (va + m * pageSize) (r - m) := by
  obtain ⟨haddr, hpage⟩ := page_address hva
  have hd : getPdeIndex (va + m * pageSize) =
      (getPdeIndex va * 1024 + getPteIndex va + m) / 1024 := by
    rw [← page_div, ← hpage, Nat.add_mul_div_right _ _ (show 0 < pageSize by decide)]
  have hi : getPteIndex (va + m * pageSize) =
      (getPdeIndex va * 1024 + getPteIndex va + m) % 1024 := by
    rw [← page_mod, ← hpage, Nat.add_mul_div_right _ _ (show 0 < pageSize by decide)]
  have hlow := getPteIndex_lt va
  unfold missingTables
  rw [hpage] at hlast
  rw [hd, hi]
  generalize getPdeIndex va = d at *
  generalize getPteIndex va = i at *
  obtain ⟨n, hn⟩ : ∃ n, (i + m + 1023) / 1024 = n := ⟨_, rfl⟩
  obtain ⟨k, hk⟩ : ∃ k, (i + r + 1023) / 1024 = n + k := ⟨(i + r + 1023) / 1024 - n, by omega⟩
  rw [hn] at hbeyond ⊢
  have hrest : missing s (d + n) k = missing s₁ (d + n) k :=
    (missing_congr k hbeyond).symm
  rw [hk, missing_append, hrest]
  congr 1
  by_cases hfull : (i + m) % 1024 = 0
  · rw [show (d * 1024 + i + m) / 1024 = d + n by omega,
      show ((d * 1024 + i + m) % 1024 + (r - m) + 1023) / 1024 = k by omega]
  · -- the table the first part ends in is also the first of the rest
    rw [show (d * 1024 + i + m) / 1024 = d + n - 1 by omega,
      show ((d * 1024 + i + m) % 1024 + (r - m) + 1023) / 1024 = k + 1 by omega, missing]
    rw [show (d * 1024 + i + (m - 1)) / 1024 = d + n - 1 by omega] at hlast
    rw [if_pos hlast, Nat.add_zero, Nat.sub_add_cancel (by omega)]

/-! ## One run -/

theorem pageEntry_frame (f pagingFlags : Nat) :
    frameOf (pageEntry (f * pageSize) (pagingToHwFlags (pagingFlags ||| 1))) = f ∧
      present (pageEntry (f * pageSize) (pagingToHwFlags (pagingFlags ||| 1))) = true := by
  have hlt := pagingToHwFlags_lt (pagingFlags ||| 1)
  have hp := present_pagingToHwFlags pagingFlags
  unfold present at hp ⊢
  rw [decide_eq_true_eq] at hp ⊢
  rw [pageEntry, Nat.mul_div_cancel f (show 0 < pageSize by decide),
    Nat.mod_eq_of_lt (show _ < pageSize from hlt), or_flags f hlt]
  unfold frameOf pageSize
  constructor
  · omega
  · omega

/-- A run of `m` pages has been taken and mapped from `va` on, if there were tables for all of
it. -/
structure RunMapped (s : Space) (p₁ : Pool) (va start m : Nat) (s' : Space) (p' : Pool)
    (done : Bool) : Prop where
  recursive : Recursive s'
  apart : ∀ f, InUse s' f → ¬ p'.bitmap.Free f
  hint : p'.lastFreeGroupIndex = p₁.lastFreeGroupIndex
  free : ∀ f, p'.bitmap.Free f → p₁.bitmap.Free f
  used : ∀ f, InUse s' f → InUse s f ∨ p₁.bitmap.Free f
  other : ∀ q < 1023 * 1024, q < va / pageSize ∨ va / pageSize + m ≤ q → s'.entry q = s.entry q
  beyond : ∀ e, getPdeIndex va + (getPteIndex va + m + 1023) / 1024 ≤ e → s'.pde e = s.pde e
  all : done = true → (∀ i < m, present (s'.entry (va / pageSize + i)) = true ∧
      frameOf (s'.entry (va / pageSize + i)) = start + i) ∧
    p'.freeCount + missingTables s va m = p₁.freeCount
  short : done = false → (∀ f, p'.lastFreeGroupIndex * 8 ≤ f → ¬ p'.bitmap.Free f) ∧
    p₁.freeCount < missingTables s va m ∧
    ∃ i < m, s'.entry (va / pageSize + i) = 0

theorem zero_not_free {p p₁ : Pool} {count start m : Nat} (hrun : FirstRun p count start m)
    (htaken : Taken p p₁ start m) : p₁.lastFreeGroupIndex = 0 → ¬ p₁.bitmap.Free 0 := by
  intro hhint hf
  have hpos := hrun.pos
  obtain ⟨hold, hnot⟩ := (htaken.free 0).1 hf
  rw [htaken.hint] at hhint
  by_cases hstart : start = 0
  · exact hnot ⟨by omega, by omega⟩
  · exact hrun.first 0 (by omega) (by omega) hold

theorem pagingMapPages_walk {s : Space} {p p₁ : Pool} {count start m va : Nat} (pagingFlags : Nat)
    (hs : Recursive s) (htables : ∀ f, InUse s f → ¬ p.bitmap.Free f)
    (hrun : FirstRun p count start m) (htaken : Taken p p₁ start m) (hva : va % pageSize = 0)
    (hrange : va + m * pageSize ≤ 0xFFC00000) :
    Outcome (fun _ => False) (fun r => Recursive r.1 ∧
        Fresh (fun f => InUse s f ∨ p₁.bitmap.Free f) r.2.1 (InUse r.1) ∧ Grows s r.1 ∧
        (∃ n, Walked s (va / pageSize) m (pagingToHwFlags (pagingFlags ||| 1)) (start * pageSize)
          r.1 r.2.2 n) ∧
        Accounted bitmapAllocPage s p₁ (getPdeIndex va) ((getPteIndex va + m + 1023) / 1024)
          r.1 r.2.1 r.2.2)
      (pagingMapPages bitmapAllocPage s p₁ (start * pageSize) va m pagingFlags) := by
  have hpos := hrun.pos
  have hlt : start * pageSize < 2 ^ 32 := by
    have := (hrun.free start (Nat.le_refl start) (by omega)).lt
    unfold pagesArrSize pageSize at *
    omega
  have hfresh : Fresh (fun f => InUse s f ∨ p₁.bitmap.Free f) p₁ (InUse s) :=
    ⟨fun f hf => ⟨fun h => htables f hf ((htaken.free f).1 h).1, .inl hf⟩, fun f hf => .inr hf,
      zero_not_free hrun htaken⟩
  exact (bitmapAllocPage_allocator _).pagingMapPages pagingFlags hs
    (Nat.mul_mod_left start pageSize) hlt hva hpos hrange hfresh

theorem pagingMapPages_run {s : Space} {p p₁ : Pool} {count start m va : Nat} (pagingFlags : Nat)
    (hs : Recursive s) (htables : ∀ f, InUse s f → ¬ p.bitmap.Free f)
    (hrun : FirstRun p count start m) (htaken : Taken p p₁ start m) (hva : va % pageSize = 0)
    (hrange : va + m * pageSize ≤ 0xFFC00000) :
    Outcome (fun _ => False) (fun r => RunMapped s p₁ va start m r.1 r.2.1 r.2.2)
      (pagingMapPages bitmapAllocPage s p₁ (start * pageSize) va m pagingFlags) := by
  have hpos := hrun.pos
  have hbound : start + m ≤ pagesArrSize * 8 := by
    have := (hrun.free (start + m - 1) (by omega) (by omega)).lt
    omega
  have hlt : ∀ i, i ≤ m → (start + i) * pageSize < 2 ^ 32 := by
    intro i hi
    unfold pagesArrSize pageSize at *
    omega
  have hzero := zero_not_free hrun htaken
  apply (pagingMapPages_walk pagingFlags hs htables hrun htaken hva hrange).mono
  intro r hr
  obtain ⟨s', p', done⟩ := r
  obtain ⟨hs', hfresh', hgrows, ⟨n, hn⟩, hacc⟩ := hr
  dsimp only at hs' hfresh' hgrows hn hacc ⊢
  have hpage : va / pageSize + m ≤ 1023 * 1024 := by
    unfold pageSize at *
    omega
  -- what is free now was free before, or it would be a table of `s` now
  have hfree : ∀ f, p'.bitmap.Free f → p₁.bitmap.Free f := by
    intro f hf
    cases hfresh'.free f hf with
    | inl hused => exact absurd hf (hfresh'.used f (hgrows.inUse hused)).1
    | inr hfree => exact hfree
  have hhint : p'.lastFreeGroupIndex = p₁.lastFreeGroupIndex := by
    cases done with
    | true => exact (given_freeCount (hacc.all rfl) hzero).2.1
    | false =>
      obtain ⟨k, b, -, hgiven, hnull⟩ := hacc.short rfl
      obtain ⟨-, hhint, hb⟩ := given_freeCount hgiven hzero
      rw [(freeCount_of_null hnull fun hh hf => hzero (hhint ▸ hh) (hb 0 hf)).1, hhint]
  refine ⟨hs', fun f hf => (hfresh'.used f hf).1, hhint, hfree, fun f hf => (hfresh'.used f hf).2,
    fun q hq hout => ?_, hacc.beyond, fun hdone => ⟨fun i hi => ?_, ?_⟩, fun hdone => ⟨?_, ?_, ?_⟩⟩
  · have hle := hn.le
    rw [hn.maps q hq, if_neg (by omega)]
  · have hentry := hn.maps (va / pageSize + i) (by omega)
    rw [hn.complete hdone, if_pos (by omega), Nat.add_sub_cancel_left] at hentry
    have haddr : u32 (start * pageSize + i * 4096) = (start + i) * pageSize := by
      rw [show start * pageSize + i * 4096 = (start + i) * pageSize from (Nat.add_mul ..).symm]
      exact u32_of_lt (hlt i (by omega))
    dsimp only at hentry
    rw [haddr] at hentry
    obtain ⟨hframe, hp⟩ := pageEntry_frame (start + i) pagingFlags
    rw [hentry]
    exact ⟨hp, hframe⟩
  · exact (given_freeCount (hacc.all hdone) hzero).1
  · obtain ⟨k, b, -, hgiven, hnull⟩ := hacc.short hdone
    obtain ⟨-, hh, hb⟩ := given_freeCount hgiven hzero
    obtain ⟨rfl, hnone⟩ := freeCount_of_null hnull fun h hf => hzero (hh ▸ h) (hb 0 hf)
    exact hnone
  · obtain ⟨k, b, hk, hgiven, hnull⟩ := hacc.short hdone
    obtain ⟨hcount, hh, hb⟩ := given_freeCount hgiven hzero
    have hnone := freeCount_zero (freeCount_of_null hnull fun h hf => hzero (hh ▸ h) (hb 0 hf)).2
    unfold missingTables
    omega
  · obtain ⟨hlt', hmissing⟩ := hn.stopped hdone
    refine ⟨n, hlt', ?_⟩
    rw [Space.entry, hmissing]
    rfl

/-! ## The loop -/

/-- Each of the `r` pages from `page` on has a frame of its own that was free and is no table. -/
structure Covered (p : Pool) (s' : Space) (page r : Nat) : Prop where
  present : ∀ i < r, present (s'.entry (page + i)) = true
  free : ∀ i < r, p.bitmap.Free (frameOf (s'.entry (page + i)))
  apart : ∀ i j, i < r → j < r →
    frameOf (s'.entry (page + i)) = frameOf (s'.entry (page + j)) → i = j
  table : ∀ i < r, ¬ InUse s' (frameOf (s'.entry (page + i)))

/-- There are pages for the range and for its tables. -/
def Enough (s : Space) (p : Pool) (va r : Nat) : Prop :=
  0 < r → r + missingTables s va r ≤ p.freeCount

/-- What the loop has done with the `r` pages from `va` on. -/
structure EarlyMapped (s : Space) (p : Pool) (va r : Nat) (s' : Space) : Prop where
  used : ∀ f, InUse s' f → InUse s f ∨ p.bitmap.Free f
  other : ∀ q < 1023 * 1024, q < va / pageSize ∨ va / pageSize + r ≤ q → s'.entry q = s.entry q
  covered : Enough s p va r → Covered p s' (va / pageSize) r
  short : ¬ Enough s p va r → ∃ i < r, Paging.present (s'.entry (va / pageSize + i)) = false

theorem EarlyMapped.append {s s₁ s' : Space} {p p₀ p₁ : Pool} {va start m r count : Nat}
    (hva : va % pageSize = 0) (hmr : m ≤ r) (hrange : va + r * pageSize ≤ 0xFFC00000)
    (htables : ∀ f, InUse s f → ¬ p.bitmap.Free f) (hrun : FirstRun p count start m)
    (htaken : Taken p p₀ start m) (h : RunMapped s p₀ va start m s₁ p₁ true)
    (h' : EarlyMapped s₁ p₁ (va + m * pageSize) (r - m) s') : EarlyMapped s p va r s' := by
  have hpos := hrun.pos
  obtain ⟨hall, hcount⟩ := h.all rfl
  have hpage : (va + m * pageSize) / pageSize = va / pageSize + m :=
    Nat.add_mul_div_right _ _ (by decide)
  have hbound : va / pageSize + r ≤ 1023 * 1024 := by
    unfold pageSize at *
    omega
  have hfree : ∀ f, p₁.bitmap.Free f → p.bitmap.Free f ∧ ¬ (start ≤ f ∧ f < start + m) := by
    intro f hf
    exact (htaken.free f).1 (h.free f hf)
  have hused : ∀ f, InUse s' f → InUse s f ∨ p₀.bitmap.Free f := by
    intro f hf
    cases h'.used f hf with
    | inl hf => exact h.used f hf
    | inr hf => exact .inr (h.free f hf)
  -- the entries of the first run are kept
  have hfirst : ∀ i < m, Paging.present (s'.entry (va / pageSize + i)) = true ∧
      frameOf (s'.entry (va / pageSize + i)) = start + i := by
    intro i hi
    rw [h'.other (va / pageSize + i) (by omega) (.inl (by omega))]
    exact hall i hi
  have hrest : ∀ i, m ≤ i → va / pageSize + i = (va + m * pageSize) / pageSize + (i - m) := by
    intro i hi
    omega
  have henough : Enough s p va r ↔ Enough s₁ p₁ (va + m * pageSize) (r - m) := by
    have hsum := freeCount_of_taken htaken hrun.above
    unfold Enough
    by_cases hlast : r = m
    · rw [hlast, Nat.sub_self]
      constructor
      · intro _ hlt
        omega
      · intro _ _
        omega
    · have hlastTable : Paging.present (s₁.pde ((va / pageSize + (m - 1)) / 1024)) = true := by
        by_contra hp
        have hentry := (hall (m - 1) (by omega)).1
        rw [Space.entry, if_neg hp] at hentry
        cases hentry
      rw [missingTables_split hva hpos (show m < r by omega) h.beyond hlastTable]
      omega
  refine ⟨fun f hf => ?_, fun q hq hout => ?_, fun hcond => ?_, fun hcond => ?_⟩
  · cases hused f hf with
    | inl hf => exact .inl hf
    | inr hf => exact .inr ((htaken.free f).1 hf).1
  · rw [h'.other q hq (by omega), h.other q hq (by omega)]
  · have hcov := h'.covered (henough.1 hcond)
    refine ⟨fun i hi => ?_, fun i hi => ?_, fun i j hi hj heq => ?_, fun i hi => ?_⟩
    · by_cases him : i < m
      · exact (hfirst i him).1
      · rw [hrest i (by omega)]
        exact hcov.present (i - m) (by omega)
    · by_cases him : i < m
      · rw [(hfirst i him).2]
        exact htaken.was (start + i) (by omega) (by omega)
      · rw [hrest i (by omega)]
        exact (hfree _ (hcov.free (i - m) (by omega))).1
    · by_cases him : i < m
      · rw [(hfirst i him).2] at heq
        by_cases hjm : j < m
        · rw [(hfirst j hjm).2] at heq
          omega
        · rw [hrest j (by omega)] at heq
          have hnot := (hfree _ (hcov.free (j - m) (by omega))).2
          exact absurd ⟨by omega, by omega⟩ (heq ▸ hnot)
      · rw [hrest i (by omega)] at heq
        by_cases hjm : j < m
        · rw [(hfirst j hjm).2] at heq
          have hnot := (hfree _ (hcov.free (i - m) (by omega))).2
          rw [heq] at hnot
          exact absurd ⟨by omega, by omega⟩ hnot
        · rw [hrest j (by omega)] at heq
          have := hcov.apart (i - m) (j - m) (by omega) (by omega) heq
          omega
    · by_cases him : i < m
      · rw [(hfirst i him).2]
        intro hu
        have hwas := htaken.was (start + i) (by omega) (by omega)
        cases hused _ hu with
        | inl hu => exact htables _ hu hwas
        | inr hf => exact ((htaken.free _).1 hf).2 ⟨by omega, by omega⟩
      · rw [hrest i (by omega)]
        exact hcov.table (i - m) (by omega)
  · obtain ⟨i, hi, hp⟩ := h'.short fun h => hcond (henough.2 h)
    refine ⟨m + i, by omega, ?_⟩
    rw [hpage, Nat.add_assoc] at hp
    exact hp

theorem EarlyMapped.none (s : Space) (p : Pool) (va : Nat) : EarlyMapped s p va 0 s where
  used _ hf := .inl hf
  other _ _ _ := rfl
  covered _ := ⟨fun i hi => absurd hi (Nat.not_lt_zero i),
    fun i hi => absurd hi (Nat.not_lt_zero i),
    fun i _ hi => absurd hi (Nat.not_lt_zero i), fun i hi => absurd hi (Nat.not_lt_zero i)⟩
  short h := absurd (fun hlt => absurd hlt (Nat.lt_irrefl 0)) h

/-- A run without its last tables is the end: no page is left. -/
theorem EarlyMapped.of_short {s s' : Space} {p p₀ p₁ : Pool} {va start m count : Nat}
    (hrun : FirstRun p count start m) (htaken : Taken p p₀ start m)
    (h : RunMapped s p₀ va start m s' p₁ false) : EarlyMapped s p va m s' := by
  obtain ⟨-, hcount, i, hi, hentry⟩ := h.short rfl
  have hsum := freeCount_of_taken htaken hrun.above
  have hpos := hrun.pos
  refine ⟨fun f hf => ?_, h.other, fun hcond => ?_, fun _ => ⟨i, hi, ?_⟩⟩
  · exact (h.used f hf).imp_right fun hf => ((htaken.free f).1 hf).1
  · have := hcond hpos
    omega
  · rw [hentry]
    rfl

/-- The loop ends. Every turn takes a run, or halts; the one turn that may not find its tables is
the last one. -/
theorem earlyAllocLoop_ok (totalPages pagingFlags : Nat) : ∀ (fuel r : Nat) {s : Space} {p : Pool}
    {mapped va : Nat}, mapped + r = totalPages → r ≤ fuel → Recursive s →
    (∀ f, InUse s f → ¬ p.bitmap.Free f) → va % pageSize = 0 → va + r * pageSize ≤ 0xFFC00000 →
    Outcome (fun e => e = .abort) (fun q => q.2.2 = totalPages ∧ EarlyMapped s p va r q.1)
      (earlyAllocLoop totalPages pagingFlags fuel s p mapped va) := by
  intro fuel
  induction fuel with
  | zero =>
    intro r s p mapped va hr hfuel _ _ _ _
    obtain rfl : r = 0 := by omega
    rw [earlyAllocLoop, if_neg (by omega)]
    exact ⟨hr, EarlyMapped.none s p va⟩
  | succ fuel ih =>
    intro r s p mapped va hr hfuel hs htables hva hrange
    rw [earlyAllocLoop]
    by_cases hzero : r = 0
    · subst hzero
      rw [if_neg (by omega)]
      exact ⟨hr, EarlyMapped.none s p va⟩
    · have hremaining : totalPages - mapped = r := by omega
      rw [if_pos (by omega), hremaining]
      dsimp only
      cases bitmapAllocPages_ok p (Nat.pos_of_ne_zero hzero) with
      | inl hnone =>
        rw [hnone.1]
        exact rfl
      | inr hfound =>
        obtain ⟨p₀, start, m, hrun, hm, htaken⟩ := hfound
        have hpos := hm.pos
        have hle := hm.le
        have hchunk : m * pageSize ≤ r * pageSize := Nat.mul_le_mul_right _ hle
        rw [hrun, ok_bind]
        dsimp only
        rw [if_neg (by omega)]
        apply Outcome.bind ((pagingMapPages_run pagingFlags hs htables hm htaken hva
          (by omega)).mono_error fun e he => he.elim)
        intro q hq
        obtain ⟨s₁, p₁, done⟩ := q
        dsimp only at hq ⊢
        have hnext : u32 (va + m * pageSize) = va + m * pageSize := u32_of_lt (by omega)
        rw [hnext]
        cases done with
        | true =>
          have hrest := @ih (r - m) s₁ p₁ (mapped + m) (va + m * pageSize) (by omega) (by omega)
            hq.recursive hq.apart
            (by rw [Nat.add_mul_mod_self_right]; exact hva)
            (by rw [Nat.add_assoc, ← Nat.add_mul, Nat.add_sub_of_le hle]; exact hrange)
          apply hrest.mono
          intro q' hq'
          exact ⟨hq'.1, EarlyMapped.append hva hle hrange htables hm htaken hq hq'.2⟩
        | false =>
          have hnone := (hq.short rfl).1
          by_cases hlast : r = m
          · -- nothing is left to map, and the call returns
            subst hlast
            have hend : earlyAllocLoop totalPages pagingFlags fuel s₁ p₁ (mapped + r)
                (va + r * pageSize) = .ok (s₁, p₁, mapped + r) := by
              cases fuel <;> rw [earlyAllocLoop, if_neg (by omega)]
            rw [hend]
            exact ⟨hr, EarlyMapped.of_short hm htaken hq⟩
          · obtain ⟨fuel, rfl⟩ : ∃ k, fuel = k + 1 := ⟨fuel - 1, by omega⟩
            rw [earlyAllocLoop, if_pos (by omega)]
            dsimp only
            cases bitmapAllocPages_ok p₁ (show 0 < totalPages - (mapped + m) by omega) with
            | inl hnone₁ =>
              rw [hnone₁.1]
              exact rfl
            | inr hfound₁ =>
              obtain ⟨-, start₁, m₁, -, hm₁, -⟩ := hfound₁
              have hpos₁ := hm₁.pos
              exact absurd (hm₁.free start₁ (Nat.le_refl _) (by omega)) (hnone start₁ hm₁.above)

/-! ## The call -/

/-- Every page of the range translates to a frame of its own, which was free before and is not a
page table of the call. -/
def CoversRange (s : Space) (p : Pool) (s' : Space) (va totalPages : Nat) : Prop :=
  ∃ frame : Nat → Nat,
    (∀ i < totalPages, ∀ o < pageSize, walk s' (va + i * pageSize + o) = .ok (frame i)) ∧
    (∀ i < totalPages, p.bitmap.Free (frame i)) ∧
    (∀ i j, i < totalPages → j < totalPages → frame i = frame j → i = j) ∧
    ∀ i < totalPages, ¬ (InUse s' (frame i) ∧ ¬ InUse s (frame i))

theorem EarlyMapped.covers_iff {s s' : Space} {p : Pool} {va r : Nat} (h : EarlyMapped s p va r s')
    (hva : va % pageSize = 0) : CoversRange s p s' va r ↔ Enough s p va r := by
  have haddr : ∀ i o, o < pageSize → (va + i * pageSize + o) / pageSize = va / pageSize + i := by
    intro i o ho
    unfold pageSize at *
    omega
  constructor
  · intro hcovers
    by_contra hshort
    obtain ⟨i, hi, hp⟩ := h.short hshort
    obtain ⟨frame, hwalk, -⟩ := hcovers
    have hzero := hwalk i hi 0 (by decide)
    rw [walk_eq_entry, haddr i 0 (by decide), hp] at hzero
    cases hzero
  · intro henough
    have hcov := h.covered henough
    refine ⟨fun i => frameOf (s'.entry (va / pageSize + i)), fun i hi o ho => ?_, hcov.free,
      hcov.apart, fun i hi ht => hcov.table i hi ht.1⟩
    rw [walk_eq_entry, haddr i o ho, if_pos (hcov.present i hi)]

/-- `early_alloc_and_map` ends. Where it returns, it has mapped the range exactly if there were
pages for the range and for its tables. -/
theorem earlyAllocAndMap_covers_iff {s : Space} {p : Pool} {startVa totalPages : Nat}
    (pagingFlags : Nat) (hs : Recursive s) (htables : ∀ f, InUse s f → ¬ p.bitmap.Free f)
    (hva : startVa % pageSize = 0) (hrange : startVa + totalPages * pageSize ≤ 0xFFC00000) :
    earlyAllocAndMap s p startVa totalPages pagingFlags ≠ .error .diverges ∧
    ∀ s' p' n, earlyAllocAndMap s p startVa totalPages pagingFlags = .ok (s', p', n) →
      n = totalPages ∧ (CoversRange s p s' startVa totalPages ↔
        (0 < totalPages → totalPages + missingTables s startVa totalPages ≤ p.freeCount)) := by
  have hloop := @earlyAllocLoop_ok totalPages pagingFlags totalPages totalPages s p 0 startVa
    (Nat.zero_add _) (Nat.le_refl _) hs htables hva hrange
  constructor
  · intro hdiverges
    cases hloop.of_error hdiverges
  · intro s' p' n hrun
    obtain ⟨hn, hmapped⟩ := hloop.of_ok hrun
    exact ⟨hn, hmapped.covers_iff hva⟩

/-- Where the first free pages are enough for the range, the call maps them in one turn and
returns. -/
theorem earlyAllocAndMap_returns {s : Space} {p : Pool} {startVa totalPages lo : Nat}
    (pagingFlags : Nat) (hs : Recursive s) (htables : ∀ f, InUse s f → ¬ p.bitmap.Free f)
    (hva : startVa % pageSize = 0) (hrange : startVa + totalPages * pageSize ≤ 0xFFC00000)
    (hpos : 0 < totalPages) (habove : p.lastFreeGroupIndex * 8 ≤ lo)
    (hfirst : ∀ f, p.lastFreeGroupIndex * 8 ≤ f → f < lo → ¬ p.bitmap.Free f)
    (hfree : ∀ f, lo ≤ f → f < lo + totalPages → p.bitmap.Free f) :
    ∃ s' p₁ p' done, earlyAllocAndMap s p startVa totalPages pagingFlags =
        .ok (s', p', totalPages) ∧
      Taken p p₁ lo totalPages ∧ RunMapped s p₁ startVa lo totalPages s' p' done := by
  obtain ⟨p₀, hrun, htaken⟩ := bitmapAllocPages_first hpos habove hfirst hfree
  have hm : FirstRun p totalPages lo totalPages :=
    ⟨⟨hpos, Nat.le_refl _, hfree, fun h => absurd h (Nat.lt_irrefl _)⟩, habove, hfirst⟩
  have hmap := pagingMapPages_run pagingFlags hs htables hm htaken hva hrange
  cases hcall : pagingMapPages bitmapAllocPage s p₀ (lo * pageSize) startVa totalPages
      pagingFlags with
  | error e => exact (hmap.of_error hcall).elim
  | ok r =>
    obtain ⟨s₁, p₁, done⟩ := r
    obtain ⟨n, rfl⟩ : ∃ n, totalPages = n + 1 := ⟨totalPages - 1, by omega⟩
    have hend : earlyAllocLoop (n + 1) pagingFlags n s₁ p₁ (0 + (n + 1))
        (u32 (startVa + (n + 1) * pageSize)) = .ok (s₁, p₁, n + 1) := by
      cases n <;> rw [earlyAllocLoop, if_neg (by omega), Nat.zero_add]
    refine ⟨s₁, p₀, p₁, done, ?_, htaken, hmap.of_ok hcall⟩
    rw [earlyAllocAndMap, earlyAllocLoop, if_pos (Nat.succ_pos n)]
    dsimp only
    rw [Nat.sub_zero, hrun, ok_bind]
    dsimp only
    rw [if_neg (Nat.succ_ne_zero n), hcall, ok_bind, hend]

theorem secondMiB_booted : ∃ s p, initPaging smallImage (fun _ _ => 0) = .ok s ∧
    initBitmapPhysAllocator smallImage secondMiB = .ok p ∧ Booted smallImage s ∧
    (∀ f, InUse s f → ¬ p.bitmap.Free f) ∧ p.lastFreeGroupIndex = 0 ∧
    (∀ f, p.bitmap.Free f ↔ 323 ≤ f ∧ f < 512) ∧ p.freeCount = 189 ∧
    ∀ n, 0 < n → n ≤ 1024 → missingTables s 0xD0000000 n = 1 := by
  obtain ⟨s, hs, hboot⟩ := initPaging_booted smallImage fun _ _ => 0
  obtain ⟨p, hp, hhint, -, hfree⟩ := secondMiB_free
  refine ⟨s, p, hs, hp, hboot, booted_apart hp hboot, hhint, hfree, ?_, fun n hpos hn => ?_⟩
  · have hset : p.reachable = Finset.Ico 323 512 := by
      ext f
      rw [mem_reachable, Finset.mem_Ico, hfree, hhint]
      omega
    rw [Pool.freeCount, hset, Nat.card_Ico]
  · have hone : (getPteIndex 0xD0000000 + n + 1023) / 1024 = 1 := by
      rw [show getPteIndex 0xD0000000 = 0 by decide]
      omega
    have habsent : Paging.present (s.pde (getPdeIndex 0xD0000000)) = false :=
      hboot.noTable _ (by decide) (by decide)
    rw [missingTables, hone, missing, habsent]
    rfl

/-- Four pages for the descriptors, readable and writable. -/
theorem fourPages_mapped : ∃ s p s' p', initPaging smallImage (fun _ _ => 0) = .ok s ∧
    initBitmapPhysAllocator smallImage secondMiB = .ok p ∧
    earlyAllocAndMap s p 0xD0000000 4 0x50 = .ok (s', p', 4) ∧
    CoversRange s p s' 0xD0000000 4 := by
  obtain ⟨s, p, hs, hp, hboot, hapart, hhint, hfree, hcount, hmissing⟩ := secondMiB_booted
  obtain ⟨s', -, p', -, hrun, -⟩ := @earlyAllocAndMap_returns s p 0xD0000000 4 323 0x50 hboot.recursive
    hapart (by decide) (by decide) (by decide) (by rw [hhint]; decide)
    (fun f _ hlt hf => by have h := (hfree f).1 hf; omega) (fun f hge hlt => (hfree f).2 (by omega))
  have hcovers := (earlyAllocAndMap_covers_iff 0x50 hboot.recursive hapart (by decide)
    (by decide)).2 s' p' 4 hrun
  refine ⟨s, p, s', p', hs, hp, hrun, hcovers.2.2 fun _ => ?_⟩
  rw [hmissing 4 (by decide) (by decide), hcount]
  decide

/-- All the free pages at once: they are given to the range, no page is left for its table, the
result of `paging_map_pages` is not read, and the call returns with nothing mapped. -/
theorem lastPages_not_mapped : ∃ s p s' p', initPaging smallImage (fun _ _ => 0) = .ok s ∧
    initBitmapPhysAllocator smallImage secondMiB = .ok p ∧
    earlyAllocAndMap s p 0xD0000000 189 0x50 = .ok (s', p', 189) ∧
    ¬ CoversRange s p s' 0xD0000000 189 := by
  obtain ⟨s, p, hs, hp, hboot, hapart, hhint, hfree, hcount, hmissing⟩ := secondMiB_booted
  obtain ⟨s', -, p', -, hrun, -⟩ := @earlyAllocAndMap_returns s p 0xD0000000 189 323 0x50 hboot.recursive
    hapart (by decide) (by decide) (by decide) (by rw [hhint]; decide)
    (fun f _ hlt hf => by have h := (hfree f).1 hf; omega) (fun f hge hlt => (hfree f).2 (by omega))
  have hloop := (@earlyAllocLoop_ok 189 0x50 189 189 s p 0 0xD0000000 (Nat.zero_add _)
    (Nat.le_refl _) hboot.recursive hapart (by decide) (by decide)).of_ok hrun
  refine ⟨s, p, s', p', hs, hp, hrun, fun hcovers => ?_⟩
  have h := (hloop.2.covers_iff (by decide)).1 hcovers (by decide)
  rw [hmissing 189 (by decide) (by decide), hcount] at h
  omega

end X86Kernel.Frame
