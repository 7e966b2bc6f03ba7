import X86Kernel.Memory.Manager
import X86Kernel.Memory.PfnHandler.EarlyMap

/- The bump allocator of `init_pfn_descriptors`, which puts the descriptors at the start of the
   kernel's area, in pages from the bitmap.

   The invariant is `Early`: since the start pages have been taken from the bitmap for tables and
   for addresses of the area, and what is mapped there has a frame that was free, is not any more,
   and is no table.

   Correspondence (C ↔ Lean):
     `bump_vars_t`      ↔ `BumpVars`
     `init_bump`        ↔ `initBump`
     `bump_alloc_align` ↔ `bumpAllocAlign` (`growBump`) -/
namespace X86Kernel.Manager
open Lib X86Kernel.Boot X86Kernel.BitmapAlloc X86Kernel.Paging X86Kernel.Frame

/-- `PAGING_FLAG_WRITE | PAGING_FLAG_READ` -/
def pagingFlagsReadWrite : Nat := 0x50

/-- `INIT_SIZE` -/
def initSize : Nat := 0x4000

/-- `bump_vars_t`. -/
structure BumpVars where
  maxAddr : Nat
  allocAddr : Nat
  beginAddr : Nat

def initBump (s : Space) (p : Pool) (beginAddrVa : Nat) : Kernel (Space × Pool × BumpVars) := do
  let pagesCount := roundPageUp initSize / pageSize
  let (s, p, mapped) ← earlyAllocAndMap s p beginAddrVa pagesCount pagingFlagsReadWrite
  assert (decide (mapped ≠ 0))
  return (s, p, ⟨u32 (beginAddrVa + pagesCount * pageSize), beginAddrVa, beginAddrVa⟩)

/-- `if (needed_end > bump.max_addr)`: pages are added. -/
def growBump (s : Space) (p : Pool) (bump : BumpVars) (neededEnd : Nat) :
    Kernel (Space × Pool × BumpVars) :=
  if bump.maxAddr < neededEnd then do
    let newMax := roundPageUp neededEnd
    let delta := sub32 newMax bump.maxAddr
    let (s, p, mapped) ←
      earlyAllocAndMap s p bump.maxAddr (delta / pageSize) pagingFlagsReadWrite
    assert (decide (mapped ≠ 0))
    return (s, p, { bump with maxAddr := newMax })
  else .ok (s, p, bump)

/-- `bump_alloc_align`, with the address it returns. -/
def bumpAllocAlign (s : Space) (p : Pool) (bump : BumpVars) (size alignment : Nat) :
    Kernel (Space × Pool × BumpVars × Nat) :=
  let alignment := alignUpPow2 (if alignment < 4 then 4 else alignment)
  let alignedAddr := u32 (bump.allocAddr + alignment - 1) / alignment * alignment
  if sub32 0xFFFFFFFF size < alignedAddr then .error .abort
  else do
    let neededEnd := u32 (alignedAddr + size)
    let (s, p, bump) ← growBump s p bump neededEnd
    return (s, p, { bump with allocAddr := neededEnd }, alignedAddr)

/-! ## Pages from the bitmap -/

/-- Since the bitmap was `p₀`, pages have been taken from it for tables and for the addresses from
`mmAreaVirt` on. -/
structure Early (p₀ : Pool) (s : Space) (p : Pool) : Prop where
  recursive : Recursive s
  apart : ∀ f, InUse s f → ¬ p.bitmap.Free f
  zero : ¬ p.bitmap.Free 0
  free : ∀ f, p.bitmap.Free f → p₀.bitmap.Free f
  /-- A page there has a frame that was free, is not any more and is no table. -/
  high : ∀ q < 1023 * 1024, mmAreaVirt / pageSize ≤ q → present (s.entry q) = true →
    p₀.bitmap.Free (frameOf (s.entry q)) ∧ ¬ p.bitmap.Free (frameOf (s.entry q)) ∧
      ¬ InUse s (frameOf (s.entry q))

/-- The directory is the same, and no page outside `n` pages from `page` on has another entry. -/
structure Elsewhere (s s' : Space) (page n : Nat) : Prop where
  dir : s'.dir = s.dir
  entry : ∀ q < 1023 * 1024, q < page ∨ page + n ≤ q → s'.entry q = s.entry q

theorem Elsewhere.refl (s : Space) (page n : Nat) : Elsewhere s s page n := ⟨rfl, fun _ _ _ => rfl⟩

section Mapping

variable {p₀ p p₁ p' : Pool} {s s' : Space} {pa va count m start pagingFlags : Nat} {done : Bool}

theorem walk_tables (hs : Recursive s) (happart : ∀ f, InUse s f → ¬ p.bitmap.Free f)
    (hzero : ¬ p.bitmap.Free 0) (hpa : pa % pageSize = 0) (hlt : pa < 2 ^ 32)
    (hva : va % pageSize = 0) (hrange : va + count * pageSize ≤ 0xFFC00000)
    (hrun : pagingMapPages bitmapAllocPage s p pa va count pagingFlags = .ok (s', p', done)) :
    Recursive s' ∧ (∀ f, InUse s' f → ¬ p'.bitmap.Free f ∧ (InUse s f ∨ p.bitmap.Free f)) ∧
      (∀ f, p'.bitmap.Free f → p.bitmap.Free f) ∧ s'.dir = s.dir ∧
      ∃ n ≤ count, Maps s s' (va / pageSize) n fun k =>
        pageEntry (u32 (pa + k * 4096)) (pagingToHwFlags (pagingFlags ||| 1)) := by
  have hcount : 1 ≤ count := by
    obtain ⟨-, -, hrest⟩ := exists_of_bind_eq_ok hrun
    obtain ⟨-, -, hrest⟩ := exists_of_bind_eq_ok hrest
    obtain ⟨u, hpos, -⟩ := exists_of_bind_eq_ok hrest
    by_contra hnone
    have hfalse : decide (count > 0) = false := decide_eq_false (by omega)
    rw [hfalse] at hpos
    cases hpos
  have hfresh : Fresh (fun f => InUse s f ∨ p.bitmap.Free f) p (InUse s) :=
    ⟨fun f hf => ⟨happart f hf, .inl hf⟩, fun f hf => .inr hf, fun _ => hzero⟩
  obtain ⟨hs', hfresh', hgrows, ⟨n, hn⟩, -⟩ := ((bitmapAllocPage_allocator _).pagingMapPages
    pagingFlags hs hpa hlt hva hcount hrange hfresh).of_ok hrun
  have hdir : s'.dir = s.dir := by
    have hpde := hgrows.present hs.here
    exact hs'.self.symm.trans ((congrArg frameOf hpde).trans hs.self)
  refine ⟨hs', hfresh'.used, fun f hf => ?_, hdir, n, hn.le, hn.maps⟩
  -- what is free now was free before, or it would be a table of `s` now
  cases hfresh'.free f hf with
  | inl hused => exact absurd hf (hfresh'.used f (hgrows.inUse hused)).1
  | inr hfree => exact hfree

theorem elsewhere_of_maps {e : Nat → Nat} {n page : Nat} (hdir : s'.dir = s.dir)
    (h : Maps s s' page n e) (hn : n ≤ count) : Elsewhere s s' page count := by
  refine ⟨hdir, fun q hq hout => ?_⟩
  rw [h q hq, if_neg (by omega)]

theorem Early.map (h : Early p₀ s p) (hrun : FirstRun p count start m) (htaken : Taken p p₁ start m)
    (hva : va % pageSize = 0) (hrange : va + m * pageSize ≤ 0xFFC00000)
    (hcall : pagingMapPages bitmapAllocPage s p₁ (start * pageSize) va m pagingFlags =
      .ok (s', p', done)) :
    Early p₀ s' p' ∧ Elsewhere s s' (va / pageSize) m := by
  have hlt : ∀ i, i < m → (start + i) * pageSize < 2 ^ 32 := by
    intro i hi
    have := (hrun.free (start + i) (by omega) (by omega)).lt
    unfold pagesArrSize pageSize at *
    omega
  have hpos := hrun.pos
  have hp₁ : ∀ f, p₁.bitmap.Free f → p.bitmap.Free f := fun f hf => ((htaken.free f).1 hf).1
  obtain ⟨hs', hused, hfree, hdir, n, hn, hmaps⟩ := walk_tables h.recursive
    (fun f hf hf₁ => h.apart f hf (hp₁ f hf₁)) (fun hf => h.zero (hp₁ 0 hf))
    (Nat.mul_mod_left start pageSize) (hlt 0 hpos) hva hrange hcall
  have hout : ∀ f, p.bitmap.Free f → InUse s' f → p₁.bitmap.Free f := fun f hf hu =>
    (hused f hu).2.resolve_left fun hold => h.apart f hold hf
  refine ⟨⟨hs', fun f hf => (hused f hf).1, fun hf => h.zero (hp₁ 0 (hfree 0 hf)),
    fun f hf => h.free f (hp₁ f (hfree f hf)), fun q hq hhigh hp => ?_⟩,
    elsewhere_of_maps hdir hmaps hn⟩
  rw [hmaps q hq] at hp ⊢
  by_cases hin : va / pageSize ≤ q ∧ q < va / pageSize + n
  · rw [if_pos hin]
    dsimp only
    generalize hi : q - va / pageSize = i
    have haddr : u32 (start * pageSize + i * 4096) = (start + i) * pageSize := by
      rw [show start * pageSize + i * 4096 = (start + i) * pageSize from (Nat.add_mul ..).symm]
      exact u32_of_lt (hlt i (by omega))
    have hwas := htaken.was (start + i) (by omega) (by omega)
    have hnot : ¬ p₁.bitmap.Free (start + i) := fun hf =>
      ((htaken.free _).1 hf).2 ⟨by omega, by omega⟩
    rw [haddr, (pageEntry_frame (start + i) pagingFlags).1]
    exact ⟨h.free _ hwas, fun hf => hnot (hfree _ hf), fun hu => hnot (hout _ hwas hu)⟩
  · rw [if_neg hin] at hp ⊢
    obtain ⟨hwas, hnot, hnone⟩ := h.high q hq hhigh hp
    refine ⟨hwas, fun hf => hnot (hp₁ _ (hfree _ hf)), fun hu => ?_⟩
    exact (hused _ hu).2.elim hnone fun hf => hnot (hp₁ _ hf)

end Mapping

theorem Early.loop {p₀ : Pool} (totalPages pagingFlags : Nat) : ∀ (fuel r : Nat) {s s' : Space}
    {p p' : Pool} {mapped va n : Nat}, Early p₀ s p → mapped + r = totalPages →
    va % pageSize = 0 → va + r * pageSize ≤ 0xFFC00000 →
    earlyAllocLoop totalPages pagingFlags fuel s p mapped va = .ok (s', p', n) →
    Early p₀ s' p' ∧ Elsewhere s s' (va / pageSize) r := by
  intro fuel
  induction fuel with
  | zero =>
    intro r s s' p p' mapped va n h hr _ _ hrun
    rw [earlyAllocLoop] at hrun
    split_ifs at hrun
    cases hrun
    exact ⟨h, .refl _ _ _⟩
  | succ fuel ih =>
    intro r s s' p p' mapped va n h hr hva hrange hrun
    rw [earlyAllocLoop] at hrun
    by_cases hzero : r = 0
    · rw [if_neg (by omega)] at hrun
      cases hrun
      exact ⟨h, .refl _ _ _⟩
    · have hremaining : totalPages - mapped = r := by omega
      rw [if_pos (by omega), hremaining] at hrun
      dsimp only at hrun
      cases bitmapAllocPages_ok p (Nat.pos_of_ne_zero hzero) with
      | inl hnone =>
        rw [hnone.1] at hrun
        cases hrun
      | inr hfound =>
        obtain ⟨p₁, start, m, hpages, hm, htaken⟩ := hfound
        have hpos := hm.pos
        have hle := hm.le
        have hchunk : m * pageSize ≤ r * pageSize := Nat.mul_le_mul_right _ hle
        rw [hpages, ok_bind] at hrun
        dsimp only at hrun
        rw [if_neg (by omega)] at hrun
        obtain ⟨⟨s₁, p₂, done⟩, hcall, hrest⟩ := exists_of_bind_eq_ok hrun
        dsimp only at hrest
        rw [u32_of_lt (by omega)] at hrest
        obtain ⟨h₁, helse₁⟩ := h.map hm htaken hva (by omega) hcall
        obtain ⟨h₂, helse₂⟩ := ih (r - m) h₁ (by omega)
          (by rw [Nat.add_mul_mod_self_right]; exact hva)
          (by rw [Nat.add_assoc, ← Nat.add_mul, Nat.add_sub_of_le hle]; exact hrange) hrest
        rw [Nat.add_mul_div_right _ _ (show 0 < pageSize by decide)] at helse₂
        refine ⟨h₂, helse₂.dir.trans helse₁.dir, fun q hq hout => ?_⟩
        rw [helse₂.entry q hq (by omega), helse₁.entry q hq (by omega)]

theorem Early.alloc {p₀ p p' : Pool} {s s' : Space} {va totalPages pagingFlags n : Nat}
    (h : Early p₀ s p) (hva : va % pageSize = 0) (hrange : va + totalPages * pageSize ≤ 0xFFC00000)
    (hrun : earlyAllocAndMap s p va totalPages pagingFlags = .ok (s', p', n)) :
    Early p₀ s' p' ∧ Elsewhere s s' (va / pageSize) totalPages :=
  Early.loop totalPages pagingFlags totalPages totalPages h (Nat.zero_add _) hva hrange hrun

/-- What is mapped in the area has a frame that was taken from the bitmap. -/
theorem Early.walked {p₀ p : Pool} {s : Space} {va f : Nat} (h : Early p₀ s p)
    (hge : mmAreaVirt ≤ va) (hlt : va < 0xE0000000) (hwalk : walk s va = .ok f) :
    p₀.bitmap.Free f ∧ ¬ p.bitmap.Free f ∧ ¬ InUse s f := by
  rw [walk_eq_entry] at hwalk
  split_ifs at hwalk with hpresent
  cases hwalk
  apply h.high _ _ _ hpresent
  · unfold pageSize
    omega
  · exact Nat.div_le_div_right hge

/-! ## The bump allocator -/

section Bump

variable {p₀ p p' : Pool} {s s' : Space} {bump : BumpVars} {addr : Nat}

theorem Elsewhere.mono {page n page' n' : Nat} (h : Elsewhere s s' page n) (hlow : page' ≤ page)
    (hhigh : page + n ≤ page' + n') : Elsewhere s s' page' n' :=
  ⟨h.dir, fun q hq hout => h.entry q hq (by omega)⟩

theorem Elsewhere.trans {s₁ : Space} {page n : Nat} (h : Elsewhere s s₁ page n)
    (h' : Elsewhere s₁ s' page n) : Elsewhere s s' page n :=
  ⟨h'.dir.trans h.dir, fun q hq hout => (h'.entry q hq hout).trans (h.entry q hq hout)⟩

theorem initBump_ok (h : Early p₀ s p) (hrun : initBump s p mmAreaVirt = .ok (s', p', bump)) :
    Early p₀ s' p' ∧ Elsewhere s s' (mmAreaVirt / pageSize) 4 ∧
      bump = ⟨mmAreaVirt + 4 * pageSize, mmAreaVirt, mmAreaVirt⟩ := by
  have hcount : roundPageUp initSize / pageSize = 4 := by decide
  unfold initBump at hrun
  rw [hcount] at hrun
  obtain ⟨⟨s₁, p₁, mapped⟩, hcall, hrest⟩ := exists_of_bind_eq_ok hrun
  obtain ⟨-, -, hret⟩ := exists_of_bind_eq_ok hrest
  cases hret
  obtain ⟨h₁, helse⟩ := h.alloc (by decide) (by decide) hcall
  exact ⟨h₁, helse, rfl⟩

theorem growBump_ok {neededEnd : Nat} (h : Early p₀ s p) (hmax : bump.maxAddr % pageSize = 0)
    (hneeded : neededEnd ≤ 0xF0000000) {bump' : BumpVars}
    (hrun : growBump s p bump neededEnd = .ok (s', p', bump')) :
    Early p₀ s' p' ∧ Elsewhere s s' (bump.maxAddr / pageSize) 0x100000 ∧
      bump'.allocAddr = bump.allocAddr ∧ bump'.beginAddr = bump.beginAddr := by
  unfold growBump at hrun
  by_cases hgrow : bump.maxAddr < neededEnd
  · rw [if_pos hgrow] at hrun
    obtain ⟨⟨s₁, p₁, mapped⟩, hcall, hrest⟩ := exists_of_bind_eq_ok hrun
    obtain ⟨-, -, hret⟩ := exists_of_bind_eq_ok hrest
    cases hret
    have hnew : neededEnd ≤ roundPageUp neededEnd ∧ roundPageUp neededEnd ≤ 0xF0000000 := by
      have hsum : u32 (neededEnd + pageSize - 1) = neededEnd + pageSize - 1 := by
        apply u32_of_lt
        unfold pageSize
        omega
      rw [roundPageUp, hsum]
      unfold pageSize
      omega
    have hpages := Nat.div_mul_le_self (sub32 (roundPageUp neededEnd) bump.maxAddr) pageSize
    rw [sub32_of_le (by omega) (by omega)] at hpages hcall
    obtain ⟨h₁, helse⟩ := h.alloc hmax (by omega) hcall
    refine ⟨h₁, helse.mono (Nat.le_refl _) ?_, rfl, rfl⟩
    unfold pageSize
    omega
  · rw [if_neg hgrow] at hrun
    cases hrun
    exact ⟨h, .refl _ _ _, rfl, rfl⟩

/-- The descriptors are put at the start of the area, and there are pages up to their end. -/
theorem bumpAllocAlign_ok {size : Nat} (h : Early p₀ s p) (hsize : size < 0x10000000)
    (hrun : bumpAllocAlign s p ⟨mmAreaVirt + 4 * pageSize, mmAreaVirt, mmAreaVirt⟩ size 0 =
      .ok (s', p', bump, addr)) :
    Early p₀ s' p' ∧ Elsewhere s s' (mmAreaVirt / pageSize) 0x100004 ∧ addr = mmAreaVirt ∧
      bump.allocAddr = mmAreaVirt + size ∧ bump.beginAddr = mmAreaVirt := by
  have halign : alignUpPow2 (if 0 < 4 then 4 else 0) = 4 := by decide
  have haddr : u32 (mmAreaVirt + 4 - 1) / 4 * 4 = mmAreaVirt := by decide
  have hlt : mmAreaVirt + size < 0xE0000000 := by
    unfold mmAreaVirt
    omega
  have hend : u32 (mmAreaVirt + size) = mmAreaVirt + size := u32_of_lt (by omega)
  unfold bumpAllocAlign at hrun
  simp only [halign, haddr, hend] at hrun
  split_ifs at hrun
  obtain ⟨⟨s₁, p₁, bump₁⟩, hgrow, hret⟩ := exists_of_bind_eq_ok hrun
  obtain ⟨h₁, helse, halloc, hbegin⟩ := growBump_ok h (by decide) (by omega) hgrow
  cases hret
  exact ⟨h₁, helse.mono (by decide) (by decide), rfl, rfl, hbegin⟩

end Bump

end X86Kernel.Manager
