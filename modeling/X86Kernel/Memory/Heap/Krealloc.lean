import X86Kernel.Memory.Heap.State

/- `krealloc` keeps the data.

   An allocation that is large enough stays where it is, and an object of a custom cache cannot
   grow. Otherwise a place is taken, the old contents are copied there, and the old allocation
   is given back; the old and the new one may each be a block or an object of a slab, and
   giving the old one back may turn its slab into a block and join that with others.

   What is proved, for every intact heap and every live allocation: each of these cases ends as
   described, with the other live allocations as they were (`krealloc_keeps_data`). -/
namespace X86Kernel.Heap
open X86Kernel.Lib

variable {ω : Type}

/-! ## The copy -/

theorem copyWords_same : ∀ (n : Nat) (s : HeapVars ω) (dst src : Nat),
    ∃ m, copyWords n s dst src = { s with mem := m }
  | 0, s, _, _ => ⟨s.mem, rfl⟩
  | n + 1, s, dst, src => copyWords_same n (s.store dst (s.mem src)) (dst + 4) (src + 4)

theorem copyWords_slabs (n : Nat) (s : HeapVars ω) (dst src : Nat) :
    (copyWords n s dst src).slabs = s.slabs := by
  obtain ⟨m, hm⟩ := copyWords_same n s dst src
  rw [hm]

theorem copyWords_mem_of_ne : ∀ {n : Nat} {s : HeapVars ω} {dst src x : Nat},
    ¬ Inside dst (4 * n) x → (copyWords n s dst src).mem x = s.mem x
  | 0, _, _, _, _, _ => rfl
  | n + 1, s, dst, src, x, hx => by
    have htail : ¬ Inside (dst + 4) (4 * n) x := fun hin => hx ⟨by have := hin.1; omega, by
      have := hin.2; omega⟩
    have hne : x ≠ dst := by
      rintro rfl
      exact hx ⟨Nat.le_refl _, by omega⟩
    rw [copyWords, copyWords_mem_of_ne htail]
    exact if_neg hne

theorem copyWords_mem : ∀ {n : Nat} {s : HeapVars ω} {dst src : Nat},
    dst + 4 * n ≤ src ∨ src + 4 * n ≤ dst → ∀ i < n,
    (copyWords n s dst src).mem (dst + 4 * i) = s.mem (src + 4 * i)
  | 0, _, _, _, _, i, hi => absurd hi (Nat.not_lt_zero i)
  | n + 1, s, dst, src, hapart, i, hi => by
    rw [copyWords]
    cases i with
    | zero =>
      have hout : ¬ Inside (dst + 4) (4 * n) dst := fun hin => by
        have := hin.1
        omega
      show (copyWords n (s.store dst (s.mem src)) (dst + 4) (src + 4)).mem dst = s.mem src
      rw [copyWords_mem_of_ne hout]
      exact if_pos rfl
    | succ i =>
      have hdst : dst + 4 * (i + 1) = dst + 4 + 4 * i := by omega
      have hsrc : src + 4 * (i + 1) = src + 4 + 4 * i := by omega
      rw [hdst, hsrc, copyWords_mem (by omega) i (by omega)]
      exact if_neg (by omega)

theorem liveAlloc_of_slabs {s t : HeapVars ω} {out : Nat → Nat → Prop} {g : Nat → Option Slab}
    (h : t.slabs = s.slabs) (b m : Nat) : LiveAlloc t out g b m ↔ LiveAlloc s out g b m := by
  constructor
  · rintro (⟨hb, hnone⟩ | ⟨hB, hobj, hfree⟩)
    · exact .block hb hnone
    · rw [h] at hobj ⊢
      exact .object hB hobj hfree
  · rintro (⟨hb, hnone⟩ | ⟨hB, hobj, hfree⟩)
    · exact .block hb hnone
    · rw [← h] at hobj ⊢
      exact .object hB hobj hfree

/-! ## The move -/

/-- The allocation of `c` bytes at `addr` is now the one of `n` bytes at `a`. -/
structure Moved (W : World ω) (C : Nat → Prop) (s : HeapVars ω) (o : Nat → Option Nat)
    (g : Nat → Option Slab) (addr c a n : Nat) (t : HeapVars ω) : Prop where
  placed : Placed s (Held o) g a n
  intact : ∃ L' o' g', Intact W C t L' o' g' ∧ ∀ b m, LiveAlloc t (Held o') g' b m ↔
    LiveAlloc s (Held o) g b m ∧ b ≠ addr ∨ b = a ∧ m = n
  contents : ∀ i, 4 * i < c → t.mem (a + 4 * i) = s.mem (addr + 4 * i)
  others : Undisturbed (LiveAlloc s (Held o) g) addr s t

section Move

variable {W : World ω} {C : Nat → Prop} {s : HeapVars ω} {L : Nat → List Nat}
  {o : Nat → Option Nat} {g : Nat → Option Slab}

theorem Intact.copy (h : Intact W C s L o g) {a n k : Nat} (ha : LiveAlloc s (Held o) g a n)
    (hk : 4 * k ≤ n) (src : Nat) : Intact W C (copyWords k s a src) L o g := by
  obtain ⟨m, hm⟩ := copyWords_same k s a src
  rw [hm]
  apply h.write
  intro B sl x hB hx
  have hout : ¬ Inside a (4 * k) (x + 4) := by
    intro hin
    obtain ⟨hlo, hhi⟩ := hin
    exact h.node_apart hB hx ha ⟨hlo, by omega⟩
  have hmem : (copyWords k s a src).mem (x + 4) = s.mem (x + 4) := copyWords_mem_of_ne hout
  rw [hm] at hmem
  exact hmem

/-- A place was taken, the old contents are copied there and the old place is given back. -/
theorem Intact.moved {t₁ t : HeapVars ω} {L₂ : Nat → List Nat} {o₁ o₂ : Nat → Option Nat}
    {g₁ g₂ : Nat → Option Slab} {addr c a n : Nat} (hlive : LiveAlloc s (Held o) g addr c)
    (hplaced : Placed s (Held o) g a n) (hfour : 4 ∣ c)
    (hpos : 0 < c) (hcn : c ≤ n)
    (hlives₁ : ∀ b m, LiveAlloc t₁ (Held o₁) g₁ b m ↔
      LiveAlloc s (Held o) g b m ∨ b = a ∧ m = n)
    (hmem₁ : Undisturbed (LiveAlloc s (Held o) g) a s t₁) (h₂ : Intact W C t L₂ o₂ g₂)
    (hlives₂ : ∀ b m, LiveAlloc t (Held o₂) g₂ b m ↔
      LiveAlloc (copyWords (c / 4) t₁ a addr) (Held o₁) g₁ b m ∧ b ≠ addr)
    (hmem₂ : Undisturbed (LiveAlloc (copyWords (c / 4) t₁ a addr) (Held o₁) g₁) addr
      (copyWords (c / 4) t₁ a addr) t) : Moved W C s o g addr c a n t := by
  obtain ⟨k, rfl⟩ := hfour
  rw [Nat.mul_div_cancel_left k (by decide)] at hlives₂ hmem₂
  have hslabs := copyWords_slabs k t₁ a addr
  have hlives : ∀ b m, LiveAlloc (copyWords k t₁ a addr) (Held o₁) g₁ b m ↔
      LiveAlloc s (Held o) g b m ∨ b = a ∧ m = n := by
    intro b m
    rw [liveAlloc_of_slabs hslabs, hlives₁]
  have hne : ∀ {b m}, LiveAlloc s (Held o) g b m → 0 < m → b ≠ a := by
    intro b m hb hm
    have := hplaced.apart hb
    omega
  have hapart := hplaced.apart hlive
  refine ⟨hplaced, ⟨L₂, o₂, g₂, h₂, fun b m => ?_⟩, fun i hi => ?_, ?_⟩
  · rw [hlives₂, hlives]
    constructor
    · rintro ⟨hb | hb, hba⟩
      · exact .inl ⟨hb, hba⟩
      · exact .inr hb
    · rintro (⟨hb, hba⟩ | ⟨rfl, rfl⟩)
      · exact ⟨.inl hb, hba⟩
      · exact ⟨.inr ⟨rfl, rfl⟩, (hne hlive hpos).symm⟩
  · calc t.mem (a + 4 * i)
        = (copyWords k t₁ a addr).mem (a + 4 * i) :=
          hmem₂ ((hlives a n).2 (.inr ⟨rfl, rfl⟩)) (hne hlive hpos).symm ⟨by omega, by omega⟩
      _ = t₁.mem (addr + 4 * i) := copyWords_mem (by omega) i (by omega)
      _ = s.mem (addr + 4 * i) := hmem₁ hlive (hne hlive hpos) ⟨by omega, by omega⟩
  · intro b m x hb hba hx
    have hout : ¬ Inside a (4 * k) x := by
      rintro ⟨hlo, hhi⟩
      have := hplaced.apart hb
      obtain ⟨hxlo, hxhi⟩ := hx
      omega
    have hm : 0 < m := by
      obtain ⟨hxlo, hxhi⟩ := hx
      omega
    calc t.mem x = (copyWords k t₁ a addr).mem x := hmem₂ ((hlives b m).2 (.inl hb)) hba hx
      _ = t₁.mem x := copyWords_mem_of_ne hout
      _ = s.mem x := hmem₁ hb (hne hb hm) hx

end Move

/-! ## The new size -/

theorem exists_larger {e size : Nat} (he : slabExponMin ≤ e) (hlt : 2 ^ e < size)
    (hsize : size ≤ 2 ^ 31) :
    ∃ f, e < f ∧ f ≤ 31 ∧ usable size = 2 ^ f ∧ alignUpPow2 size = 2 ^ f ∧
      (size > 2 ^ slabExponMax ↔ slabExponMax < f) := by
  have hclog : e < Nat.clog 2 size := (Nat.lt_clog_iff_pow_lt (by decide)).2 hlt
  obtain ⟨f, hf, -, hmax⟩ := exists_usable size
  obtain rfl : f = Nat.clog 2 size := by omega
  exact ⟨_, hclog, (Nat.clog_le_iff_le_pow (by decide)).2 hsize, hf, alignUpPow2_eq hsize,
    (Nat.lt_clog_iff_pow_lt (by decide)).symm⟩

/-! ## `krealloc` -/

/-- The live object at `a` is one of a cache that `kcreate_slab_cache` made. -/
def CustomObject (s : HeapVars ω) (g : Nat → Option Slab) (a : Nat) : Prop :=
  ∃ c ≥ slabOrderCount, LiveObject s g c a

/-- The place that is needed is there: a block for a block, and for an object what `kmalloc`
needs. -/
def ReallocNeedsNoGrowth (W : World ω) (s : HeapVars ω) (addr newSize : Nat) : Prop :=
  if (s.desc (descOf W s addr)).flags.buddy then Served s (orderOf (usable newSize))
  else NeedsNoGrowth s newSize

section Krealloc

variable {W : World ω} {C : Nat → Prop} {s : HeapVars ω} {L : Nat → List Nat}
  {o : Nat → Option Nat} {g : Nat → Option Slab} (h : Intact W C s L o g)
include h

theorem Intact.slabOf_obj {B a : Nat} {sl : Slab} (hB : g B = some sl)
    (hobj : IsObj (s.slabs sl.cache) B a) :
    (s.desc (descOf W s a)).flags.buddy = false ∧
      slabOf s (descOf W s a) = .ok (descOf W s B) := by
  have hslab := h.slab hB
  have hin := h.obj_inside hB hobj
  rw [← (h.slabBlock hB).2] at hin
  by_cases he : descOf W s a = descOf W s B
  · rw [he, slabOf, hslab.flags]
    exact ⟨rfl, rfl⟩
  · obtain ⟨hbuddy, hhead, hpage⟩ := hslab.tail hin he
    rw [slabOf, hhead, hpage]
    exact ⟨hbuddy, rfl⟩

theorem Intact.cache_eq {a c d : Nat} (hc : LiveObject s g c a) (hd : LiveObject s g d a) :
    c = d := by
  obtain ⟨B, sl, hB, rfl, hobj, -⟩ := hc
  obtain ⟨B', sl', hB', rfl, hobj', -⟩ := hd
  obtain rfl := h.slab_eq hB hB' hobj hobj'
  obtain rfl := Option.some.inj (hB.symm.trans hB')
  rfl

theorem Intact.krealloc_block {addr k newSize : Nat} (ha : Held o addr k) (hnone : g addr = none)
    (fuel : Nat) :
    krealloc W (fuel + 1) s addr newSize =
      if 2 ^ (buddyExponMin + k) ≥ newSize then .ok (s, addr)
      else do
        let (t, a) ← allocBuddy W (fuel + 1) s (alignUpPow2 newSize)
        if a = 0 then return (t, 0)
        else
          let t ← freeBuddy W (copyWords (2 ^ (buddyExponMin + k) / 4) t a addr) addr
          return (t, a) := by
  obtain ⟨hlive, horder⟩ := h.whole ha hnone
  have hsize : getBuddySize W s addr = .ok (2 ^ (buddyExponMin + k)) := by
    unfold getBuddySize
    simp only [hlive.flags, horder, assert, if_true, ok_bind, Word.nat, Nat.add_comm k]
    rfl
  unfold krealloc
  rw [if_neg (h.live_ne_zero (.block ha hnone)), hlive.flags, hsize]
  rfl

theorem Intact.krealloc_object {addr c newSize : Nat} (ha : LiveObject s g c addr)
    (fuel : Nat) :
    krealloc W (fuel + 1) s addr newSize =
      if (s.slabs c).objSize ≥ newSize then .ok (s, addr)
      else if c ≥ slabOrderCount then .ok (s, 0)
      else
        (if (log2U32 (alignUpPow2 newSize) + 2 ^ 8 - slabExponMin) % 2 ^ 8 < slabOrderCount then
          allocSlab W (allocBuddy W (fuel + 1)) s
            ((log2U32 (alignUpPow2 newSize) + 2 ^ 8 - slabExponMin) % 2 ^ 8)
        else allocBuddy W (fuel + 1) s (alignUpPow2 newSize)) >>= fun (t, a) =>
          if a = 0 then return (t, 0)
          else do
            let t ← freeSlab W (freeBuddy W) (copyWords ((s.slabs c).objSize / 4) t a addr) addr
            return (t, a) := by
  have hzero := h.live_ne_zero ha.liveAlloc
  obtain ⟨B, sl, hB, rfl, hobj, -⟩ := ha
  obtain ⟨hbuddy, hof⟩ := h.slabOf_obj hB hobj
  have hcache : (s.desc (descOf W s B)).buddyCache.slabOrder = .ok sl.cache := by
    rw [(h.slab hB).orderCache]
    rfl
  unfold krealloc
  rw [if_neg hzero, hbuddy, hof]
  simp only [Bool.false_eq_true, if_false, ok_bind, hcache]
  split_ifs <;> rfl

theorem Intact.krealloc_grow_block {addr k newSize : Nat} (ha : Held o addr k)
    (hnone : g addr = none) (hsize : newSize ≤ 2 ^ 31) (hlt : 2 ^ (buddyExponMin + k) < newSize)
    (hserved : Served s (orderOf (usable newSize))) (fuel : Nat) :
    ∃ t a, krealloc W (fuel + 1) s addr newSize = .ok (t, a) ∧
      Moved W C s o g addr (2 ^ (buddyExponMin + k)) a (usable newSize) t := by
  obtain ⟨f, hkf, -, husable, halign, -⟩ :=
    exists_larger (by unfold slabExponMin buddyExponMin; omega) hlt hsize
  obtain ⟨j, rfl⟩ : ∃ j, f = buddyExponMin + j := ⟨f - buddyExponMin, by omega⟩
  rw [husable, orderOf_two_pow] at hserved
  obtain ⟨t₁, L₁, o₁, a, hrun, h₁, hplaced, hheld, -, hlives₁, hmem₁⟩ := h.takeBlock hserved fuel
  have hnew := (hlives₁ a _).2 (.inr ⟨rfl, rfl⟩)
  have hfour : 4 ∣ 2 ^ (buddyExponMin + k) :=
    Nat.pow_dvd_pow 2 (show 2 ≤ buddyExponMin + k by unfold buddyExponMin; omega)
  have hle : 2 ^ (buddyExponMin + k) ≤ 2 ^ (buddyExponMin + j) :=
    Nat.pow_le_pow_right (by decide) (by omega)
  have hcopy := h₁.copy hnew (le_trans (Nat.mul_div_le _ 4) hle) addr
  obtain ⟨t, L₂, o₂, hfree, h₂, hlives₂, hmem₂⟩ := hcopy.giveBlock (hheld _ _ ha) hnone
  rw [husable]
  refine ⟨t, a, ?_, Intact.moved (.block ha hnone) hplaced hfour (Nat.two_pow_pos _) hle hlives₁
    hmem₁ h₂ hlives₂ hmem₂⟩
  rw [h.krealloc_block ha hnone, if_neg (Nat.not_le.2 hlt), halign, hrun, ok_bind]
  show (if a = 0 then _ else _) = _
  rw [if_neg (h₁.live_ne_zero hnew), hfree]
  rfl

theorem Intact.krealloc_grow_object {addr c newSize : Nat} (ha : LiveObject s g c addr)
    (hc : c < slabOrderCount) (hsize : newSize ≤ 2 ^ 31) (hlt : (s.slabs c).objSize < newSize)
    (hno : NeedsNoGrowth s newSize) (fuel : Nat) :
    ∃ t a, krealloc W (fuel + 1) s addr newSize = .ok (t, a) ∧
      Moved W C s o g addr (s.slabs c).objSize a (usable newSize) t := by
  have hobj := (h.layout.sized hc).1
  rw [hobj] at hlt
  obtain ⟨f, hcf, hf, husable, halign, hlarge⟩ :=
    exists_larger (Nat.le_add_right _ _) hlt hsize
  have hlog : log2U32 (2 ^ f) = f := Nat.log2_two_pow
  have hindex : (f + 2 ^ 8 - slabExponMin) % 2 ^ 8 = f - slabExponMin := by
    unfold slabExponMin at hcf ⊢
    omega
  -- a place for the new size
  obtain ⟨t₁, L₁, o₁, g₁, a, hrun, h₁, hplaced, hstay, hlives₁, hmem₁⟩ :
      ∃ t₁ L₁ o₁ g₁ a, (if f - slabExponMin < slabOrderCount then
          allocSlab W (allocBuddy W (fuel + 1)) s (f - slabExponMin)
        else allocBuddy W (fuel + 1) s (2 ^ f)) = .ok (t₁, a) ∧
        Intact W C t₁ L₁ o₁ g₁ ∧ Placed s (Held o) g a (2 ^ f) ∧
        (∀ d b, LiveObject s g d b → LiveObject t₁ g₁ d b) ∧
        (∀ b m, LiveAlloc t₁ (Held o₁) g₁ b m ↔
          LiveAlloc s (Held o) g b m ∨ b = a ∧ m = 2 ^ f) ∧
        Undisturbed (LiveAlloc s (Held o) g) a s t₁ := by
    unfold NeedsNoGrowth at hno
    rw [husable, hlog] at hno
    by_cases hslab : slabExponMax < f
    · obtain ⟨j, rfl⟩ : ∃ j, f = buddyExponMin + j :=
        ⟨f - buddyExponMin, by unfold slabExponMax at hslab; unfold buddyExponMin; omega⟩
      rw [if_pos (hlarge.2 hslab), orderOf_two_pow] at hno
      obtain ⟨t₁, L₁, o₁, a, hrun, h₁, hplaced, -, hslabs, hlives₁, hmem₁⟩ :=
        h.takeBlock hno fuel
      rw [if_neg (by unfold slabOrderCount; omega)]
      refine ⟨t₁, L₁, o₁, g, a, hrun, h₁, hplaced, ?_, hlives₁, hmem₁⟩
      rintro d b ⟨B, sl, hB, hsc, hobj, hfree⟩
      exact ⟨B, sl, hB, hsc, by rw [hslabs]; exact hobj, hfree⟩
    · have hlt : f - slabExponMin < slabOrderCount := by
        unfold slabOrderCount
        omega
      have hexp : slabExponMin + (f - slabExponMin) = f := by omega
      rw [if_neg (fun hl => hslab (hlarge.1 hl))] at hno
      obtain ⟨t₁, L₁, o₁, g₁, a, htake⟩ := h.takeObject hlt hno fuel
      rw [hexp] at htake
      rw [if_pos hlt]
      exact ⟨t₁, L₁, o₁, g₁, a, htake⟩
  have hnew := (hlives₁ a _).2 (.inr ⟨rfl, rfl⟩)
  have hfour : 4 ∣ (s.slabs c).objSize := by
    rw [hobj]
    exact Nat.pow_dvd_pow 2 (show 2 ≤ slabExponMin + c by unfold slabExponMin; omega)
  have hpos : 0 < (s.slabs c).objSize := by
    rw [hobj]
    exact Nat.two_pow_pos _
  have hle : (s.slabs c).objSize ≤ 2 ^ f := by
    rw [hobj]
    exact Nat.pow_le_pow_right (by decide) (Nat.le_of_lt hcf)
  have hcopy := h₁.copy hnew (le_trans (Nat.mul_div_le _ 4) hle) addr
  have hold : LiveObject (copyWords ((s.slabs c).objSize / 4) t₁ a addr) g₁ c addr := by
    obtain ⟨B, sl, hB, hsc, hobj, hfree⟩ := hstay c addr ha
    exact ⟨B, sl, hB, hsc, by rw [copyWords_slabs]; exact hobj, hfree⟩
  obtain ⟨t, L₂, o₂, g₂, hfree, h₂, hlives₂, hmem₂⟩ := hcopy.giveObject (h.orders hc) hold
  rw [husable]
  refine ⟨t, a, ?_, Intact.moved ha.liveAlloc hplaced hfour hpos hle hlives₁ hmem₁ h₂ hlives₂
    hmem₂⟩
  rw [h.krealloc_object ha, if_neg (by rw [hobj]; omega), if_neg (by omega), halign, hlog,
    hindex, hrun, ok_bind]
  show (if a = 0 then _ else _) = _
  rw [if_neg (h₁.live_ne_zero hnew), hfree]
  rfl

theorem Intact.krealloc_cases {addr c newSize : Nat} (hlive : LiveAlloc s (Held o) g addr c)
    (hsize : newSize ≤ 2 ^ 31) (fuel : Nat) :
    (newSize ≤ c → krealloc W (fuel + 1) s addr newSize = .ok (s, addr)) ∧
    (c < newSize → CustomObject s g addr →
      krealloc W (fuel + 1) s addr newSize = .ok (s, 0)) ∧
    (c < newSize → ¬ CustomObject s g addr → ReallocNeedsNoGrowth W s addr newSize →
      ∃ t a n, krealloc W (fuel + 1) s addr newSize = .ok (t, a) ∧ newSize ≤ n ∧
        Moved W C s o g addr c a n t) := by
  rcases hlive with ⟨ha, hnone⟩ | @⟨B, _, sl, hB, hobj, hfree⟩
  · refine ⟨fun hle => ?_, ?_, fun hlt _ hno => ?_⟩
    · rw [h.krealloc_block ha hnone, if_pos hle]
    · -- a block is no object
      rintro - ⟨c, -, B, sl, hB, rfl, hobj, -⟩
      exact absurd rfl (h.whole_ne ha hnone hB (h.obj_inside hB hobj))
    · rw [ReallocNeedsNoGrowth, (h.whole ha hnone).1.flags] at hno
      obtain ⟨t, a, hrun, hmoved⟩ := h.krealloc_grow_block ha hnone hsize hlt hno fuel
      exact ⟨t, a, _, hrun, le_usable _, hmoved⟩
  · have ha : LiveObject s g sl.cache addr := ⟨B, sl, hB, rfl, hobj, hfree⟩
    refine ⟨fun hle => ?_, ?_, fun hlt hcustom hno => ?_⟩
    · rw [h.krealloc_object ha, if_pos hle]
    · rintro hlt ⟨c, hc, hcobj⟩
      obtain rfl : c = sl.cache := h.cache_eq hcobj ha
      rw [h.krealloc_object ha, if_neg (Nat.not_le.2 hlt), if_pos hc]
    · rw [ReallocNeedsNoGrowth, (h.slabOf_obj hB hobj).1] at hno
      have hc : sl.cache < slabOrderCount := Nat.not_le.1 fun hc => hcustom ⟨_, hc, ha⟩
      obtain ⟨t, a, hrun, hmoved⟩ := h.krealloc_grow_object ha hc hsize hlt hno fuel
      exact ⟨t, a, _, hrun, le_usable _, hmoved⟩

end Krealloc

/-- `krealloc` of a live allocation to any size up to 2^31 that needs no growth: what is large
enough stays, with the heap as it was; an object of a custom cache that is too small is left as
it is, for NULL; anything else that is too small is moved. -/
theorem krealloc_keeps_data {W : World ω} {C : Nat → Prop} {s : HeapVars ω} {L : Nat → List Nat}
    {o : Nat → Option Nat} {g : Nat → Option Slab} (h : Intact W C s L o g)
    {addr c newSize : Nat} (hlive : LiveAlloc s (Held o) g addr c) (hsize : newSize ≤ 2 ^ 31)
    (fuel : Nat) :
    (newSize ≤ c → krealloc W (fuel + 1) s addr newSize = .ok (s, addr)) ∧
    (c < newSize → CustomObject s g addr →
      krealloc W (fuel + 1) s addr newSize = .ok (s, 0)) ∧
    (c < newSize → ¬ CustomObject s g addr → ReallocNeedsNoGrowth W s addr newSize →
      ∃ t a n, krealloc W (fuel + 1) s addr newSize = .ok (t, a) ∧ newSize ≤ n ∧
        Moved W C s o g addr c a n t) :=
  h.krealloc_cases hlive hsize fuel

def fourPageWorld : World Unit where
  descOf _ p := if 4 ≤ p ∧ p < 8 then p else 0
  mmAllocPages _ _ := .error .abort
  pfnToPa _ _ := 0
  pagingMapPages _ _ _ _ _ := .error .abort
  markRegion _ _ _ _ := .error .abort

/-- A heap of four pages: the first one is live, the second one is free, and so is the block of
the other two. -/
def fourPageHeap : HeapVars Unit where
  world := ()
  desc i := {
    flags := ⟨i = 5 ∨ i = 6, 4 ≤ i ∧ i ≤ 6, 4 ≤ i ∧ i ≤ 6⟩
    numPages := .num (if i = 6 then 2 else 1)
    virtAddr := i * pageSize
    buddyOrder := .num (if i = 6 then 1 else 0)
    prevFree := .num 0
    nextFree := .num 0
    buddyCache := .buddies (if i = 6 then 1 else 0) }
  mem x := .num x
  freeBuddies k := if k = 0 then some 5 else if k = 1 then some 6 else none
  slabs := kmallocOrder
  intervalCache := 0
  minAddr := 0x4000
  curMaxAddr := 0x8000
  reservedMaxAddr := 0x8000
  curSize := 0x4000
  reservedMaxSize := 0x4000

def fourPageFree (k : Nat) : List Nat := if k = 0 then [0x5000] else if k = 1 then [0x6000] else []

def fourPageOut (a : Nat) : Option Nat := if a = 0x4000 then some (2 ^ buddyExponMin) else none

theorem mem_fourPageFree {a k : Nat} :
    a ∈ fourPageFree k ↔ a = 0x5000 ∧ k = 0 ∨ a = 0x6000 ∧ k = 1 := by
  by_cases hk : k = 0
  · simp [fourPageFree, hk]
  · by_cases hk : k = 1 <;> simp [fourPageFree, *]

theorem held_fourPageOut {a k : Nat} : Held fourPageOut a k ↔ a = 0x4000 ∧ k = 0 := by
  have hsize : 2 ^ buddyExponMin = 2 ^ (buddyExponMin + k) ↔ k = 0 := by
    rw [Nat.pow_right_inj (by decide)]
    omega
  by_cases ha : a = 0x4000
  · rw [Held, fourPageOut, if_pos ha, Option.some.injEq, hsize]
    exact (and_iff_right ha).symm
  · simp [Held, fourPageOut, ha]

theorem block_fourPage {a k : Nat} (h : a ∈ fourPageFree k ∨ Held fourPageOut a k) :
    a = 0x4000 ∧ k = 0 ∨ a = 0x5000 ∧ k = 0 ∨ a = 0x6000 ∧ k = 1 := by
  rw [mem_fourPageFree, held_fourPageOut] at h
  tauto

theorem fourPage_packing :
    Packing buddyExponMin (fun a k => a ∈ fourPageFree k ∨ Held fourPageOut a k) 0x4000 0x8000 := by
  have hzero : 2 ^ (buddyExponMin + 0) = 0x1000 := rfl
  have hone : 2 ^ (buddyExponMin + 1) = 0x2000 := rfl
  constructor
  · intro a k ha
    rcases block_fourPage ha with ⟨rfl, rfl⟩ | ⟨rfl, rfl⟩ | ⟨rfl, rfl⟩ <;> decide
  · intro a k ha
    rcases block_fourPage ha with ⟨rfl, rfl⟩ | ⟨rfl, rfl⟩ | ⟨rfl, rfl⟩ <;> decide
  · intro a k b l x ha hb hax hxa hbx hxb
    rcases block_fourPage ha with ⟨rfl, rfl⟩ | ⟨rfl, rfl⟩ | ⟨rfl, rfl⟩ <;>
      rcases block_fourPage hb with ⟨rfl, rfl⟩ | ⟨rfl, rfl⟩ | ⟨rfl, rfl⟩ <;>
      simp only [hzero, hone] at hxa hxb <;> omega

theorem fourPage_alone {p q : Nat} (hlo : 0x4000 ≤ p * pageSize) (hhi : p * pageSize < 0x8000)
    (he : fourPageWorld.descOf () p = fourPageWorld.descOf () q) : p = q := by
  unfold pageSize at hlo hhi
  have hp : 4 ≤ p ∧ p < 8 := by omega
  simp only [fourPageWorld, if_pos hp] at he
  split at he <;> omega

theorem fourPageHeap_lists :
    FreeLists fourPageHeap fun k => (fourPageFree k).map (descOf fourPageWorld fourPageHeap) where
  linked k := by
    by_cases hk : k = 0
    · simp [hk, fourPageFree, fourPageHeap, Linked, descOf, fourPageWorld, pageSize, nextOf,
        prevOf, Word.ptr?]
    · by_cases hk : k = 1 <;> simp [*, fourPageFree, fourPageHeap, Linked, descOf, fourPageWorld,
        pageSize, nextOf, prevOf, Word.ptr?]
  nodup k := by
    by_cases hk : k = 0
    · simp [hk, fourPageFree]
    · by_cases hk : k = 1 <;> simp [*, fourPageFree]
  apart {k l i} hk hl := by
    obtain ⟨x, hx, rfl⟩ := List.mem_map.1 hk
    obtain ⟨y, hy, he⟩ := List.mem_map.1 hl
    revert he
    rcases mem_fourPageFree.1 hx with ⟨rfl, rfl⟩ | ⟨rfl, rfl⟩ <;>
      rcases mem_fourPageFree.1 hy with ⟨rfl, rfl⟩ | ⟨rfl, rfl⟩ <;> decide
  ptrs _ := ⟨isPtr_null, isPtr_null⟩

theorem fourPageHeap_tally : Tally fourPageWorld fourPageHeap fourPageFree fourPageOut where
  lists := fourPageHeap_lists
  head ha := by
    rcases mem_fourPageFree.1 ha with ⟨rfl, rfl⟩ | ⟨rfl, rfl⟩ <;>
      exact ⟨by decide, by decide⟩
  packing := ⟨fun ha => fourPage_packing.aligned (.inl ha),
    fun ha => fourPage_packing.inside (.inl ha),
    fun x ha hb => fourPage_packing.apart x (.inl ha) (.inl hb)⟩
  order ha := by
    rcases mem_fourPageFree.1 ha with ⟨rfl, rfl⟩ | ⟨rfl, rfl⟩ <;> decide
  bound := by decide
  inj hlo hhi _ _ he := fourPage_alone hlo hhi he
  flags ha := by
    rcases mem_fourPageFree.1 ha with ⟨rfl, rfl⟩ | ⟨rfl, rfl⟩ <;> decide
  cache ha := by
    rcases mem_fourPageFree.1 ha with ⟨rfl, rfl⟩ | ⟨rfl, rfl⟩ <;> decide
  only i hi := by
    have hcases : i = 5 ∨ i = 6 := by
      have hand : (i = 5 ∨ i = 6) ∧ 4 ≤ i ∧ i ≤ 6 := by simpa [fourPageHeap] using hi
      exact hand.1
    rcases hcases with rfl | rfl
    · exact ⟨0x5000, 0, mem_fourPageFree.2 (.inl ⟨rfl, rfl⟩), by decide⟩
    · exact ⟨0x6000, 1, mem_fourPageFree.2 (.inr ⟨rfl, rfl⟩), by decide⟩
  orders ha := by
    rcases mem_fourPageFree.1 ha with ⟨rfl, rfl⟩ | ⟨rfl, rfl⟩ <;> decide
  blocks := fourPage_packing
  out {a n} ha := by
    by_cases ha' : a = 0x4000
    · rw [fourPageOut, if_pos ha'] at ha
      cases ha
      exact ⟨0, Nat.zero_le _, rfl⟩
    · rw [fourPageOut, if_neg ha'] at ha
      cases ha
  listed ha := by
    rcases mem_fourPageFree.1 ha with ⟨rfl, rfl⟩ | ⟨rfl, rfl⟩ <;> decide
  alone hlo hhi he := fourPage_alone hlo hhi he
  low := by decide

theorem fourPageHeap_intact : Intact fourPageWorld (· < slabOrderCount) fourPageHeap fourPageFree
    fourPageOut fun _ => none where
  tally := fourPageHeap_tally
  sizes _ := ⟨rfl, rfl⟩
  orders hc := hc
  sized hc := kmallocOrder_sized hc
  slab hB := by cases hB
  slabBlock hB := by cases hB
  node hB := by cases hB
  avail _ := ⟨[], ⟨List.nodup_nil, rfl, (fun hB => by cases hB), (fun hB => by cases hB)⟩,
    fun B => ⟨(fun hB => by cases hB), (fun ⟨_, hB, _⟩ => by cases hB)⟩⟩
  whole ha _ := by
    obtain ⟨rfl, rfl⟩ := held_fourPageOut.1 ha
    exact ⟨⟨by decide, by decide, by decide⟩, by decide⟩

/-- The live page grows to two pages: it is moved, and then joined with the free one. -/
theorem fourPageHeap_krealloc :
    ∃ t a n, krealloc fourPageWorld 1 fourPageHeap 0x4000 5000 = .ok (t, a) ∧ 5000 ≤ n ∧
      Moved fourPageWorld (· < slabOrderCount) fourPageHeap fourPageOut (fun _ => none) 0x4000
        (2 ^ (buddyExponMin + 0)) a n t := by
  have hlive : LiveAlloc fourPageHeap (Held fourPageOut) (fun _ => none) 0x4000
      (2 ^ (buddyExponMin + 0)) := .block (held_fourPageOut.2 ⟨rfl, rfl⟩) rfl
  obtain ⟨-, -, hmoved⟩ :=
    krealloc_keeps_data fourPageHeap_intact hlive (show 5000 ≤ 2 ^ 31 by decide) 0
  refine hmoved (by decide) ?_ ?_
  · rintro ⟨c, -, B, sl, hB, -⟩
    cases hB
  · have husable : orderOf (usable 5000) = 1 := by
      obtain ⟨f, -, -, husable, halign, -⟩ :=
        exists_larger (show slabExponMin ≤ 12 by decide) (show 2 ^ 12 < 5000 by decide)
          (by decide)
      rw [husable, ← halign]
      decide
    rw [ReallocNeedsNoGrowth, if_pos (by decide), husable]
    exact ⟨1, Nat.le_refl _, by decide, by decide⟩

end X86Kernel.Heap
