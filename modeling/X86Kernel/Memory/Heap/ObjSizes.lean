import Mathlib.Order.Bounds.Basic
import X86Kernel.Memory.Heap.SlabRuns

/- The powers of two that the slabs are sized with (`align_up_pow2`, `log2_u32` and
   `pages_for_obj_size`).

   What is proved: `align_up_pow2` gives the least power of two that is not smaller, as
   long as that fits into 32 bits, and the pages of a slab are a power of two that its
   objects fit into (`objSizes_pow2`). -/
namespace X86Kernel.Heap

theorem alignUpPow2_isLeast {v : Nat} (hpos : 1 ≤ v) (hle : v ≤ 2 ^ 31) :
    IsLeast {p | (∃ k, p = 2 ^ k) ∧ v ≤ p} (alignUpPow2 v) ∧
      alignUpPow2 v = 2 ^ log2U32 (alignUpPow2 v) := by
  obtain ⟨k, -, heq, hge, hlt⟩ := exists_alignUpPow2 hpos hle (Nat.le_refl 31)
  rw [heq, log2U32, Nat.log2_two_pow]
  refine ⟨⟨⟨⟨k, rfl⟩, hge⟩, ?_⟩, rfl⟩
  rintro p ⟨⟨j, rfl⟩, hj⟩
  -- a smaller power of two is at most the half, which is smaller than the value
  have hkj : k < j + 1 := by
    rw [← Nat.pow_lt_pow_iff_right (show 1 < 2 by decide), pow_succ]
    omega
  exact Nat.pow_le_pow_right (by decide) (by omega)

theorem pagesForObjSize_holds {size : Nat} (hsize : size ≤ 2 ^ 18) :
    ∃ k ≤ 6, pagesForObjSize size = 2 ^ k ∧ size ≤ pagesForObjSize size * pageSize := by
  rcases Nat.eq_zero_or_pos size with rfl | hpos
  · exact ⟨0, by decide, by decide, Nat.zero_le _⟩
  · obtain ⟨k, hk, hpages, hlarge, -⟩ := exists_pagesForObjSize hpos hsize
    refine ⟨k, hk, hpages, ?_⟩
    rw [hpages]
    have hpow : 2 ^ (buddyExponMin + k) = 2 ^ k * pageSize := by
      rw [Nat.add_comm, pow_add]
      rfl
    rcases hlarge with hfits | rfl
    · omega
    · unfold pageSize
      omega

/-- On all 32-bit values, and for all sizes up to 256 KiB: `align_up_pow2` is the least power
of two that is not smaller (1 for 0, and 0 where there is none of 32 bits), `log2_u32` of it is
its exponent, and a slab has a power of two of pages, 64 at most, that hold an object. -/
theorem objSizes_pow2 {v size : Nat} (hv : v < 2 ^ 32) (hsize : size ≤ 2 ^ 18) :
    (v = 0 → alignUpPow2 v = 1) ∧
    (1 ≤ v → v ≤ 2 ^ 31 → IsLeast {p | (∃ k, p = 2 ^ k) ∧ v ≤ p} (alignUpPow2 v) ∧
      alignUpPow2 v = 2 ^ log2U32 (alignUpPow2 v)) ∧
    (2 ^ 31 < v → alignUpPow2 v = 0) ∧
    ∃ k, pagesForObjSize size = 2 ^ k ∧ 1 ≤ pagesForObjSize size ∧ pagesForObjSize size ≤ 64 ∧
      size ≤ pagesForObjSize size * pageSize := by
  refine ⟨?_, fun hpos hle => alignUpPow2_isLeast hpos hle, fun hgt => alignUpPow2_overflow hgt hv,
    ?_⟩
  · rintro rfl
    rfl
  · obtain ⟨k, hk, hpages, hholds⟩ := pagesForObjSize_holds hsize
    have hpos : 1 ≤ 2 ^ k := Nat.two_pow_pos k
    have hmax : 2 ^ k ≤ 2 ^ 6 := Nat.pow_le_pow_right (by decide) hk
    exact ⟨k, hpages, hpages ▸ hpos, hpages ▸ hmax, hholds⟩

/-- The value 5, and objects of 100 bytes. -/
theorem objSizes_hundred :
    (5 = 0 → alignUpPow2 5 = 1) ∧
    (1 ≤ 5 → 5 ≤ 2 ^ 31 → IsLeast {p | (∃ k, p = 2 ^ k) ∧ 5 ≤ p} (alignUpPow2 5) ∧
      alignUpPow2 5 = 2 ^ log2U32 (alignUpPow2 5)) ∧
    (2 ^ 31 < 5 → alignUpPow2 5 = 0) ∧
    ∃ k, pagesForObjSize 100 = 2 ^ k ∧ 1 ≤ pagesForObjSize 100 ∧ pagesForObjSize 100 ≤ 64 ∧
      100 ≤ pagesForObjSize 100 * pageSize :=
  objSizes_pow2 (by decide) (by decide)

end X86Kernel.Heap
