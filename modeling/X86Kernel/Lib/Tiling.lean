import Mathlib.Data.Nat.Bitwise
import Mathlib.Tactic.Ring

/- Tilings of a range by blocks whose sizes are powers of two and whose addresses
   are multiples of their sizes.

   `B a k` says that there is a block of order `k` at `a`; it covers `2 ^ (u + k)`
   addresses, where `u` is the exponent of the smallest block. The two halves of
   a block are each other's buddies: each finds the other by flipping one bit of
   its address (`buddy`). A block may be cut into its halves (`Packing.split`,
   `Tiling.split`) and two buddies may be joined (`Packing.merge`, `Tiling.merge`); a
   packing is a tiling that may leave addresses uncovered. -/
namespace X86Kernel.Lib

variable {u : Nat}

/-- The blocks cover `[lo, hi)`, are aligned, and overlap nowhere. -/
structure Tiling (u : Nat) (B : Nat → Nat → Prop) (lo hi : Nat) : Prop where
  aligned : ∀ {a k}, B a k → 2 ^ (u + k) ∣ a
  inside : ∀ {a k}, B a k → lo ≤ a ∧ a + 2 ^ (u + k) ≤ hi
  cover : ∀ x, lo ≤ x → x < hi → ∃ a k, B a k ∧ a ≤ x ∧ x < a + 2 ^ (u + k)
  apart : ∀ {a k b l} (x : Nat), B a k → B b l → a ≤ x → x < a + 2 ^ (u + k) → b ≤ x →
    x < b + 2 ^ (u + l) → a = b ∧ k = l

/-- The blocks are aligned, in `[lo, hi)`, and overlap nowhere. -/
structure Packing (u : Nat) (B : Nat → Nat → Prop) (lo hi : Nat) : Prop where
  aligned : ∀ {a k}, B a k → 2 ^ (u + k) ∣ a
  inside : ∀ {a k}, B a k → lo ≤ a ∧ a + 2 ^ (u + k) ≤ hi
  apart : ∀ {a k b l} (x : Nat), B a k → B b l → a ≤ x → x < a + 2 ^ (u + k) → b ≤ x →
    x < b + 2 ^ (u + l) → a = b ∧ k = l

theorem Tiling.packing {B : Nat → Nat → Prop} {lo hi : Nat} (h : Tiling u B lo hi) :
    Packing u B lo hi := ⟨h.aligned, h.inside, h.apart⟩

/-- The block that is joined with the one of order `k` at `a`. -/
def buddy (u a k : Nat) : Nat := a ^^^ 2 ^ (u + k)

theorem two_pow_mul_xor (e q : Nat) : 2 ^ e * q ^^^ 2 ^ e = 2 ^ e * (q ^^^ 1) := by
  have h := Nat.shiftLeft_xor_distrib (a := q) (b := 1) (i := e)
  simp only [Nat.shiftLeft_eq, Nat.one_mul] at h
  rw [Nat.mul_comm, ← h, Nat.mul_comm]

theorem buddy_low {a k : Nat} (h : 2 ^ (u + k + 1) ∣ a) : buddy u a k = a + 2 ^ (u + k) := by
  obtain ⟨q, rfl⟩ := h
  have heven : 2 * q ^^^ 1 = 2 * q + 1 := by
    rw [Nat.xor_one_of_even (even_two_mul q)]
  rw [buddy, pow_succ, Nat.mul_assoc, two_pow_mul_xor, heven]
  ring

theorem buddy_high {a k : Nat} (h : 2 ^ (u + k) ∣ a) (hodd : ¬ 2 ^ (u + k + 1) ∣ a) :
    ∃ b, a = b + 2 ^ (u + k) ∧ buddy u a k = b ∧ 2 ^ (u + k + 1) ∣ b := by
  obtain ⟨q, rfl⟩ := h
  have hq : ¬ Even q := by
    intro he
    obtain ⟨r, rfl⟩ := he
    exact hodd ⟨r, by ring⟩
  obtain ⟨r, rfl⟩ := Nat.not_even_iff_odd.1 hq
  refine ⟨2 ^ (u + k + 1) * r, by ring, ?_, Dvd.intro r rfl⟩
  have hflip : (2 * r + 1) ^^^ 1 = 2 * r := by
    rw [Nat.xor_one_of_odd ⟨r, rfl⟩, Nat.add_sub_cancel]
  rw [buddy, two_pow_mul_xor, hflip]
  ring

theorem buddy_buddy (a k : Nat) : buddy u (buddy u a k) k = a := by
  rw [buddy, buddy, Nat.xor_assoc, Nat.xor_self, Nat.xor_zero]

theorem dvd_buddy {a k : Nat} (h : 2 ^ (u + k) ∣ a) : 2 ^ (u + k) ∣ buddy u a k := by
  obtain ⟨q, rfl⟩ := h
  rw [buddy, two_pow_mul_xor]
  exact Dvd.intro _ rfl

theorem buddy_ne (a k : Nat) : buddy u a k ≠ a := by
  intro h
  have hbit := congrArg (fun n => n.testBit (u + k)) h
  simp [buddy, Nat.testBit_xor, Nat.testBit_two_pow_self] at hbit

namespace Packing

variable {B B' : Nat → Nat → Prop} {lo hi : Nat}

theorem order_eq (h : Packing u B lo hi) {a k l : Nat} (hk : B a k) (hl : B a l) : k = l :=
  (h.apart a hk hl (Nat.le_refl _) (by have := Nat.two_pow_pos (u + k); omega) (Nat.le_refl _)
    (by have := Nat.two_pow_pos (u + l); omega)).2

theorem mono (h : Packing u B lo hi) (hB : ∀ a k, B' a k → B a k) : Packing u B' lo hi where
  aligned := fun hb => h.aligned (hB _ _ hb)
  inside := fun hb => h.inside (hB _ _ hb)
  apart := fun x ha hb => h.apart x (hB _ _ ha) (hB _ _ hb)

theorem append (h : Packing u B lo hi) {k : Nat} (hlo : lo ≤ hi) (hdvd : 2 ^ (u + k) ∣ hi)
    (hB : ∀ b l, B' b l → B b l ∨ b = hi ∧ l = k) : Packing u B' lo (hi + 2 ^ (u + k)) := by
  constructor
  · intro b l hb
    rcases hB b l hb with hb | ⟨rfl, rfl⟩
    · exact h.aligned hb
    · exact hdvd
  · intro b l hb
    rcases hB b l hb with hb | ⟨rfl, rfl⟩
    · obtain ⟨hblo, hbhi⟩ := h.inside hb
      exact ⟨hblo, by omega⟩
    · exact ⟨hlo, Nat.le_refl _⟩
  · intro b l c m x hb hc hbx hxb hcx hxc
    rcases hB b l hb with hb | ⟨rfl, rfl⟩
    · rcases hB c m hc with hc | ⟨rfl, rfl⟩
      · exact h.apart x hb hc hbx hxb hcx hxc
      · have := (h.inside hb).2
        omega
    · rcases hB c m hc with hc | ⟨rfl, rfl⟩
      · have := (h.inside hc).2
        omega
      · exact ⟨rfl, rfl⟩

theorem split (h : Packing u B lo hi) {a k : Nat} (ha : B a (k + 1))
    (hB : ∀ b l, B' b l ↔
      (B b l ∧ ¬ (b = a ∧ l = k + 1)) ∨ l = k ∧ (b = a ∨ b = a + 2 ^ (u + k))) :
    Packing u B' lo hi := by
  have hsize : 2 ^ (u + (k + 1)) = 2 ^ (u + k) + 2 ^ (u + k) := by ring
  have hdvd : 2 ^ (u + k) ∣ a := Dvd.dvd.trans ⟨2, by ring⟩ (h.aligned ha)
  obtain ⟨halo, hahi⟩ := h.inside ha
  -- each half lies inside the block that was cut
  have hhalf : ∀ {b x}, b = a ∨ b = a + 2 ^ (u + k) → b ≤ x → x < b + 2 ^ (u + k) →
      a ≤ x ∧ x < a + 2 ^ (u + (k + 1)) := by
    intro b x hb hbx hxb
    rcases hb with rfl | rfl <;> omega
  constructor
  · intro b l hb
    rcases (hB b l).1 hb with ⟨hb, -⟩ | ⟨rfl, rfl | rfl⟩
    · exact h.aligned hb
    · exact hdvd
    · exact Nat.dvd_add hdvd (Nat.dvd_refl _)
  · intro b l hb
    rcases (hB b l).1 hb with ⟨hb, -⟩ | ⟨rfl, rfl | rfl⟩
    · exact h.inside hb
    · omega
    · omega
  · intro b l c m x hb hc hbx hxb hcx hxc
    rcases (hB b l).1 hb with ⟨hb, hbne⟩ | ⟨rfl, hb⟩
    · rcases (hB c m).1 hc with ⟨hc, -⟩ | ⟨rfl, hc⟩
      · exact h.apart x hb hc hbx hxb hcx hxc
      · obtain ⟨hax, hxa⟩ := hhalf hc hcx hxc
        exact absurd (h.apart x hb ha hbx hxb hax hxa) hbne
    · rcases (hB c m).1 hc with ⟨hc, hcne⟩ | ⟨rfl, hc⟩
      · obtain ⟨hax, hxa⟩ := hhalf hb hbx hxb
        exact absurd (h.apart x hc ha hcx hxc hax hxa) hcne
      · refine ⟨?_, rfl⟩
        rcases hb with rfl | rfl <;> rcases hc with rfl | rfl <;> omega

theorem merge (h : Packing u B lo hi) {a k : Nat} (ha : B a k) (ha' : B (a + 2 ^ (u + k)) k)
    (hlow : 2 ^ (u + k + 1) ∣ a)
    (hB : ∀ b l, B' b l ↔
      (B b l ∧ ¬ (l = k ∧ (b = a ∨ b = a + 2 ^ (u + k)))) ∨ b = a ∧ l = k + 1) :
    Packing u B' lo hi := by
  have hsize : 2 ^ (u + (k + 1)) = 2 ^ (u + k) + 2 ^ (u + k) := by ring
  have halo := (h.inside ha).1
  have hahi := (h.inside ha').2
  -- an address of the joined block is in one of the halves
  have hhalf : ∀ {x}, a ≤ x → x < a + 2 ^ (u + (k + 1)) →
      ∃ b, (b = a ∨ b = a + 2 ^ (u + k)) ∧ B b k ∧ b ≤ x ∧ x < b + 2 ^ (u + k) := by
    intro x hax hxa
    by_cases hx : x < a + 2 ^ (u + k)
    · exact ⟨a, .inl rfl, ha, hax, hx⟩
    · exact ⟨a + 2 ^ (u + k), .inr rfl, ha', by omega, by omega⟩
  constructor
  · intro b l hb
    rcases (hB b l).1 hb with ⟨hb, -⟩ | ⟨rfl, rfl⟩
    · exact h.aligned hb
    · exact hlow
  · intro b l hb
    rcases (hB b l).1 hb with ⟨hb, -⟩ | ⟨rfl, rfl⟩
    · exact h.inside hb
    · omega
  · intro b l c m x hb hc hbx hxb hcx hxc
    rcases (hB b l).1 hb with ⟨hb, hbne⟩ | ⟨rfl, rfl⟩
    · rcases (hB c m).1 hc with ⟨hc, -⟩ | ⟨rfl, rfl⟩
      · exact h.apart x hb hc hbx hxb hcx hxc
      · obtain ⟨d, hd, hdk, hdx, hxd⟩ := hhalf hcx hxc
        obtain ⟨rfl, rfl⟩ := h.apart x hb hdk hbx hxb hdx hxd
        exact absurd ⟨rfl, hd⟩ hbne
    · rcases (hB c m).1 hc with ⟨hc, hcne⟩ | ⟨rfl, rfl⟩
      · obtain ⟨d, hd, hdk, hdx, hxd⟩ := hhalf hbx hxb
        obtain ⟨rfl, rfl⟩ := h.apart x hc hdk hcx hxc hdx hxd
        exact absurd ⟨rfl, hd⟩ hcne
      · exact ⟨rfl, rfl⟩

end Packing

namespace Tiling

variable {B B' : Nat → Nat → Prop} {lo hi : Nat}

theorem order_eq (h : Tiling u B lo hi) {a k l : Nat} (hk : B a k) (hl : B a l) : k = l :=
  h.packing.order_eq hk hl

theorem of_packing (h : Tiling u B lo hi) (hp : Packing u B' lo hi)
    (hcover : ∀ {a k x}, B a k → a ≤ x → x < a + 2 ^ (u + k) →
      ∃ b l, B' b l ∧ b ≤ x ∧ x < b + 2 ^ (u + l)) : Tiling u B' lo hi where
  aligned := hp.aligned
  inside := hp.inside
  cover := by
    intro x hlo hhi
    obtain ⟨a, k, ha, hax, hxa⟩ := h.cover x hlo hhi
    exact hcover ha hax hxa
  apart := hp.apart

theorem congr (h : Tiling u B lo hi) (hB : ∀ a k, B' a k ↔ B a k) : Tiling u B' lo hi :=
  h.of_packing (h.packing.mono fun a k => (hB a k).1)
    fun {a k _} ha hax hxa => ⟨a, k, (hB a k).2 ha, hax, hxa⟩

theorem split (h : Tiling u B lo hi) {a k : Nat} (ha : B a (k + 1))
    (hB : ∀ b l, B' b l ↔
      (B b l ∧ ¬ (b = a ∧ l = k + 1)) ∨ l = k ∧ (b = a ∨ b = a + 2 ^ (u + k))) :
    Tiling u B' lo hi := by
  have hsize : 2 ^ (u + (k + 1)) = 2 ^ (u + k) + 2 ^ (u + k) := by ring
  apply h.of_packing (h.packing.split ha hB)
  intro b l x hb hbx hxb
  by_cases hcut : b = a ∧ l = k + 1
  · obtain ⟨rfl, rfl⟩ := hcut
    by_cases hx : x < b + 2 ^ (u + k)
    · exact ⟨b, k, (hB b k).2 (.inr ⟨rfl, .inl rfl⟩), hbx, hx⟩
    · exact ⟨b + 2 ^ (u + k), k, (hB _ k).2 (.inr ⟨rfl, .inr rfl⟩), by omega, by omega⟩
  · exact ⟨b, l, (hB b l).2 (.inl ⟨hb, hcut⟩), hbx, hxb⟩

theorem merge (h : Tiling u B lo hi) {a k : Nat} (ha : B a k) (ha' : B (a + 2 ^ (u + k)) k)
    (hlow : 2 ^ (u + k + 1) ∣ a)
    (hB : ∀ b l, B' b l ↔
      (B b l ∧ ¬ (l = k ∧ (b = a ∨ b = a + 2 ^ (u + k)))) ∨ b = a ∧ l = k + 1) :
    Tiling u B' lo hi := by
  have hsize : 2 ^ (u + (k + 1)) = 2 ^ (u + k) + 2 ^ (u + k) := by ring
  apply h.of_packing (h.packing.merge ha ha' hlow hB)
  intro b l x hb hbx hxb
  by_cases hold : l = k ∧ (b = a ∨ b = a + 2 ^ (u + k))
  · refine ⟨a, k + 1, (hB a (k + 1)).2 (.inr ⟨rfl, rfl⟩), ?_⟩
    obtain ⟨rfl, rfl | rfl⟩ := hold <;> omega
  · exact ⟨b, l, (hB b l).2 (.inl ⟨hb, hold⟩), hbx, hxb⟩

theorem empty (hB : ∀ a k, ¬ B a k) (lo : Nat) : Tiling u B lo lo where
  aligned hb := absurd hb (hB _ _)
  inside hb := absurd hb (hB _ _)
  cover _ hlo hhi := absurd hhi (Nat.not_lt.2 hlo)
  apart _ hb := absurd hb (hB _ _)

theorem append (h : Tiling u B lo hi) {k : Nat} (hlo : lo ≤ hi) (hdvd : 2 ^ (u + k) ∣ hi)
    (hB : ∀ b l, B' b l ↔ B b l ∨ b = hi ∧ l = k) : Tiling u B' lo (hi + 2 ^ (u + k)) := by
  have hp := h.packing.append hlo hdvd fun b l => (hB b l).1
  refine ⟨hp.aligned, hp.inside, ?_, hp.apart⟩
  intro x hx hxhi
  by_cases hold : x < hi
  · obtain ⟨b, l, hb, hbx, hxb⟩ := h.cover x hx hold
    exact ⟨b, l, (hB b l).2 (.inl hb), hbx, hxb⟩
  · exact ⟨hi, k, (hB hi k).2 (.inr ⟨rfl, rfl⟩), by omega, hxhi⟩

/-- Where no block can be twice as large, for its address or for the end, no two blocks
are buddies. -/
theorem no_buddies (h : Tiling u B lo hi)
    (hlargest : ∀ {a k}, B a k → 2 ^ (u + k + 1) ∣ a → hi < a + 2 ^ (u + k + 1)) {a k : Nat}
    (ha : B a k) : ¬ B (buddy u a k) k := by
  intro hb
  have hdouble : 2 ^ (u + k + 1) = 2 ^ (u + k) + 2 ^ (u + k) := by ring
  by_cases hlow : 2 ^ (u + k + 1) ∣ a
  · have hend := hlargest ha hlow
    rw [buddy_low hlow] at hb
    have := (h.inside hb).2
    omega
  · obtain ⟨b, rfl, hbuddy, hdvd⟩ := buddy_high (h.aligned ha) hlow
    rw [hbuddy] at hb
    have hend := hlargest hb hdvd
    have := (h.inside ha).2
    omega

end Tiling

end X86Kernel.Lib
