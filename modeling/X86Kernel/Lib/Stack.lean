import Mathlib.Algebra.Group.Basic
import Mathlib.Data.List.Basic

/- A stack that grows downwards in memory. Memory is a function on addresses, which form
   a group; consecutive words are one stride apart, and addresses may wrap.

   What is proved: what a memory holds from an address up, as a list of words (`HoldsAt`), stays
   where a store is to another address, and a push puts a word before the list, as long as the
   list does not come round to the word pushed (`Room`). -/
namespace X86Kernel.Lib

variable {A W : Type} [AddCommGroup A] {stride : A} {m m' : A → W} {a b : A} {x : W}
  {xs ys : List W}

/-- The words of a list at consecutive addresses, from `a` up. -/
def HoldsAt (stride : A) (m : A → W) : A → List W → Prop
  | _, [] => True
  | a, x :: xs => m a = x ∧ HoldsAt stride m (a + stride) xs

/-- No address but the first is met again in `n` strides. -/
def Room (stride : A) (n : Nat) : Prop := ∀ i < n, (i + 1) • stride ≠ 0

theorem Room.mono {n k : Nat} (h : Room stride n) (hle : k ≤ n) : Room stride k :=
  fun i hi => h i (Nat.lt_of_lt_of_le hi hle)

theorem HoldsAt.congr (h : HoldsAt stride m a xs)
    (hsame : ∀ i < xs.length, m' (a + i • stride) = m (a + i • stride)) :
    HoldsAt stride m' a xs := by
  induction xs generalizing a with
  | nil => trivial
  | cons x xs ih =>
    have hfirst := hsame 0 (Nat.zero_lt_succ xs.length)
    rw [zero_nsmul, add_zero] at hfirst
    refine ⟨hfirst.trans h.1, ih h.2 fun i hi => ?_⟩
    have hnext := hsame (i + 1) (Nat.succ_lt_succ hi)
    rwa [succ_nsmul', ← add_assoc] at hnext

theorem HoldsAt.get (h : HoldsAt stride m a xs) {i : Nat} (hi : xs[i]? = some x) :
    m (a + i • stride) = x := by
  induction xs generalizing a i with
  | nil => cases hi
  | cons y xs ih =>
    cases i with
    | zero =>
      rw [zero_nsmul, add_zero]
      exact h.1.trans (Option.some.inj hi)
    | succ i =>
      rw [succ_nsmul', ← add_assoc]
      exact ih h.2 hi

theorem holdsAt_append :
    HoldsAt stride m a (xs ++ ys) ↔
      HoldsAt stride m a xs ∧ HoldsAt stride m (a + xs.length • stride) ys := by
  induction xs generalizing a with
  | nil => simp [HoldsAt]
  | cons x xs ih => simp [HoldsAt, ih, succ_nsmul', add_assoc, and_assoc]

theorem HoldsAt.drop (h : HoldsAt stride m a (xs ++ ys)) :
    HoldsAt stride m (a + xs.length • stride) ys :=
  (holdsAt_append.1 h).2

variable [DecidableEq A]

theorem HoldsAt.store (h : HoldsAt stride m a xs) (hne : ∀ i < xs.length, a + i • stride ≠ b) :
    HoldsAt stride (Function.update m b x) a xs :=
  h.congr fun i hi => Function.update_of_ne (hne i hi) x m

theorem HoldsAt.push (h : HoldsAt stride m a xs) (hroom : Room stride xs.length) :
    HoldsAt stride (Function.update m (a - stride) x) (a - stride) (x :: xs) := by
  refine ⟨Function.update_self (a - stride) x m, ?_⟩
  rw [sub_add_cancel]
  refine h.store fun i hi heq => hroom i hi ?_
  calc (i + 1) • stride = a + i • stride - (a - stride) := by rw [add_sub_sub_cancel, succ_nsmul]
    _ = 0 := by rw [heq, sub_self]

end X86Kernel.Lib
