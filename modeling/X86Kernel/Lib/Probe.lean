import Mathlib.Data.Nat.Find
import Mathlib.Data.Nat.ModEq

/- Probing a cyclic table: from a start position the next ones are taken in
   turn, modulo the size of the table.

   `scan` is the bounded search for the first position that meets a test. It
   stops within one round if any position meets the test (`exists_first`), and
   what it returns is the first one on the way (`scan_eq_some`). Positions are
   named by their distance from the start: different distances below the size
   are different positions (`offset_inj`), and every position has one
   (`exists_offset`). -/
namespace X86Kernel.Lib

/-- The position at distance `d` from `start` in a table of `n` positions. -/
def offset (n start d : Nat) : Nat := (start + d) % n

theorem offset_lt {n : Nat} (hn : 0 < n) (start d : Nat) : offset n start d < n :=
  Nat.mod_lt _ hn

theorem offset_inj {n start d e : Nat} (hd : d < n) (he : e < n)
    (h : offset n start d = offset n start e) : d = e := by
  have hmod : d ≡ e [MOD n] := Nat.ModEq.add_left_cancel' start h
  rwa [Nat.ModEq, Nat.mod_eq_of_lt hd, Nat.mod_eq_of_lt he] at hmod

theorem exists_offset {n i : Nat} (start : Nat) (hi : i < n) : ∃ d < n, offset n start d = i := by
  refine ⟨(i + (n - start % n)) % n, Nat.mod_lt _ (by omega), ?_⟩
  have hlt : start % n < n := Nat.mod_lt _ (by omega)
  have hsum : start % n + (i + (n - start % n)) = i + n := by omega
  rw [offset, Nat.add_mod_mod, ← Nat.mod_add_mod, hsum, Nat.add_mod_right, Nat.mod_eq_of_lt hi]

theorem offset_succ (n start d : Nat) : offset n (offset n start 1) d = offset n start (d + 1) := by
  simp only [offset, Nat.mod_add_mod]
  congr 1
  omega

theorem offset_zero {n start : Nat} (h : start < n) : offset n start 0 = start :=
  Nat.mod_eq_of_lt h

/-- The first position from `pos` on that meets the test, in at most `fuel`
turns. -/
def scan (n : Nat) (stop : Nat → Bool) : Nat → Nat → Option Nat
  | 0, _ => none
  | fuel + 1, pos => if stop pos then some pos else scan n stop fuel (offset n pos 1)

/-- `d` is the distance of the first position that meets the test. -/
def FirstAt (n : Nat) (stop : Nat → Bool) (start d : Nat) : Prop :=
  stop (offset n start d) = true ∧ ∀ e < d, stop (offset n start e) = false

theorem exists_first {n i : Nat} (stop : Nat → Bool) (start : Nat) (hi : i < n)
    (h : stop i = true) :
    ∃ d < n, FirstAt n stop start d := by
  obtain ⟨d₀, hd₀, rfl⟩ := exists_offset start hi
  have hex : ∃ d, stop (offset n start d) = true := ⟨d₀, h⟩
  refine ⟨Nat.find hex, lt_of_le_of_lt (Nat.find_min' hex h) hd₀, Nat.find_spec hex, ?_⟩
  intro e he
  exact Bool.eq_false_iff.2 (Nat.find_min hex he)

theorem scan_eq_some {n : Nat} {stop : Nat → Bool} : ∀ (d fuel : Nat) {start : Nat}, start < n →
    d < fuel → FirstAt n stop start d → scan n stop fuel start = some (offset n start d) := by
  intro d
  induction d with
  | zero =>
    intro fuel start hs hfuel hd
    obtain ⟨fuel, rfl⟩ : ∃ k, fuel = k + 1 := ⟨fuel - 1, by omega⟩
    have hstop := hd.1
    rw [offset_zero hs] at hstop ⊢
    rw [scan, if_pos hstop]
  | succ d ih =>
    intro fuel start hs hfuel hd
    obtain ⟨fuel, rfl⟩ : ∃ k, fuel = k + 1 := ⟨fuel - 1, by omega⟩
    have hfirst : stop start = false := by
      have h₀ := hd.2 0 (by omega)
      rwa [offset_zero hs] at h₀
    rw [scan, if_neg (by simp [hfirst]), ih fuel (offset_lt (by omega) _ _) (by omega) ⟨?_, ?_⟩,
      offset_succ]
    · rw [offset_succ]
      exact hd.1
    · intro e he
      rw [offset_succ]
      exact hd.2 (e + 1) (by omega)

end X86Kernel.Lib
