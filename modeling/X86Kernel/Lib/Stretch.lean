import Mathlib.Data.Nat.Find
import Mathlib.Order.Basic

/- Maximal stretches of a set of naturals.

   `Stretch P i c` says that the `c` numbers from `i` on have the property, that
   none is missing before and that the stretch ends there. Every number at which
   a stretch starts has exactly one (`Stretch.unique`, `exists_stretch`). The two
   operations take the end of a stretch out of the set (`stretch_take`) and add a
   block before a stretch or alone (`stretch_add`); both leave the other
   stretches as they are. -/
namespace X86Kernel.Lib

def IsStart (P : Nat → Prop) (i : Nat) : Prop := P i ∧ ∀ j, j + 1 = i → ¬ P j

def Stretch (P : Nat → Prop) (i c : Nat) : Prop :=
  0 < c ∧ (∀ j, i ≤ j → j < i + c → P j) ∧ (∀ j, j + 1 = i → ¬ P j) ∧ ¬ P (i + c)

variable {P Q : Nat → Prop}

theorem Stretch.isStart {i c : Nat} (h : Stretch P i c) : IsStart P i :=
  ⟨h.2.1 i le_rfl (by have := h.1; omega), h.2.2.1⟩

theorem Stretch.unique {i c d : Nat} (hc : Stretch P i c) (hd : Stretch P i d) : c = d := by
  rcases Nat.lt_trichotomy c d with hlt | heq | hgt
  · exact absurd (hd.2.1 (i + c) (by omega) (by omega)) hc.2.2.2
  · exact heq
  · exact absurd (hc.2.1 (i + d) (by omega) (by omega)) hd.2.2.2

theorem exists_stretch {i n : Nat} (hbound : ∀ j, P j → j < n) (h : IsStart P i) :
    ∃ c, Stretch P i c := by
  classical
  have hex : ∃ c, ¬ P (i + c) := ⟨n, fun hp => by have := hbound _ hp; omega⟩
  refine ⟨Nat.find hex, ?_, ?_, h.2, Nat.find_spec hex⟩
  · refine Nat.pos_of_ne_zero fun hzero => ?_
    have hspec := Nat.find_spec hex
    rw [hzero] at hspec
    exact hspec h.1
  · intro j hij hj
    have hmin := Nat.find_min hex (show j - i < Nat.find hex by omega)
    rw [show i + (j - i) = j by omega] at hmin
    exact not_not.1 hmin

theorem exists_stretch_mem {n : Nat} (hbound : ∀ j, P j → j < n) : ∀ {x : Nat}, P x →
    ∃ i c, Stretch P i c ∧ i ≤ x ∧ x < i + c := by
  intro x
  induction x with
  | zero =>
    intro hx
    obtain ⟨c, hc⟩ := exists_stretch hbound ⟨hx, fun j hj => by omega⟩
    exact ⟨0, c, hc, Nat.le_refl 0, by have := hc.1; omega⟩
  | succ x ih =>
    intro hx
    by_cases hbefore : P x
    · obtain ⟨i, c, hc, hle, hlt⟩ := ih hbefore
      refine ⟨i, c, hc, by omega, ?_⟩
      -- the stretch of `x` does not end there
      by_contra hge
      obtain heq : i + c = x + 1 := by omega
      exact hc.2.2.2 (heq ▸ hx)
    · obtain ⟨c, hc⟩ := exists_stretch hbound
        ⟨hx, fun j hj hp => hbefore (by rwa [Nat.succ_injective hj] at hp)⟩
      exact ⟨x + 1, c, hc, Nat.le_refl _, by have := hc.1; omega⟩

theorem Stretch.apart {i c j d : Nat} (hc : Stretch P i c) (hd : Stretch P j d) (hne : j ≠ i) :
    j + d < i ∨ i + c < j := by
  rcases Nat.lt_or_gt_of_ne hne with hlt | hgt
  · left
    by_contra hge
    by_cases heq : j + d = i
    · exact hd.2.2.2 (heq ▸ hc.2.1 i le_rfl (by have := hc.1; omega))
    · exact hc.2.2.1 (i - 1) (by omega) (hd.2.1 (i - 1) (by omega) (by omega))
  · right
    by_contra hge
    by_cases heq : i + c = j
    · exact hc.2.2.2 (heq ▸ hd.2.1 j le_rfl (by have := hd.1; omega))
    · exact hd.2.2.1 (j - 1) (by omega) (hc.2.1 (j - 1) (by omega) (by omega))

/-- The numbers from `i + m` to the end of a stretch are taken out. -/
theorem stretch_take {i c m : Nat} (h : Stretch P i c) (hm : m ≤ c)
    (hQ : ∀ j, Q j ↔ P j ∧ ¬ (i + m ≤ j ∧ j < i + c)) (j d : Nat) :
    Stretch Q j d ↔ (j = i ∧ d = m ∧ 0 < m) ∨ (Stretch P j d ∧ j ≠ i) := by
  constructor
  · intro hs
    obtain ⟨hd, hin, hbefore, hafter⟩ := hs
    have hPj := (hQ j).1 (hin j le_rfl (by omega))
    -- the start in `Q` is a start in `P`: what is taken out ends a stretch of `P`
    have hstart : IsStart P j := by
      refine ⟨hPj.1, fun k hk hPk => hbefore k hk ((hQ k).2 ⟨hPk, fun hcut => ?_⟩)⟩
      refine h.2.2.2 ?_
      have hjc : i + c = j := by
        have := hPj.2
        omega
      rw [hjc]
      exact hPj.1
    by_cases hji : j = i
    · subst hji
      have hmpos : 0 < m := by
        by_contra hzero
        exact hPj.2 ⟨by omega, by have := h.1; omega⟩
      refine .inl ⟨rfl, ?_, hmpos⟩
      have hm' : Stretch Q j m := by
        refine ⟨hmpos, fun k hk hkm => (hQ k).2 ⟨h.2.1 k hk (by omega), by omega⟩, hbefore, ?_⟩
        intro hq
        obtain ⟨hP, hcut⟩ := (hQ _).1 hq
        by_cases hmc : m = c
        · exact h.2.2.2 (hmc ▸ hP)
        · exact hcut ⟨le_rfl, by omega⟩
      exact Stretch.unique ⟨hd, hin, hbefore, hafter⟩ hm'
    · refine .inr ⟨⟨hd, fun k hk hkd => ((hQ k).1 (hin k hk hkd)).1, hstart.2, fun hP => ?_⟩, hji⟩
      -- the stretch cannot end where something was taken out
      have hcut : i + m ≤ j + d ∧ j + d < i + c := by
        by_contra hno
        exact hafter ((hQ _).2 ⟨hP, hno⟩)
      have hij : j < i := by
        by_contra hge
        have h₁ := (hQ j).1 (hin j le_rfl (by omega))
        by_cases hjc : j < i + c
        · by_cases hjm : i + m ≤ j
          · exact h₁.2 ⟨hjm, hjc⟩
          · exact hstart.2 (j - 1) (by omega) (h.2.1 (j - 1) (by omega) (by omega))
        · omega
      exact h.2.2.1 (i - 1) (by omega) ((hQ _).1 (hin (i - 1) (by omega) (by omega))).1
  · rintro (⟨rfl, rfl, hpos⟩ | ⟨hs, hne⟩)
    · refine ⟨hpos, fun k hk hkm => (hQ k).2 ⟨h.2.1 k hk (by omega), by omega⟩, ?_, ?_⟩
      · intro k hk hq
        exact h.2.2.1 k hk ((hQ k).1 hq).1
      · intro hq
        obtain ⟨hP, hcut⟩ := (hQ _).1 hq
        by_cases hmc : d = c
        · exact h.2.2.2 (hmc ▸ hP)
        · exact hcut ⟨le_rfl, by omega⟩
    · have hapart := h.apart hs hne
      refine ⟨hs.1, fun k hk hkd => (hQ k).2 ⟨hs.2.1 k hk hkd, by omega⟩, ?_, ?_⟩
      · intro k hk hq
        exact hs.2.2.1 k hk ((hQ k).1 hq).1
      · intro hq
        exact hs.2.2.2 ((hQ _).1 hq).1

/-- `n` numbers from `p` on are added, with nothing right before them; `k` is the
length of the stretch right after them, 0 when there is none. -/
theorem stretch_add {p n k : Nat} (hn : 0 < n) (hout : ∀ j, p ≤ j → j < p + n → ¬ P j)
    (hbefore : ∀ j, j + 1 = p → ¬ P j)
    (hafter : (k = 0 ∧ ¬ P (p + n)) ∨ Stretch P (p + n) k)
    (hQ : ∀ j, Q j ↔ P j ∨ (p ≤ j ∧ j < p + n)) (j d : Nat) :
    Stretch Q j d ↔ (j = p ∧ d = n + k) ∨ (Stretch P j d ∧ j ≠ p + n) := by
  have hnew : Stretch Q p (n + k) := by
    refine ⟨by omega, fun i hi hilt => (hQ i).2 ?_, ?_, ?_⟩
    · by_cases hin : i < p + n
      · exact .inr ⟨hi, hin⟩
      · rcases hafter with ⟨rfl, -⟩ | hs
        · omega
        · exact .inl (hs.2.1 i (by omega) (by omega))
    · intro i hi hq
      rcases (hQ i).1 hq with hP | hin
      · exact hbefore i hi hP
      · omega
    · intro hq
      rcases (hQ _).1 hq with hP | hin
      · rcases hafter with ⟨rfl, hno⟩ | hs
        · exact hno hP
        · exact hs.2.2.2 (by rwa [show p + n + k = p + (n + k) by omega])
      · omega
  constructor
  · intro hs
    by_cases hjp : j = p
    · subst hjp
      exact .inl ⟨rfl, hs.unique hnew⟩
    · have hapart := hnew.apart hs hjp
      refine .inr ⟨⟨hs.1, fun i hi hilt => ?_, ?_, ?_⟩, by omega⟩
      · rcases (hQ i).1 (hs.2.1 i hi hilt) with hP | hin
        · exact hP
        · omega
      · intro i hi hP
        exact hs.2.2.1 i hi ((hQ i).2 (.inl hP))
      · intro hP
        exact hs.2.2.2 ((hQ _).2 (.inl hP))
  · rintro (⟨rfl, rfl⟩ | ⟨hs, hne⟩)
    · exact hnew
    · refine ⟨hs.1, fun i hi hilt => (hQ i).2 (.inl (hs.2.1 i hi hilt)), ?_, ?_⟩
      · intro i hi hq
        rcases (hQ i).1 hq with hP | hin
        · exact hs.2.2.1 i hi hP
        · -- the block would be right before the stretch
          have hstart := hs.2.1 j le_rfl (by have := hs.1; omega)
          by_cases hjn : j < p + n
          · exact hout j (by omega) hjn hstart
          · omega
      · intro hq
        rcases (hQ _).1 hq with hP | hin
        · exact hs.2.2.2 hP
        · have hlast := hs.2.1 (j + d - 1) (by have := hs.1; omega) (by have := hs.1; omega)
          by_cases hpd : p = j + d
          · exact hbefore (j + d - 1) (by have := hs.1; omega) hlast
          · exact hout (j + d - 1) (by omega) (by omega) hlast

end X86Kernel.Lib
