import Mathlib.Data.List.Nodup
import Mathlib.Data.List.Perm.Basic
import Mathlib.Logic.Function.Basic

/- Association lists as finite maps. `Represents l f` says that the pairs of `l`
   have distinct keys and are the graph of the partial function `f`. The order of
   the pairs does not matter (`Represents.perm`); adding a pair with a new key is
   an update, and so is taking a pair out (`Represents.cons`,
   `Represents.of_cons`). -/
namespace X86Kernel.Lib

variable {κ ν : Type}

def Represents (l : List (κ × ν)) (f : κ → Option ν) : Prop :=
  (l.map Prod.fst).Nodup ∧ ∀ k v, f k = some v ↔ (k, v) ∈ l

theorem represents_nil : Represents ([] : List (κ × ν)) fun _ => none := by
  simp [Represents]

theorem Represents.perm {l l' : List (κ × ν)} {f : κ → Option ν} (h : Represents l f)
    (hp : l'.Perm l) : Represents l' f := by
  obtain ⟨hn, hf⟩ := h
  refine ⟨(hp.map Prod.fst).nodup_iff.2 hn, fun k v => ?_⟩
  rw [hf, hp.mem_iff]

theorem Represents.eq_none_iff {l : List (κ × ν)} {f : κ → Option ν} (h : Represents l f) {k : κ} :
    f k = none ↔ ∀ v, (k, v) ∉ l := by
  constructor
  · intro hk v hv
    rw [← h.2, hk] at hv
    cases hv
  · intro hk
    cases hf : f k with
    | none => rfl
    | some v => exact absurd ((h.2 k v).1 hf) (hk v)

theorem Represents.cons [DecidableEq κ] {l : List (κ × ν)} {f : κ → Option ν}
    (h : Represents l f) {k : κ} (hk : f k = none) (v : ν) :
    Represents ((k, v) :: l) (Function.update f k (some v)) := by
  have hnone := h.eq_none_iff.1 hk
  obtain ⟨hn, hf⟩ := h
  constructor
  · rw [List.map_cons, List.nodup_cons]
    refine ⟨fun hmem => ?_, hn⟩
    obtain ⟨⟨k', w⟩, hw, rfl⟩ := List.mem_map.1 hmem
    exact hnone w hw
  · intro k' w
    rw [List.mem_cons, Prod.mk.injEq, ← hf]
    by_cases hkk : k' = k
    · subst hkk
      simp [hk, eq_comm]
    · simp [hkk]

theorem Represents.of_cons [DecidableEq κ] {l : List (κ × ν)} {f : κ → Option ν} {k : κ} {v : ν}
    (h : Represents ((k, v) :: l) f) : Represents l (Function.update f k none) := by
  obtain ⟨hn, hf⟩ := h
  rw [List.map_cons, List.nodup_cons] at hn
  refine ⟨hn.2, fun k' w => ?_⟩
  by_cases hkk : k' = k
  · subst hkk
    simp only [Function.update_self, reduceCtorEq, false_iff]
    intro hmem
    exact hn.1 (List.mem_map.2 ⟨_, hmem, rfl⟩)
  · rw [Function.update_of_ne hkk, hf, List.mem_cons, Prod.mk.injEq]
    simp [hkk]

end X86Kernel.Lib
