import Mathlib.Data.List.Nodup
import Mathlib.Logic.Function.Basic

/- Things that have one owner at most. Every client has a list of what it owns, and a flag on each
   thing says whether somebody owns it.

   What is proved: taking a thing whose flag is not set, and letting go of one that is owned, keep
   the flags right and the owners apart (`Owners.take`, `Owners.give`). -/
namespace X86Kernel.Lib

variable {C L : Type} {busy busy' : L → Bool} {owned owned' : C → List L} {c : C} {l : L}

/-- A thing is owned once if its flag is set, and not owned if it is not. -/
structure Owners (busy : L → Bool) (owned : C → List L) : Prop where
  once : ∀ c, (owned c).Nodup
  one : ∀ c c' l, l ∈ owned c → l ∈ owned c' → c = c'
  busy : ∀ l, busy l = true ↔ ∃ c, l ∈ owned c

theorem Owners.not_mem (h : Owners busy owned) (hfree : busy l = false) (c : C) : l ∉ owned c := by
  intro hl
  have hbusy := (h.busy l).2 ⟨c, hl⟩
  rw [hfree] at hbusy
  cases hbusy

variable [DecidableEq C] [DecidableEq L]

theorem Owners.take (h : Owners busy owned) (hfree : busy l = false)
    (hbusy : ∀ m, busy' m = if m = l then true else busy m)
    (howned : owned' = Function.update owned c (l :: owned c)) : Owners busy' owned' := by
  subst howned
  have hmem : ∀ c' m, m ∈ Function.update owned c (l :: owned c) c' ↔
      c' = c ∧ m = l ∨ m ∈ owned c' := by
    intro c' m
    rw [Function.update_apply]
    split_ifs with hc
    · subst hc
      simp
    · simp [hc]
  refine ⟨fun c' => ?_, fun c₁ c₂ m h₁ h₂ => ?_, fun m => ?_⟩
  · rw [Function.update_apply]
    split_ifs
    · exact List.nodup_cons.2 ⟨h.not_mem hfree c, h.once c⟩
    · exact h.once c'
  · rw [hmem] at h₁ h₂
    rcases h₁ with ⟨rfl, rfl⟩ | h₁ <;> rcases h₂ with ⟨rfl, hm⟩ | h₂
    · rfl
    · exact absurd h₂ (h.not_mem hfree c₂)
    · exact absurd (hm ▸ h₁) (h.not_mem hfree c₁)
    · exact h.one c₁ c₂ m h₁ h₂
  · rw [hbusy]
    simp only [hmem]
    split_ifs with hm
    · exact ⟨fun _ => ⟨c, .inl ⟨rfl, hm⟩⟩, fun _ => rfl⟩
    · simp [hm, h.busy]

theorem Owners.give (h : Owners busy owned) {rest : List L} (hc : owned c = l :: rest)
    (hbusy : ∀ m, busy' m = if m = l then false else busy m)
    (howned : owned' = Function.update owned c rest) : Owners busy' owned' := by
  subst howned
  have honce := h.once c
  rw [hc, List.nodup_cons] at honce
  have hl : l ∈ owned c := hc ▸ List.mem_cons_self
  have hmem : ∀ c' m, m ∈ Function.update owned c rest c' ↔ m ≠ l ∧ m ∈ owned c' := by
    intro c' m
    rw [Function.update_apply]
    split_ifs with hc'
    · subst hc'
      rw [hc, List.mem_cons]
      refine ⟨fun hm => ⟨?_, .inr hm⟩, fun hm => hm.2.resolve_left hm.1⟩
      rintro rfl
      exact honce.1 hm
    · refine ⟨fun hm => ⟨?_, hm⟩, fun hm => hm.2⟩
      rintro rfl
      exact hc' (h.one c' c m hm hl)
  refine ⟨fun c' => ?_, fun c₁ c₂ m h₁ h₂ => ?_, fun m => ?_⟩
  · rw [Function.update_apply]
    split_ifs
    · exact honce.2
    · exact h.once c'
  · exact h.one c₁ c₂ m ((hmem c₁ m).1 h₁).2 ((hmem c₂ m).1 h₂).2
  · rw [hbusy]
    simp only [hmem]
    split_ifs with hm
    · simp [hm]
    · simp [hm, h.busy]

end X86Kernel.Lib
