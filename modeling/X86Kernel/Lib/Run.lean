import Mathlib.Data.List.Basic

/- Runs of a fallible step function. A component of the kernel is a step
   function from a state and an input to a new state and an output, or to a
   fault. `run` folds it over a list of inputs and collects the outputs.

   What is proved: a step lemma lifts to every run. `run_simulates` takes a
   relation `R` between concrete and abstract states and a condition `C` on the
   state before a step, and turns "from related states every step that meets
   `C` succeeds with the abstract output and related states after it" into the
   same statement for a whole list of inputs. `run_preserves` is the case with
   no abstract side. Conditions are stated along the run itself (`Meets`): each
   input is judged in the state that the inputs before it lead to. `foldlM_ok` is
   the rule for a fold without outputs, whose steps all succeed. -/
namespace X86Kernel.Lib

variable {σ τ ι ω ε : Type}

/-- Feed the inputs to the step function in order; stop at the first fault. -/
def run (step : σ → ι → Except ε (σ × ω)) : σ → List ι → Except ε (σ × List ω)
  | s, [] => .ok (s, [])
  | s, i :: is =>
    match step s i with
    | .error e => .error e
    | .ok (s', o) =>
      match run step s' is with
      | .error e => .error e
      | .ok (s'', os) => .ok (s'', o :: os)

/-- Every input of the list meets `C` in the state it is given in. -/
def Meets (step : σ → ι → Except ε (σ × ω)) (C : σ → ι → Prop) : σ → List ι → Prop
  | _, [] => True
  | s, i :: is => C s i ∧ ∀ s' o, step s i = .ok (s', o) → Meets step C s' is

theorem meets_cons_error {step : σ → ι → Except ε (σ × ω)} {C : σ → ι → Prop} {s : σ} {i : ι}
    {is : List ι} {e : ε} (h : step s i = .error e) : Meets step C s (i :: is) ↔ C s i := by
  simp [Meets, h]

theorem meets_cons_ok {step : σ → ι → Except ε (σ × ω)} {C : σ → ι → Prop} {s s' : σ} {i : ι}
    {is : List ι} {o : ω} (h : step s i = .ok (s', o)) :
    Meets step C s (i :: is) ↔ C s i ∧ Meets step C s' is := by
  simp only [Meets, h, Except.ok.injEq, Prod.mk.injEq, and_congr_right_iff]
  intro _
  exact ⟨fun hm => hm s' o ⟨rfl, rfl⟩, by rintro hm _ _ ⟨rfl, rfl⟩; exact hm⟩

theorem meets_of_forall {step : σ → ι → Except ε (σ × ω)} {C : σ → ι → Prop} (h : ∀ s i, C s i) :
    ∀ (is : List ι) (s : σ), Meets step C s is := by
  intro is
  induction is with
  | nil => intro s; trivial
  | cons i is ih => exact fun s => ⟨h s i, fun s' _ _ => ih s'⟩

theorem Meets.of_prefix {step : σ → ι → Except ε (σ × ω)} {C : σ → ι → Prop} : ∀ {is js : List ι}
    {s : σ}, Meets step C s js → is <+: js → Meets step C s is := by
  intro is
  induction is with
  | nil => intro js s _ _; trivial
  | cons i is ih =>
    intro js s h hpre
    obtain ⟨rest, rfl⟩ := hpre
    obtain ⟨hC, hrest⟩ := h
    exact ⟨hC, fun s' o hs => ih (hrest s' o hs) (List.prefix_append is rest)⟩

theorem Meets.mono {step : σ → ι → Except ε (σ × ω)} {C D : σ → ι → Prop}
    (himp : ∀ {s i}, C s i → D s i) : ∀ {is : List ι} {s : σ}, Meets step C s is →
    Meets step D s is := by
  intro is
  induction is with
  | nil => exact fun _ => trivial
  | cons i is ih =>
    intro s h
    exact ⟨himp h.1, fun s' o hs => ih (h.2 s' o hs)⟩

/-- A condition that can be evaluated can be evaluated along a run. -/
def meetsDecidable (step : σ → ι → Except ε (σ × ω)) (C : σ → ι → Prop)
    [∀ s i, Decidable (C s i)] : ∀ (is : List ι) (s : σ), Decidable (Meets step C s is)
  | [], _ => isTrue trivial
  | i :: is, s =>
    match h : step s i with
    | .error _ => decidable_of_iff (C s i) (meets_cons_error h).symm
    | .ok (s', _) =>
      have : Decidable (Meets step C s' is) := meetsDecidable step C is s'
      decidable_of_iff (C s i ∧ Meets step C s' is) (meets_cons_ok h).symm

instance (step : σ → ι → Except ε (σ × ω)) (C : σ → ι → Prop) [∀ s i, Decidable (C s i)]
    (is : List ι) (s : σ) : Decidable (Meets step C s is) := meetsDecidable step C is s

/-- The abstract side of a simulation: a total step function, folded. -/
def fold (step : τ → ι → τ × ω) : τ → List ι → τ × List ω
  | a, [] => (a, [])
  | a, i :: is => ((fold step (step a i).1 is).1, (step a i).2 :: (fold step (step a i).1 is).2)

theorem fold_append (step : τ → ι → τ × ω) (a : τ) (is js : List ι) :
    fold step a (is ++ js) =
      ((fold step (fold step a is).1 js).1,
        (fold step a is).2 ++ (fold step (fold step a is).1 js).2) := by
  induction is generalizing a with
  | nil => rfl
  | cons i is ih => simp only [List.cons_append, fold, ih]

theorem run_cons_ok {step : σ → ι → Except ε (σ × ω)} {s s' s'' : σ} {i : ι} {is : List ι}
    {o : ω} {os : List ω} (h : step s i = .ok (s', o)) (hr : run step s' is = .ok (s'', os)) :
    run step s (i :: is) = .ok (s'', o :: os) := by
  simp only [run, h, hr]

theorem run_cons_eq_ok {step : σ → ι → Except ε (σ × ω)} {s s' : σ} {i : ι} {is : List ι}
    {os : List ω} (h : run step s (i :: is) = .ok (s', os)) :
    ∃ s₁ o os', step s i = .ok (s₁, o) ∧ run step s₁ is = .ok (s', os') ∧ os = o :: os' := by
  simp only [run] at h
  cases hs : step s i with
  | error e =>
    rw [hs] at h
    cases h
  | ok q =>
    rw [hs] at h
    simp only at h
    cases hq : run step q.1 is with
    | error e =>
      rw [hq] at h
      cases h
    | ok r =>
      rw [hq] at h
      obtain ⟨rfl, rfl⟩ := Prod.mk.inj (Except.ok.inj h)
      exact ⟨q.1, q.2, r.2, rfl, hq, rfl⟩

/-- Simulation along a run. -/
theorem run_simulates {step : σ → ι → Except ε (σ × ω)} {astep : τ → ι → τ × ω}
    {R : σ → τ → Prop} {C : σ → ι → Prop}
    (hstep : ∀ s a i, R s a → C s i →
      ∃ s', step s i = .ok (s', (astep a i).2) ∧ R s' (astep a i).1) :
    ∀ (is : List ι) (s : σ) (a : τ), R s a → Meets step C s is →
      ∃ s', run step s is = .ok (s', (fold astep a is).2) ∧ R s' (fold astep a is).1 := by
  intro is
  induction is with
  | nil => intro s a hR _; exact ⟨s, rfl, hR⟩
  | cons i is ih =>
    intro s a hR hm
    obtain ⟨hC, hrest⟩ := hm
    obtain ⟨s₁, h₁, hR₁⟩ := hstep s a i hR hC
    obtain ⟨s₂, h₂, hR₂⟩ := ih s₁ _ hR₁ (hrest s₁ _ h₁)
    exact ⟨s₂, run_cons_ok h₁ h₂, hR₂⟩

theorem run_preserves {step : σ → ι → Except ε (σ × ω)} {I : σ → Prop} {C : σ → ι → Prop}
    (hstep : ∀ s i, I s → C s i → ∃ s' o, step s i = .ok (s', o) ∧ I s') :
    ∀ (is : List ι) (s : σ), I s → Meets step C s is →
      ∃ s' os, run step s is = .ok (s', os) ∧ I s' := by
  intro is
  induction is with
  | nil => intro s hI _; exact ⟨s, [], rfl, hI⟩
  | cons i is ih =>
    intro s hI hm
    obtain ⟨hC, hrest⟩ := hm
    obtain ⟨s₁, o, h₁, hI₁⟩ := hstep s i hI hC
    obtain ⟨s₂, os, h₂, hI₂⟩ := ih s₁ hI₁ (hrest s₁ o h₁)
    exact ⟨s₂, o :: os, run_cons_ok h₁ h₂, hI₂⟩

/-- Invariance along the part of a run that gets through. -/
theorem run_keeps {step : σ → ι → Except ε (σ × ω)} {I : σ → Prop} {C : σ → ι → Prop}
    (hstep : ∀ {s i s' o}, I s → C s i → step s i = .ok (s', o) → I s') :
    ∀ {is : List ι} {s s' : σ} {os : List ω}, I s → Meets step C s is →
      run step s is = .ok (s', os) → I s' := by
  intro is
  induction is with
  | nil =>
    intro s s' os hI _ hrun
    obtain ⟨rfl, -⟩ := Prod.mk.inj (Except.ok.inj hrun)
    exact hI
  | cons i is ih =>
    intro s s' os hI hm hrun
    obtain ⟨hC, hrest⟩ := hm
    obtain ⟨s₁, o, os', hs, hq, -⟩ := run_cons_eq_ok hrun
    exact ih (hstep hI hC hs) (hrest s₁ o hs) hq

/-- Two conditions that agree on the steps of a run are met along the same runs. -/
theorem meets_iff_of_run {step : σ → ι → Except ε (σ × ω)} {I : σ → Prop} {C D : σ → ι → Prop}
    (hstep : ∀ {s i s' o}, I s → step s i = .ok (s', o) → I s' ∧ (C s i ↔ D s i)) :
    ∀ {is : List ι} {s s' : σ} {os : List ω}, I s → run step s is = .ok (s', os) →
      (Meets step C s is ↔ Meets step D s is) := by
  intro is
  induction is with
  | nil => intro s s' os _ _; exact Iff.rfl
  | cons i is ih =>
    intro s s' os hI hrun
    obtain ⟨s₁, o, os', hs, hrest, -⟩ := run_cons_eq_ok hrun
    obtain ⟨hI₁, hiff⟩ := hstep hI hs
    rw [meets_cons_ok hs, meets_cons_ok hs, hiff, ih hI₁ hrest]

theorem run_until {step : σ → ι → Except ε (σ × ω)} {I : σ → Prop} {B : σ → ι → Prop}
    (hstep : ∀ s i, I s → (∃ s' o, step s i = .ok (s', o) ∧ I s') ∨ B s i) :
    ∀ (is : List ι) (s : σ), I s →
      (∃ s' os, run step s is = .ok (s', os) ∧ I s') ∨
      (∃ pre i s' os, pre ++ [i] <+: is ∧ run step s pre = .ok (s', os) ∧ I s' ∧ B s' i) := by
  intro is
  induction is with
  | nil => intro s hI; exact .inl ⟨s, [], rfl, hI⟩
  | cons i is ih =>
    intro s hI
    rcases hstep s i hI with ⟨s₁, o, h₁, hI₁⟩ | hB
    · rcases ih s₁ hI₁ with ⟨s₂, os, h₂, hI₂⟩ | ⟨pre, j, s₂, os, hpre, h₂, hI₂, hB⟩
      · exact .inl ⟨s₂, o :: os, run_cons_ok h₁ h₂, hI₂⟩
      · refine .inr ⟨i :: pre, j, s₂, o :: os, ?_, run_cons_ok h₁ h₂, hI₂, hB⟩
        rw [List.cons_append]
        exact List.cons_prefix_cons.2 ⟨rfl, hpre⟩
    · exact .inr ⟨[], i, s, [], by simp, rfl, hI, hB⟩

theorem run_ne_ok_of_stop {step : σ → ι → Except ε (σ × ω)} {e : ε} {i : ι} :
    ∀ {pre is : List ι} {s s' : σ} {os : List ω}, pre ++ [i] <+: is →
      run step s pre = .ok (s', os) → step s' i = .error e → ∀ r, run step s is ≠ .ok r := by
  intro pre
  induction pre with
  | nil =>
    intro is s s' os hpre hrun hstop r hr
    obtain ⟨rest, rfl⟩ := hpre
    obtain ⟨rfl, -⟩ : s = s' ∧ [] = os := by simpa [run] using hrun
    simp [run, hstop] at hr
  | cons j pre ih =>
    intro is s s' os hpre hrun hstop r hr
    obtain ⟨rest, rfl⟩ := hpre
    simp only [List.cons_append, run] at hrun hr
    cases hj : step s j with
    | error e' =>
      rw [hj] at hr
      cases hr
    | ok q =>
      rw [hj] at hrun hr
      simp only at hrun hr
      cases hq : run step q.1 pre with
      | error e' =>
        rw [hq] at hrun
        cases hrun
      | ok q' =>
        rw [hq] at hrun
        obtain ⟨rfl, -⟩ : q'.1 = s' ∧ _ := by simpa using hrun
        cases hq₂ : run step q.1 (pre ++ [i] ++ rest) with
        | error e' =>
          rw [hq₂] at hr
          cases hr
        | ok q₂ => exact ih (List.prefix_append _ rest) hq hstop q₂ hq₂

/-- A fold whose steps succeed: what holds of no input, and of one input more before the
others, holds of the list. -/
theorem foldlM_ok {step : σ → ι → Except ε σ} {C : ι → Prop} {R : σ → List ι → σ → Prop}
    (hnil : ∀ s, R s [] s)
    (hcons : ∀ s i is, C i → ∃ s₁, step s i = .ok s₁ ∧ ∀ s₂, R s₁ is s₂ → R s (i :: is) s₂) :
    ∀ (is : List ι) (s : σ), (∀ i ∈ is, C i) → ∃ s', is.foldlM step s = .ok s' ∧ R s is s' := by
  intro is
  induction is with
  | nil =>
    intro s _
    exact ⟨s, rfl, hnil s⟩
  | cons i is ih =>
    intro s h
    obtain ⟨s₁, hs₁, hrest⟩ := hcons s i is (h i (List.mem_cons_self ..))
    obtain ⟨s₂, hs₂, hR⟩ := ih s₁ fun j hj => h j (List.mem_cons_of_mem i hj)
    refine ⟨s₂, ?_, hrest s₂ hR⟩
    rw [List.foldlM_cons, hs₁]
    exact hs₂

end X86Kernel.Lib
