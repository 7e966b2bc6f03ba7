import Mathlib.Tactic.TypeStar

/- Postconditions of calls that may fail: `Outcome E P x` says that the value has
   property `P` where `x` returns one, and the error property `E` where it does not.
   With `E` true of every error this is partial correctness; with an `E` that leaves
   an error out, that error does not occur. -/
namespace X86Kernel.Lib

variable {ε α β : Type} {E : ε → Prop} {P : α → Prop} {Q : β → Prop}

def Outcome (E : ε → Prop) (P : α → Prop) : Except ε α → Prop
  | .ok a => P a
  | .error e => E e

theorem Outcome.pure {a : α} (h : P a) : Outcome E P (Pure.pure a : Except ε α) := h

theorem Outcome.error {e : ε} (h : E e) : Outcome E P (.error e : Except ε α) := h

theorem Outcome.bind {x : Except ε α} {f : α → Except ε β} (hx : Outcome E P x)
    (hf : ∀ a, P a → Outcome E Q (f a)) : Outcome E Q (x >>= f) := by
  cases x with
  | error e => exact hx
  | ok a => exact hf a hx

theorem Outcome.bind_stop {x : Except ε α} {f : α → Except ε β}
    (hx : Outcome E (fun _ => False) x) : Outcome E Q (x >>= f) :=
  hx.bind fun _ h => h.elim

theorem Outcome.mono {P' : α → Prop} {x : Except ε α} (hx : Outcome E P x)
    (h : ∀ a, P a → P' a) : Outcome E P' x := by
  cases x with
  | error e => exact hx
  | ok a => exact h a hx

theorem Outcome.mono_error {E' : ε → Prop} {x : Except ε α} (hx : Outcome E P x)
    (h : ∀ e, E e → E' e) : Outcome E' P x := by
  cases x with
  | error e => exact h e hx
  | ok a => exact hx

theorem Outcome.and_eq {x : Except ε α} (hx : Outcome E P x) :
    Outcome E (fun a => x = .ok a ∧ P a) x := by
  cases x with
  | error e => exact hx
  | ok a => exact ⟨rfl, hx⟩

theorem Outcome.of_ok {x : Except ε α} {a : α} (hx : Outcome E P x) (h : x = .ok a) : P a := by
  rw [h] at hx
  exact hx

theorem Outcome.of_error {x : Except ε α} {e : ε} (hx : Outcome E P x) (h : x = .error e) :
    E e := by
  rw [h] at hx
  exact hx

/-- Partial correctness. -/
theorem outcome_of_ok {x : Except ε α} (h : ∀ a, x = .ok a → P a) :
    Outcome (fun _ => True) P x := by
  cases x with
  | error e => trivial
  | ok a => exact h a rfl

/-- The call returns exactly if `p` holds, and then a value with property `P`. -/
structure Returns (x : Except ε α) (p : Prop) (P : α → Prop) : Prop where
  of : p → ∃ a, x = .ok a
  out : ∀ a, x = .ok a → p ∧ P a

theorem Returns.pure {a : α} {p : Prop} (hp : p) (h : P a) :
    Returns (Pure.pure a : Except ε α) p P :=
  ⟨fun _ => ⟨a, rfl⟩, fun _ h' => ⟨hp, Except.ok.inj h' ▸ h⟩⟩

theorem Returns.error {e : ε} {p : Prop} (h : ¬ p) : Returns (.error e : Except ε α) p P :=
  ⟨fun hp => absurd hp h, nofun⟩

theorem Returns.bind {x : Except ε α} {f : α → Except ε β} {p q : Prop} (hx : Returns x p P)
    (hf : p → ∀ a, P a → Returns (f a) q Q) : Returns (x >>= f) (p ∧ q) Q := by
  cases x with
  | error e => exact ⟨fun h => absurd (hx.of h.1) nofun, nofun⟩
  | ok a =>
    obtain ⟨hp, ha⟩ := hx.out a rfl
    have hrest := hf hp a ha
    exact ⟨fun h => hrest.of h.2, fun b hb => ⟨⟨hp, (hrest.out b hb).1⟩, (hrest.out b hb).2⟩⟩

theorem Returns.mono {x : Except ε α} {p p' : Prop} {P' : α → Prop} (hx : Returns x p P)
    (hp : p ↔ p') (h : ∀ a, P a → P' a) : Returns x p' P' :=
  ⟨fun hp' => hx.of (hp.2 hp'), fun a ha => ⟨hp.1 (hx.out a ha).1, h a (hx.out a ha).2⟩⟩

/-- A loop over a list that gathers in `v` what its turns find, with an invariant. -/
theorem Returns.foldlM {σ ι γ : Type} {f : σ → ι → Except ε σ} {I : σ → Prop} {p : ι → Prop}
    {v : σ → List γ} {g : ι → List γ} (l : List ι)
    (hturn : ∀ i ∈ l, ∀ s, I s →
      Returns (f s i) (p i) fun t => I t ∧ (v t).Perm (g i ++ v s)) :
    ∀ {s : σ}, I s → Returns (l.foldlM f s) (∀ i ∈ l, p i) fun t =>
      I t ∧ (v t).Perm (l.flatMap g ++ v s) := by
  induction l with
  | nil =>
    intro s hs
    exact .pure nofun ⟨hs, List.Perm.refl _⟩
  | cons i l ih =>
    intro s hs
    rw [List.foldlM_cons]
    refine ((hturn i List.mem_cons_self s hs).bind fun _ t ht => ?_).mono
      List.forall_mem_cons.symm fun _ h => h
    refine (ih (fun j hj => hturn j (List.mem_cons_of_mem i hj)) ht.1).mono Iff.rfl fun u hu => ?_
    refine ⟨hu.1, hu.2.trans ?_⟩
    rw [List.flatMap_cons]
    have hswap := (ht.2.append_left (l.flatMap g)).trans
      (List.perm_append_comm_assoc (l.flatMap g) (g i) (v s))
    rwa [List.append_assoc]

end X86Kernel.Lib
