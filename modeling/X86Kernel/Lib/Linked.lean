import Mathlib.Data.List.Nodup

/- Doubly linked lists.

   The two links are functions on the nodes, `none` is NULL. `Linked next prev q
   p l` says that following `next` from `p` visits the nodes of `l` in order and
   ends, that `prev` leads back, and that the first node's `prev` is `q`. The two
   operations are pushing a node at the front (`Linked.push`) and taking a node
   out by writing the links of its neighbours (`Linked.unlink`). -/
namespace X86Kernel.Lib

variable {α : Type}

def Linked (next prev : α → Option α) : Option α → Option α → List α → Prop
  | _, p, [] => p = none
  | q, p, a :: l => p = some a ∧ prev a = q ∧ Linked next prev (some a) (next a) l

theorem Linked.congr {next prev next' prev' : α → Option α} : ∀ {l : List α} {q p : Option α},
    Linked next prev q p l → (∀ a ∈ l, next' a = next a ∧ prev' a = prev a) →
    Linked next' prev' q p l := by
  intro l
  induction l with
  | nil => intro q p h _; exact h
  | cons a l ih =>
    intro q p h hsame
    obtain ⟨hp, hq, htail⟩ := h
    obtain ⟨hn, hpr⟩ := hsame a (by simp)
    refine ⟨hp, hpr.trans hq, ?_⟩
    rw [hn]
    exact ih htail fun b hb => hsame b (List.mem_cons_of_mem _ hb)

theorem Linked.head {next prev : α → Option α} {q p : Option α} {l : List α}
    (h : Linked next prev q p l) : p = l.head? := by
  cases l with
  | nil => exact h
  | cons a l => exact h.1

theorem Linked.prev_eq {next prev : α → Option α} {a : α} {l₂ : List α} :
    ∀ {l₁ : List α} {q p : Option α}, Linked next prev q p (l₁ ++ a :: l₂) →
      prev a = (l₁.getLast?).or q := by
  intro l₁
  induction l₁ with
  | nil => intro q p h; simpa using h.2.1
  | cons b l₁ ih =>
    intro q p h
    rw [ih h.2.2, List.getLast?_cons]
    cases l₁.getLast? <;> rfl

theorem Linked.next_eq {next prev : α → Option α} {a : α} {l₂ : List α} :
    ∀ {l₁ : List α} {q p : Option α}, Linked next prev q p (l₁ ++ a :: l₂) →
      next a = l₂.head? := by
  intro l₁
  induction l₁ with
  | nil => intro q p h; exact h.2.2.head
  | cons b l₁ ih => intro q p h; exact ih h.2.2

section Neighbours

variable {next prev : α → Option α} {p : Option α} {l : List α} {a b : α}

theorem Linked.mem_of_next (h : Linked next prev none p l) (ha : a ∈ l) (hb : next a = some b) :
    b ∈ l := by
  obtain ⟨l₁, l₂, rfl⟩ := List.append_of_mem ha
  rw [h.next_eq] at hb
  exact List.mem_append_right _ (List.mem_cons_of_mem _ (List.mem_of_head? hb))

theorem Linked.mem_of_prev (h : Linked next prev none p l) (ha : a ∈ l) (hb : prev a = some b) :
    b ∈ l := by
  obtain ⟨l₁, l₂, rfl⟩ := List.append_of_mem ha
  rw [h.prev_eq, Option.or_none] at hb
  exact List.mem_append_left _ (List.mem_of_getLast? hb)

theorem Linked.next_ne (h : Linked next prev none p l) (ha : a ∈ l) (hn : l.Nodup) :
    next a ≠ some a := by
  obtain ⟨l₁, l₂, rfl⟩ := List.append_of_mem ha
  rw [h.next_eq]
  intro e
  exact (List.nodup_cons.1 (List.nodup_append.1 hn).2.1).1 (List.mem_of_head? e)

theorem Linked.prev_ne (h : Linked next prev none p l) (ha : a ∈ l) (hn : l.Nodup) :
    prev a ≠ some a := by
  obtain ⟨l₁, l₂, rfl⟩ := List.append_of_mem ha
  rw [h.prev_eq, Option.or_none]
  intro e
  exact (List.nodup_append.1 hn).2.2 a (List.mem_of_getLast? e) a (by simp) rfl

theorem Linked.prev_eq_none_iff (h : Linked next prev none p l) (ha : a ∈ l) (hn : l.Nodup) :
    prev a = none ↔ p = some a := by
  obtain ⟨l₁, l₂, rfl⟩ := List.append_of_mem ha
  rw [h.prev_eq, Option.or_none, h.head]
  cases l₁ with
  | nil => simp
  | cons b l₁ =>
    have hne : b ≠ a := (List.nodup_append.1 hn).2.2 b (by simp) a (by simp)
    simp [List.getLast?_cons, hne]

end Neighbours

variable [DecidableEq α]

theorem Linked.push {next prev next' prev' : α → Option α} {p : Option α} {l : List α} {a : α}
    (h : Linked next prev none p l) (ha : a ∉ l) (hn : l.Nodup) (hnext : next' a = p)
    (hprev : prev' a = none) (hnext' : ∀ b ∈ l, next' b = next b)
    (hprev' : ∀ b ∈ l, prev' b = if p = some b then some a else prev b) :
    Linked next' prev' none (some a) (a :: l) := by
  refine ⟨rfl, hprev, ?_⟩
  rw [hnext]
  cases l with
  | nil => exact h
  | cons b l =>
    obtain ⟨hp, -, htail⟩ := h
    refine ⟨hp, by rw [hprev' b (by simp), if_pos hp], ?_⟩
    rw [hnext' b (by simp)]
    refine htail.congr fun c hc => ⟨hnext' c (List.mem_cons_of_mem _ hc), ?_⟩
    rw [hprev' c (List.mem_cons_of_mem _ hc), if_neg]
    rw [hp]
    intro e
    exact (List.nodup_cons.1 hn).1 (Option.some.inj e ▸ hc)

/-- A node is taken out of the part of a list that starts after `q`. -/
theorem Linked.unlink_aux {next prev next' prev' : α → Option α} {a : α} {l₂ : List α} :
    ∀ {l₁ : List α} {q p : Option α}, Linked next prev q p (l₁ ++ a :: l₂) →
      (l₁ ++ a :: l₂).Nodup → (∀ b ∈ l₁ ++ a :: l₂, q ≠ some b) →
      (∀ b ∈ l₁ ++ l₂, next' b = if prev a = some b then next a else next b) →
      (∀ b ∈ l₁ ++ l₂, prev' b = if next a = some b then prev a else prev b) →
      Linked next' prev' q (if l₁ = [] then next a else p) (l₁ ++ l₂) := by
  intro l₁
  induction l₁ with
  | nil =>
    intro q p h hn hq hnext hprev
    obtain ⟨-, hqa, htail⟩ := h
    rw [if_pos rfl]
    simp only [List.nil_append] at hn hq hnext hprev ⊢
    cases l₂ with
    | nil => exact htail
    | cons c l₂ =>
      obtain ⟨hc, -, htail⟩ := htail
      have hfar : ∀ b ∈ c :: l₂, prev a ≠ some b := by
        intro b hb
        rw [hqa]
        exact hq b (List.mem_cons_of_mem _ hb)
      refine ⟨hc, by rw [hprev c (by simp), if_pos hc, hqa], ?_⟩
      rw [hnext c (by simp), if_neg (hfar c (by simp))]
      refine htail.congr fun b hb => ⟨?_, ?_⟩
      · rw [hnext b (List.mem_cons_of_mem _ hb), if_neg (hfar b (List.mem_cons_of_mem _ hb))]
      · rw [hprev b (List.mem_cons_of_mem _ hb), if_neg]
        rw [hc]
        intro e
        have hcl := (List.nodup_cons.1 (List.nodup_cons.1 hn).2).1
        exact hcl (Option.some.inj e ▸ hb)
  | cons b l₁ ih =>
    intro q p h hn hq hnext hprev
    have hprevEq := h.prev_eq
    have hnextEq := h.next_eq
    obtain ⟨hp, hqb, htail⟩ := h
    rw [if_neg (by simp)]
    simp only [List.cons_append] at hn hq hnext hprev htail ⊢
    obtain ⟨hb, hn'⟩ := List.nodup_cons.1 hn
    have hih := ih htail hn' (fun x hx e => hb (Option.some.inj e ▸ hx))
      (fun x hx => hnext x (List.mem_cons_of_mem _ hx))
      (fun x hx => hprev x (List.mem_cons_of_mem _ hx))
    refine ⟨hp, ?_, ?_⟩
    · rw [hprev b (by simp), if_neg, hqb]
      rw [hnextEq]
      intro e
      exact hb (by simp [List.mem_of_head? e])
    · rw [hnext b (by simp)]
      -- the next node of `b` changes exactly when `a` is right after it
      have hiff : prev a = some b ↔ l₁ = [] := by
        rw [hprevEq, List.getLast?_cons]
        constructor
        · intro e
          by_contra hne
          obtain ⟨c, hc⟩ : ∃ c, l₁.getLast? = some c := ⟨_, List.getLast?_eq_some_getLast hne⟩
          rw [hc] at e
          have hcb : c = b := by simpa using e
          exact hb (by simp [← hcb, List.mem_of_getLast? hc])
        · intro e
          simp [e]
      by_cases hl : l₁ = []
      · rw [if_pos (hiff.2 hl)]
        rwa [if_pos hl] at hih
      · rw [if_neg (fun e => hl (hiff.1 e))]
        rwa [if_neg hl] at hih

/-- A node is taken out: its neighbours get each other as links, and a first
node leaves the list to the one after it. -/
theorem Linked.unlink {next prev next' prev' : α → Option α} {p : Option α}
    {l : List α} {a : α} (h : Linked next prev none p l) (ha : a ∈ l) (hn : l.Nodup)
    (hnext : ∀ b ∈ l, b ≠ a → next' b = if prev a = some b then next a else next b)
    (hprev : ∀ b ∈ l, b ≠ a → prev' b = if next a = some b then prev a else prev b) :
    Linked next' prev' none (if prev a = none then next a else p) (l.erase a) := by
  obtain ⟨l₁, l₂, rfl, hl₁⟩ : ∃ l₁ l₂, l = l₁ ++ a :: l₂ ∧ a ∉ l₁ := by
    obtain ⟨l₁, l₂, h₁, h₂, -⟩ := List.exists_erase_eq ha
    exact ⟨l₁, l₂, h₂, h₁⟩
  have herase : (l₁ ++ a :: l₂).erase a = l₁ ++ l₂ := by
    rw [List.erase_append_right _ hl₁, List.erase_cons_head]
  have hl₂ : a ∉ l₂ := (List.nodup_cons.1 (List.nodup_append.1 hn).2.1).1
  have hsub : ∀ b ∈ l₁ ++ l₂, b ∈ l₁ ++ a :: l₂ ∧ b ≠ a := by
    intro b hb
    rcases List.mem_append.1 hb with hb | hb
    · exact ⟨List.mem_append_left _ hb, fun e => hl₁ (e ▸ hb)⟩
    · exact ⟨List.mem_append_right _ (List.mem_cons_of_mem _ hb), fun e => hl₂ (e ▸ hb)⟩
  have hhead : (if prev a = none then next a else p) = if l₁ = [] then next a else p := by
    refine if_congr ?_ rfl rfl
    rw [h.prev_eq]
    cases l₁ with
    | nil => simp
    | cons b l₁ => simp [List.getLast?_cons]
  rw [herase, hhead]
  exact h.unlink_aux hn (by simp) (fun b hb => hnext b (hsub b hb).1 (hsub b hb).2)
    (fun b hb => hprev b (hsub b hb).1 (hsub b hb).2)

end X86Kernel.Lib
