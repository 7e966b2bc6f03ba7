import X86Kernel.Lib.Outcome
import X86Kernel.Memory.Paging

/- Mapping with an allocator of page tables that may fail or run out.

   What is proved: whatever the allocator answers, as long as it gives no frame that is in
   use, `map_phys_range` maps the pages from the first one up to a page whose table is
   missing, tells by its answer if that was before the end, keeps the recursive window, and
   writes to the directory only entries that were not present (`Allocator.mapPhysRange`,
   `Allocator.pagingMapPages`).

   The allocator is a parameter, with a relation `P` between its state and the frames it must
   not give, and a property `E` of the faults it may run into. -/
namespace X86Kernel.Paging

open Lib

section Shortage

variable {σ : Type}

/-- A call in a state related to the frames in use gives NULL or a frame that is not in use,
or fails with an allowed fault. -/
structure Allocator (mmAllocPagetable : σ → Kernel (σ × Nat)) (E : Fault → Prop)
    (P : σ → (Nat → Prop) → Prop) : Prop where
  call : ∀ {a : σ} {used : Nat → Prop}, P a used →
    Outcome E (fun r => (r.2 = 0 ∧ P r.1 used) ∨ ∃ frame, frame ≠ 0 ∧ r.2 = frame * pageSize ∧
      ¬ used frame ∧ P r.1 fun f => used f ∨ f = frame) (mmAllocPagetable a)
  less : ∀ {a : σ} {used used' : Nat → Prop}, P a used → (∀ f, used' f → used f) → P a used'

/-- Entries of the directory are kept, or they were empty and have got a table that was not
in use. -/
def Grows (s s' : Space) : Prop :=
  ∀ e, s'.pde e = s.pde e ∨
    (present (s.pde e) = false ∧ present (s'.pde e) = true ∧ ¬ InUse s (frameOf (s'.pde e)))

theorem Grows.of_same {s s' : Space} (h : ∀ e, s'.pde e = s.pde e) : Grows s s' :=
  fun e => .inl (h e)

theorem Grows.present {s s' : Space} (h : Grows s s') {e : Nat} (hp : present (s.pde e) = true) :
    s'.pde e = s.pde e := by
  cases h e with
  | inl hsame => exact hsame
  | inr hnew =>
    rw [hnew.1] at hp
    cases hp

theorem Grows.inUse {s s' : Space} (h : Grows s s') {f : Nat} (hf : InUse s f) : InUse s' f := by
  obtain ⟨e, he, hp, hframe⟩ := hf
  refine ⟨e, he, ?_, ?_⟩
  · rw [h.present hp]
    exact hp
  · rw [h.present hp]
    exact hframe

theorem Grows.trans {s s' s'' : Space} (h : Grows s s') (h' : Grows s' s'') : Grows s s'' := by
  intro e
  cases h e with
  | inr hnew =>
    have hkept := h'.present hnew.2.1
    rw [← hkept] at hnew
    exact .inr hnew
  | inl hsame =>
    cases h' e with
    | inl hsame' => exact .inl (hsame'.trans hsame)
    | inr hnew =>
      rw [hsame] at hnew
      exact .inr ⟨hnew.1, hnew.2.1, fun hf => hnew.2.2 (h.inUse hf)⟩

theorem Grows.install {s : Space} (hs : Recursive s) {d frame : Nat}
    (hp : Paging.present (s.pde d) = false) (hfree : ¬ InUse s frame) :
    Grows s (s.install d frame) := by
  intro e
  rw [pde_install hs hfree]
  by_cases hed : e = d
  · rw [if_pos hed, hed]
    exact .inr ⟨hp, present_table frame, by rw [frameOf_table]; exact hfree⟩
  · rw [if_neg hed]
    exact .inl rfl

variable {mmAllocPagetable : σ → Kernel (σ × Nat)} {E : Fault → Prop}
  {P : σ → (Nat → Prop) → Prop}

/-- The next `n` calls each give a frame, and lead to the state `a'`. -/
def Given (mmAllocPagetable : σ → Kernel (σ × Nat)) : Nat → σ → σ → Prop
  | 0, a, a' => a' = a
  | n + 1, a, a' => ∃ a₁ frame, mmAllocPagetable a = .ok (a₁, frame * pageSize) ∧ frame ≠ 0 ∧
      Given mmAllocPagetable n a₁ a'

theorem Given.append : ∀ {n m : Nat} {a b c : σ}, Given mmAllocPagetable n a b →
    Given mmAllocPagetable m b c → Given mmAllocPagetable (m + n) a c := by
  intro n
  induction n with
  | zero =>
    intro m a b c h h'
    obtain rfl : b = a := h
    exact h'
  | succ n ih =>
    intro m a b c h h'
    obtain ⟨a₁, frame, hcall, hzero, hrest⟩ := h
    exact ⟨a₁, frame, hcall, hzero, ih hrest h'⟩

/-- What the tables of the `n` entries from `d` on have cost: a frame for each one that was
missing, or less, and then NULL. -/
structure Accounted (mmAllocPagetable : σ → Kernel (σ × Nat)) (s : Space) (a : σ) (d n : Nat)
    (s' : Space) (a' : σ) (done : Bool) : Prop where
  beyond : ∀ e, d + n ≤ e → s'.pde e = s.pde e
  all : done = true → Given mmAllocPagetable (missing s d n) a a'
  short : done = false → ∃ k b, k < missing s d n ∧ Given mmAllocPagetable k a b ∧
    mmAllocPagetable b = .ok (a', 0)

theorem missing_one (s : Space) (d : Nat) :
    missing s d 1 = if present (s.pde d) then 0 else 1 := by
  rw [missing, missing, Nat.zero_add]

theorem Accounted.trans {s s₁ s' : Space} {a a₁ a' : σ} {d n : Nat} {done : Bool}
    (h : Accounted mmAllocPagetable s a d 1 s₁ a₁ true)
    (h' : Accounted mmAllocPagetable s₁ a₁ (d + 1) n s' a' done) :
    Accounted mmAllocPagetable s a d (n + 1) s' a' done := by
  have hsame : missing s₁ (d + 1) n = missing s (d + 1) n := missing_congr n h.beyond
  have hsum : missing s d (n + 1) = missing s₁ (d + 1) n + missing s d 1 := by
    rw [hsame, missing_one, missing]
  refine ⟨fun e he => ?_, fun hdone => ?_, fun hdone => ?_⟩
  · rw [h'.beyond e (by omega), h.beyond e (by omega)]
  · rw [hsum]
    exact (h.all rfl).append (h'.all hdone)
  · obtain ⟨k, b, hlt, hgiven, hnull⟩ := h'.short hdone
    exact ⟨k + missing s d 1, b, by omega, (h.all rfl).append hgiven, hnull⟩

theorem Accounted.of_pde {s s₁ s' : Space} {a a' : σ} {d n : Nat} {done : Bool}
    (h : Accounted mmAllocPagetable s a d n s₁ a' done) (hpde : ∀ e, s'.pde e = s₁.pde e) :
    Accounted mmAllocPagetable s a d n s' a' done :=
  ⟨fun e he => (hpde e).trans (h.beyond e he), h.all, h.short⟩

/-- `ensure_page_table`: the table is there afterwards, or it was missing and nothing
changed. -/
theorem Allocator.ensurePageTable (hA : Allocator mmAllocPagetable E P) {s : Space}
    (hs : Recursive s) {a : σ} {d va : Nat} (hd : d < 1023) (hva : getPdeIndex va = d)
    (ha : P a (InUse s)) :
    Outcome E (fun r => Recursive r.1 ∧ P r.2.1 (InUse r.1) ∧ Grows s r.1 ∧
      (∀ q < 1023 * 1024, r.1.entry q = s.entry q) ∧
      ((r.2.2 = 0 ∧ present (r.1.pde d) = false ∧
          Accounted mmAllocPagetable s a d 1 r.1 r.2.1 false) ∨
        (r.2.2 = pageTable d ∧ present (r.1.pde d) = true ∧
          Accounted mmAllocPagetable s a d 1 r.1 r.2.1 true)))
      (ensurePageTable mmAllocPagetable s a va) := by
  have hentry : getTableEntry s va = .ok (s.pde d) := by
    rw [getTableEntry, hva, hs.load_dir (by omega)]
  unfold Paging.ensurePageTable
  simp only [hentry, ok_bind, hva]
  cases hp : present (s.pde d) with
  | true =>
    simp only [Bool.not_true, Bool.false_eq_true, if_false,
      hs.getPageTable (show d < 1024 by omega) hp, ok_bind]
    refine ⟨hs, ha, Grows.of_same fun _ => rfl, fun _ _ => rfl, .inr ⟨rfl, hp, fun _ _ => rfl,
      fun _ => ?_, (fun h => by cases h)⟩⟩
    rw [missing_one, if_pos hp]
    rfl
  | false =>
    have hone : missing s d 1 = 1 := by
      rw [missing_one, hp]
      rfl
    simp only [Bool.not_false, if_true]
    apply Outcome.bind (hA.call ha).and_eq
    intro r hr
    obtain ⟨a', pa⟩ := r
    obtain ⟨hcall, hr⟩ := hr
    cases hr with
    | inl hnull =>
      obtain ⟨rfl, ha'⟩ := hnull
      refine ⟨hs, ha', Grows.of_same fun _ => rfl, fun _ _ => rfl, .inl ⟨rfl, hp, fun _ _ => rfl,
        (fun h => by cases h), fun _ => ⟨0, a, ?_, rfl, hcall⟩⟩⟩
      rw [hone]
      exact Nat.one_pos
    | inr hgiven =>
      obtain ⟨frame, hzero, rfl, hfree, ha'⟩ := hgiven
      have hs' := hs.install hd hfree
      have hnew : present ((s.install d frame).pde d) = true := by
        rw [pde_install hs hfree, if_pos rfl]
        exact present_table frame
      have hne : frame * pageSize ≠ 0 := by unfold pageSize; omega
      have haligned : frame * pageSize % pageSize = 0 := Nat.mul_mod_left _ _
      simp only [haligned, assert, decide_true, if_true, ok_bind, hne, if_false,
        hs.mapTableEntry hd hp hfree hva, hs'.getPageTable (show d < 1024 by omega) hnew]
      refine ⟨hs', hA.less ha' fun f hf => inUse_install hs hfree hf, Grows.install hs hp hfree,
        fun q hq => entry_install hs hp hfree hq, .inr ⟨rfl, hnew, fun e he => ?_, fun _ => ?_,
          (fun h => by cases h)⟩⟩
      · rw [pde_install hs hfree, if_neg (by omega)]
      · rw [hone]
        exact ⟨a', frame, hcall, hzero, rfl⟩

/-- What a walk has done: it has mapped the first `m` of the pages, and has stopped early at
a page without a table only. -/
structure Walked (s : Space) (page count hwFlags pa : Nat) (s' : Space) (done : Bool) (m : Nat) :
    Prop where
  le : m ≤ count
  maps : Maps s s' page m fun k => pageEntry (u32 (pa + k * 4096)) hwFlags
  complete : done = true → m = count
  stopped : done = false → m < count ∧ present (s'.pde ((page + m) / 1024)) = false

/-- `map_phys_range` with any allocator: each turn goes to the end of a table or of the range,
or ends the walk without a table. -/
theorem Allocator.mapPhysRange (hA : Allocator mmAllocPagetable E P) (hwFlags : Nat) :
    ∀ (fuel count : Nat) {s : Space} {a : σ} {pa d i : Nat}, Recursive s → count ≤ fuel →
    0 < count → i < 1024 → d * 1024 + i + count ≤ 1023 * 1024 → pa < 2 ^ 32 → P a (InUse s) →
    Outcome E (fun r => Recursive r.1 ∧ P r.2.1 (InUse r.1) ∧ Grows s r.1 ∧
        (∃ m, Walked s (d * 1024 + i) count hwFlags pa r.1 r.2.2 m) ∧
        Accounted mmAllocPagetable s a d ((i + count + 1023) / 1024) r.1 r.2.1 r.2.2)
      (mapPhysRange mmAllocPagetable hwFlags fuel count s a pa ((d * 1024 + i) * 4096)) := by
  intro fuel
  induction fuel with
  | zero =>
    intro count s a pa d i _ hfuel hpos
    omega
  | succ fuel ih =>
    intro count s a pa d i hs hfuel hpos hi hrange hpa ha
    cases count with
    | zero => omega
    | succ count =>
      have hd : d < 1023 := by omega
      obtain ⟨n, hn⟩ : ∃ n, (i + (count + 1) + 1023) / 1024 = n + 1 :=
        ⟨(i + count) / 1024, by omega⟩
      rw [hn]
      unfold Paging.mapPhysRange
      rw [getPteIndex_page hi]
      apply Outcome.bind (hA.ensurePageTable hs hd (getPdeIndex_page hi) ha)
      intro r hr
      obtain ⟨s₁, a₁, table⟩ := r
      obtain ⟨hs₁, ha₁, hgrows₁, hentry₁, htable⟩ := hr
      dsimp only at hs₁ ha₁ hgrows₁ hentry₁ htable ⊢
      cases htable with
      | inl hnone =>
        -- no table: the pages from here on stay as they are
        obtain ⟨rfl, hmissing, hacc⟩ := hnone
        rw [if_pos rfl]
        refine ⟨hs₁, ha₁, hgrows₁, ⟨0, Nat.zero_le _, Maps.none hentry₁ _ _, (fun h => by cases h),
          fun _ => ⟨Nat.succ_pos _, ?_⟩⟩, fun e he => hacc.beyond e (by omega),
          (fun h => by cases h), fun _ => ?_⟩
        · rw [show (d * 1024 + i + 0) / 1024 = d by omega]
          exact hmissing
        · obtain ⟨k, b, hlt, hgiven, hnull⟩ := hacc.short rfl
          refine ⟨k, b, ?_, hgiven, hnull⟩
          rw [missing_one] at hlt
          rw [missing]
          omega
      | inr htable =>
        obtain ⟨rfl, hp₁, hacc⟩ := htable
        have hne : pageTable d ≠ 0 := by unfold pageTable; omega
        obtain ⟨s₂, hrun₂, hs₂, hpde₂, hmaps₂⟩ :=
          Recursive.mapInTable hwFlags hd (1024 - i) (count + 1) (i := i) hs₁ hp₁ (by omega) hpa
        have hmaps : Maps s s₂ (d * 1024 + i) (min (1024 - i) (count + 1))
            fun k => pageEntry (u32 (pa + k * 4096)) hwFlags := Maps.after_same hentry₁ hmaps₂
        have hgrows : Grows s s₂ := hgrows₁.trans (Grows.of_same hpde₂)
        have hused : ∀ f, InUse s₂ f → InUse s₁ f := by
          intro f h
          obtain ⟨e, he, hp⟩ := h
          rw [hpde₂] at hp
          exact ⟨e, he, hp⟩
        have ha₂ : P a₁ (InUse s₂) := hA.less ha₁ hused
        rw [if_neg hne, show entriesAmount - i = 1024 - i from rfl, hrun₂, ok_bind]
        dsimp only
        by_cases hlast : count + 1 ≤ 1024 - i
        · -- the range ends in this table
          rw [Nat.min_eq_right hlast] at hmaps
          obtain rfl : n = 0 := by omega
          rw [show count + 1 - (1024 - i) = 0 by omega, mapPhysRange_zero]
          exact ⟨hs₂, ha₂, hgrows, ⟨count + 1, Nat.le_refl _, hmaps, fun _ => rfl,
            fun h => by cases h⟩, hacc.of_pde hpde₂⟩
        · have hmin : min (1024 - i) (count + 1) = 1024 - i := by omega
          have hnext : d * 1024 + i + (1024 - i) = (d + 1) * 1024 := by omega
          have hrest := @ih (count + 1 - (1024 - i)) s₂ a₁ (u32 (pa + (1024 - i) * 4096)) (d + 1) 0
            hs₂ (by omega) (by omega) (by omega)
          have htables : (count + 1 - (1024 - i) + 1023) / 1024 = n := by omega
          rw [Nat.add_zero, Nat.zero_add, htables] at hrest
          rw [hmin] at hmaps ⊢
          rw [hnext]
          apply (hrest (by omega) (Nat.mod_lt _ (by decide)) ha₂).mono
          intro r hr
          obtain ⟨hs₃, ha₃, hgrows₃, ⟨m, hle, hmaps₃, hcomplete, hstopped⟩, hacc₃⟩ := hr
          refine ⟨hs₃, ha₃, hgrows.trans hgrows₃, ⟨1024 - i + m, by omega, ?_, ?_, ?_⟩,
            (hacc.of_pde hpde₂).trans hacc₃⟩
          · apply hmaps.trans
            rw [hnext]
            simpa only [u32_add_u32, Nat.add_mul, Nat.add_assoc] using hmaps₃
          · intro hdone
            have := hcomplete hdone
            omega
          · intro hdone
            obtain ⟨hlt, hmissing⟩ := hstopped hdone
            refine ⟨by omega, ?_⟩
            rw [show d * 1024 + i + (1024 - i + m) = (d + 1) * 1024 + m by omega]
            exact hmissing

theorem Allocator.pagingMapPages (hA : Allocator mmAllocPagetable E P) {s : Space} {a : σ}
    {pa va count : Nat} (pagingFlags : Nat) (hs : Recursive s) (hpa : pa % pageSize = 0)
    (hlt : pa < 2 ^ 32) (hva : va % pageSize = 0) (hcount : 1 ≤ count)
    (hrange : va + count * pageSize ≤ 0xFFC00000) (ha : P a (InUse s)) :
    Outcome E (fun r => Recursive r.1 ∧ P r.2.1 (InUse r.1) ∧ Grows s r.1 ∧
        (∃ m, Walked s (va / pageSize) count (pagingToHwFlags (pagingFlags ||| 1)) pa r.1 r.2.2 m) ∧
        Accounted mmAllocPagetable s a (getPdeIndex va) ((getPteIndex va + count + 1023) / 1024)
          r.1 r.2.1 r.2.2)
      (pagingMapPages mmAllocPagetable s a pa va count pagingFlags) := by
  obtain ⟨haddr, hpage⟩ := page_address hva
  have hpos : count > 0 := hcount
  have hwalk := hA.mapPhysRange (pagingToHwFlags (pagingFlags ||| 1)) count count hs
    (d := getPdeIndex va) (Nat.le_refl _) hpos (getPteIndex_lt va)
    (by unfold pageSize at *; omega) hlt ha
  rw [← haddr, ← hpage] at hwalk
  unfold Paging.pagingMapPages
  simp only [hpa, hva, hpos, assert, decide_true, if_true, ok_bind]
  exact hwalk

theorem ensurePageTable_keeps {I : σ → Prop}
    (hI : ∀ {a a' : σ} {pa : Nat}, I a → mmAllocPagetable a = .ok (a', pa) → I a') {s s' : Space}
    {a a' : σ} {va table : Nat}
    (h : ensurePageTable mmAllocPagetable s a va = .ok (s', a', table)) (ha : I a) : I a' := by
  obtain ⟨entry, -, hrest⟩ := exists_of_bind_eq_ok h
  split at hrest
  · obtain ⟨⟨a₁, pa⟩, hcall, hrest'⟩ := exists_of_bind_eq_ok hrest
    obtain ⟨-, -, htable⟩ := exists_of_bind_eq_ok hrest'
    have ha₁ : I a₁ := hI ha hcall
    dsimp only at htable
    split at htable
    · obtain ⟨-, hr⟩ := Prod.mk.inj (Except.ok.inj htable)
      rw [← (Prod.mk.inj hr).1]
      exact ha₁
    · obtain ⟨p, -, hget⟩ := exists_of_bind_eq_ok htable
      obtain ⟨t, -, hreturn⟩ := exists_of_bind_eq_ok hget
      obtain ⟨-, hr⟩ := Prod.mk.inj (Except.ok.inj hreturn)
      rw [← (Prod.mk.inj hr).1]
      exact ha₁
  · obtain ⟨t, -, hreturn⟩ := exists_of_bind_eq_ok hrest
    obtain ⟨-, hr⟩ := Prod.mk.inj (Except.ok.inj hreturn)
    rw [← (Prod.mk.inj hr).1]
    exact ha

theorem mapPhysRange_keeps {I : σ → Prop}
    (hI : ∀ {a a' : σ} {pa : Nat}, I a → mmAllocPagetable a = .ok (a', pa) → I a')
    (hwFlags : Nat) : ∀ (fuel count : Nat) {s s' : Space} {a a' : σ} {pa va : Nat} {b : Bool},
    mapPhysRange mmAllocPagetable hwFlags fuel count s a pa va = .ok (s', a', b) → I a → I a' := by
  intro fuel
  induction fuel with
  | zero =>
    intro count s s' a a' pa va b h ha
    cases count with
    | zero =>
      obtain ⟨-, hr⟩ := Prod.mk.inj (Except.ok.inj h)
      rw [← (Prod.mk.inj hr).1]
      exact ha
    | succ count => cases h
  | succ fuel ih =>
    intro count s s' a a' pa va b h ha
    cases count with
    | zero =>
      obtain ⟨-, hr⟩ := Prod.mk.inj (Except.ok.inj h)
      rw [← (Prod.mk.inj hr).1]
      exact ha
    | succ count =>
      obtain ⟨⟨s₁, a₁, table⟩, htable, hrest⟩ := exists_of_bind_eq_ok h
      have ha₁ : I a₁ := ensurePageTable_keeps hI htable ha
      dsimp only at hrest
      split at hrest
      · obtain ⟨-, hr⟩ := Prod.mk.inj (Except.ok.inj hrest)
        rw [← (Prod.mk.inj hr).1]
        exact ha₁
      · obtain ⟨⟨s₂, count₂, pa₂, va₂⟩, -, hwalk⟩ := exists_of_bind_eq_ok hrest
        exact ih count₂ hwalk ha₁

theorem pagingMapPages_keeps {I : σ → Prop}
    (hI : ∀ {a a' : σ} {pa : Nat}, I a → mmAllocPagetable a = .ok (a', pa) → I a') {s s' : Space}
    {a a' : σ} {pa va count pagingFlags : Nat} {b : Bool}
    (h : pagingMapPages mmAllocPagetable s a pa va count pagingFlags = .ok (s', a', b))
    (ha : I a) : I a' := by
  obtain ⟨-, -, hrest⟩ := exists_of_bind_eq_ok h
  obtain ⟨-, -, hrest'⟩ := exists_of_bind_eq_ok hrest
  obtain ⟨-, -, hwalk⟩ := exists_of_bind_eq_ok hrest'
  exact mapPhysRange_keeps hI _ count count hwalk ha

end Shortage

end X86Kernel.Paging
