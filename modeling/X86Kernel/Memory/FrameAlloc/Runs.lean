import X86Kernel.Lib.Run
import X86Kernel.Memory.FrameAlloc.Intact

/- Whole runs of the frame allocator, from the first list on. Beside the
   descriptors a run keeps the pages that are handed out and not given back, in
   the order in which they were handed out.

   What is proved: along every run whose calls meet `Call.Safe` the free list is
   intact after each call, no call faults, and no page is handed out twice
   (`run_keeps_freeList`). The condition leaves out the calls that reach one of
   the three defects of the code: an allocation marks one page more than it
   returns, and that page lies behind the array when the run ends it; the new
   foot of a run that was cut is not written; and a free that merges backwards
   pushes a head that is in the list already (`free_after_run_loops`). -/
namespace X86Kernel.Frame

open Lib

/-- The frames and the pages that are handed out. -/
structure Usage where
  frames : Frames
  allocated : List Nat

inductive Call where
  | alloc (requestCount : Nat)
  | free (pfn count : Nat)
  deriving DecidableEq, Repr

/-- The `n` pages from the one that was returned on. -/
def handedOut (pfn : Option Nat) (n : Nat) : List Nat :=
  match pfn with
  | none => []
  | some a => List.range' a n

def step (u : Usage) : Call → Kernel (Usage × Option Nat)
  | .alloc requestCount => do
    let (s, pfn) ← frameAllocPhysPages u.frames requestCount
    return (⟨s, u.allocated ++ handedOut pfn requestCount⟩, pfn)
  | .free pfn count => do
    let s ← frameFreePhysPages u.frames pfn count
    return (⟨s, u.allocated.filter fun j => decide (¬ (pfn ≤ j ∧ j < pfn + count))⟩, none)

/-- Callers ask for at least one page and give back only pages they have. -/
def Call.Allowed (u : Usage) : Call → Prop
  | .alloc requestCount => 1 ≤ requestCount
  | .free pfn count => ∀ j ∈ List.range' pfn count, j ∈ u.allocated

/-- The calls that reach none of the defects. -/
def Call.Safe (u : Usage) : Call → Prop
  | .alloc requestCount => u.frames.AllocSafe requestCount
  | .free pfn count => 1 ≤ count ∧ (pfn = 0 ∨ (u.frames.desc (pfn - 1)).type ≠ .unused)

/-- What the frame allocator keeps. -/
structure Usage.Sound (u : Usage) : Prop where
  small : u.frames.count < 2 ^ 20
  intact : ∃ L, Intact u.frames L
  once : u.allocated.Nodup
  inUse : ∀ j ∈ u.allocated, j < u.frames.count ∧ ¬ u.frames.Unused j

theorem alloc_sound {u : Usage} {n : Nat} (h : u.Sound) (hn : 1 ≤ n)
    (hsafe : u.frames.AllocSafe n) :
    ∃ u' pfn, step u (.alloc n) = .ok (u', pfn) ∧ u'.Sound := by
  obtain ⟨L, hL⟩ := h.intact
  rcases frameAllocPhysPages_ok hL h.small hn hsafe with hnone | hsome
  · refine ⟨⟨u.frames, u.allocated ++ []⟩, none, ?_, ?_⟩
    · rw [step, hnone]
      rfl
    · rw [List.append_nil]
      exact h
  · obtain ⟨s', a, L', hs', hintact, hsize, hfree, hunused⟩ := hsome
    refine ⟨⟨s', u.allocated ++ List.range' a n⟩, some a, ?_, ?_, ⟨L', hintact⟩, ?_, ?_⟩
    · rw [step, hs']
      rfl
    · exact hsize ▸ h.small
    · -- the new pages were unused, those already handed out are not
      apply List.Nodup.append h.once List.nodup_range'
      intro j hj hnew
      rw [List.mem_range'_1] at hnew
      exact (h.inUse j hj).2 (hfree j hnew.1 hnew.2)
    · intro j hj
      show j < s'.count ∧ ¬ s'.Unused j
      rw [hsize, hunused]
      rcases List.mem_append.1 hj with hj | hj
      · exact ⟨(h.inUse j hj).1, fun hu => (h.inUse j hj).2 hu.1⟩
      · rw [List.mem_range'_1] at hj
        exact ⟨(hfree j hj.1 hj.2).1, fun hu => hu.2 hj⟩

theorem free_sound {u : Usage} {p n : Nat} (h : u.Sound)
    (hallowed : ∀ j ∈ List.range' p n, j ∈ u.allocated) (hn : 1 ≤ n)
    (hbefore : p = 0 ∨ (u.frames.desc (p - 1)).type ≠ .unused) :
    ∃ u' pfn, step u (.free p n) = .ok (u', pfn) ∧ u'.Sound := by
  obtain ⟨L, hL⟩ := h.intact
  have hused : ∀ j, p ≤ j → j < p + n → j < u.frames.count ∧ ¬ u.frames.Unused j := by
    intro j hj hjn
    exact h.inUse j (hallowed j (List.mem_range'_1.2 ⟨hj, hjn⟩))
  have hle : p + n ≤ u.frames.count := by
    have := (hused (p + n - 1) (by omega) (by omega)).1
    omega
  have hbefore' : ∀ j, j + 1 = p → ¬ u.frames.Unused j := by
    intro j hj hu
    rcases hbefore with hp | hp
    · omega
    · rw [show p - 1 = j by omega] at hp
      exact hp hu.2
  obtain ⟨s', L', hs', hintact, hsize, hunused⟩ := frameFreePhysPages_ok hL h.small hn hle
    (fun j hj hjn => (hused j hj hjn).2) hbefore'
  refine ⟨⟨s', u.allocated.filter fun j => decide (¬ (p ≤ j ∧ j < p + n))⟩, none, ?_, ?_,
    ⟨L', hintact⟩, h.once.filter _, ?_⟩
  · rw [step, hs']
    rfl
  · exact hsize ▸ h.small
  · intro j hj
    obtain ⟨hj, hout⟩ := List.mem_filter.1 hj
    obtain ⟨hlt, hu⟩ := h.inUse j hj
    show j < s'.count ∧ ¬ s'.Unused j
    rw [hsize, hunused]
    refine ⟨hlt, fun hor => ?_⟩
    rcases hor with hor | hor
    · exact hu hor
    · simp [hor] at hout

theorem step_sound (u : Usage) (c : Call) (h : u.Sound) (hc : c.Allowed u ∧ c.Safe u) :
    ∃ u' pfn, step u c = .ok (u', pfn) ∧ u'.Sound := by
  obtain ⟨hallowed, hsafe⟩ := hc
  cases c with
  | alloc n => exact alloc_sound h hallowed hsafe
  | free p n => exact free_sound h hallowed hsafe.1 hsafe.2

/-- On every array that fits in the address space and whose unused pages have no
references, and along every run of safe calls: the list is intact after each
call and no page is handed out twice. -/
theorem run_keeps_freeList (s₀ : Frames) (hsmall : s₀.count < 2 ^ 20)
    (hidle : ∀ i, s₀.Unused i → (s₀.desc i).refCount = 0) :
    ∃ s n, buildFreeList s₀ = .ok (s, n) ∧ ∀ calls,
      Meets step (fun u c => c.Allowed u ∧ c.Safe u) ⟨s, []⟩ calls →
      ∀ pre, pre <+: calls → ∃ u outs, run step ⟨s, []⟩ pre = .ok (u, outs) ∧
        (∃ L, Intact u.frames L) ∧ u.allocated.Nodup := by
  obtain ⟨s, n, L, hs, hL, hsize⟩ := buildFreeList_ok s₀ hidle
  refine ⟨s, n, hs, fun calls hmeets pre hpre => ?_⟩
  have hstart : Usage.Sound ⟨s, []⟩ :=
    ⟨hsize ▸ hsmall, ⟨L, hL⟩, List.nodup_nil, by simp⟩
  obtain ⟨u, outs, hrun, hsound⟩ := run_preserves step_sound pre _ hstart (hmeets.of_prefix hpre)
  exact ⟨u, outs, hrun, hsound.intact, hsound.once⟩

/-! ## A run that keeps the list and one that does not -/

instance (s : Frames) (i c n : Nat) : Decidable (s.Splits i c n) :=
  inferInstanceAs (Decidable (i + c < s.count ∧
    (c - n ≤ 1 ∨ (s.desc (i + (c - n) - 1)).count = c - n)))

instance (s : Frames) (n : Nat) : Decidable (s.AllocSafe n) :=
  inferInstanceAs (Decidable (∀ i ∈ firstFit s n, s.Splits i (s.desc i).count n))

instance (u : Usage) : ∀ c, Decidable (Call.Allowed u c)
  | .alloc n => inferInstanceAs (Decidable (1 ≤ n))
  | .free p n => inferInstanceAs (Decidable (∀ j ∈ List.range' p n, j ∈ u.allocated))

instance (u : Usage) : ∀ c, Decidable (Call.Safe u c)
  | .alloc n => inferInstanceAs (Decidable (u.frames.AllocSafe n))
  | .free p n =>
    inferInstanceAs (Decidable (1 ≤ n ∧ (p = 0 ∨ (u.frames.desc (p - 1)).type ≠ .unused)))

/-- Descriptors with these types and nothing else. -/
def framesOf (types : List PageType) : Frames where
  count := types.length
  desc i := ⟨0, 0, types.getD i .none, none, none, 0⟩
  freeLl := none

theorem framesOf_idle (types : List PageType) (i : Nat) (_ : (framesOf types).Unused i) :
    ((framesOf types).desc i).refCount = 0 := rfl

/-- Runs of two, of one and of three pages. -/
def threeRuns : List PageType :=
  [.oneMiB, .unused, .unused, .reserved, .unused, .kernelImg, .unused, .unused, .unused, .reserved]

def safeCalls : List Call :=
  [.alloc 2, .alloc 1, .alloc 2, .free 8 1, .alloc 4, .free 7 1, .free 6 1, .alloc 3]

theorem safeCalls_keep_freeList :
    ∃ s n, buildFreeList (framesOf threeRuns) = .ok (s, n) ∧
      Meets step (fun u c => c.Allowed u ∧ c.Safe u) ⟨s, []⟩ safeCalls ∧
      ∀ pre, pre <+: safeCalls → ∃ u outs, run step ⟨s, []⟩ pre = .ok (u, outs) ∧
        (∃ L, Intact u.frames L) ∧ u.allocated.Nodup := by
  obtain ⟨s, n, hs, hruns⟩ :=
    run_keeps_freeList (framesOf threeRuns) (by decide) (framesOf_idle threeRuns)
  have hmeets : ∃ r, buildFreeList (framesOf threeRuns) = .ok r ∧
      Meets step (fun u c => c.Allowed u ∧ c.Safe u) ⟨r.1, []⟩ safeCalls := by
    decide +kernel
  obtain ⟨r, hr, hmeets⟩ := hmeets
  obtain rfl : (s, n) = r := Except.ok.inj (hs.symm.trans hr)
  exact ⟨s, n, hs, hmeets, hruns safeCalls hmeets⟩

/-- Two free pages before one that is in use. -/
def twoFree : List PageType := [.unused, .unused, .reserved]

theorem not_intact_of_loop {s : Frames} {i : Nat} (hhead : s.freeLl = some i)
    (hnext : s.next i = some i) (L : List Nat) : ¬ Intact s L := by
  intro h
  have hlinked := h.chain.linked
  have hnodup := h.chain.nodup
  rw [hhead] at hlinked
  cases L with
  | nil => cases hlinked
  | cons a L =>
    obtain ⟨ha, -, htail⟩ := hlinked
    obtain rfl : i = a := Option.some.inj ha
    rw [hnext] at htail
    cases L with
    | nil => cases htail
    | cons b L =>
      obtain rfl : i = b := Option.some.inj htail.1
      simp at hnodup

/-- One of the two pages is handed out and given back: the head of the run is
pushed a second time, and the walk for three pages never ends. -/
theorem free_after_run_loops :
    ∃ r, buildFreeList (framesOf twoFree) = .ok r ∧
      Meets step (fun u c => c.Allowed u) ⟨r.1, []⟩ [.alloc 1, .free 1 1, .alloc 3] ∧
      ∃ q, run step ⟨r.1, []⟩ [.alloc 1, .free 1 1] = .ok q ∧ (∀ L, ¬ Intact q.1.frames L) ∧
        run step ⟨r.1, []⟩ [.alloc 1, .free 1 1, .alloc 3] = .error .diverges := by
  have hrun : ∃ r, buildFreeList (framesOf twoFree) = .ok r ∧
      Meets step (fun u c => c.Allowed u) ⟨r.1, []⟩ [.alloc 1, .free 1 1, .alloc 3] ∧
      ∃ q, run step ⟨r.1, []⟩ [.alloc 1, .free 1 1] = .ok q ∧
        (q.1.frames.freeLl = some 0 ∧ q.1.frames.next 0 = some 0) ∧
        run step ⟨r.1, []⟩ [.alloc 1, .free 1 1, .alloc 3] = .error .diverges := by
    decide +kernel
  obtain ⟨r, hr, hmeets, q, hq, ⟨hhead, hnext⟩, hfault⟩ := hrun
  exact ⟨r, hr, hmeets, q, hq, not_intact_of_loop hhead hnext, hfault⟩

end X86Kernel.Frame
