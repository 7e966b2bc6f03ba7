import X86Kernel.Lib.Run
import X86Kernel.Memory.Heap.FreeLists

/- Runs of `kmalloc`, `krealloc` and `kfree` from `init_heap` on.

   A block in the lists should show by the flags of its first descriptor that it is a
   free block: `kfree` and `krealloc` tell blocks from slabs by `HEAPFLAG_BUDDY` later,
   and `free_buddy` asserts it. The split of a block sets all three flags, and so does
   the return of a slab with `free_buddy`; `add_buddies` sets `PAGEFLAG_HEAD` alone.

   What is proved: whatever heap `init_heap` makes, a listed block lacks the flag
   already in the first state (`buddyHeads_never`), so that a block as large as the
   first heap is taken for a slab when it is freed (`kfree_of_first_block`).

   Correspondence (C ↔ Lean):
     `kmalloc`, `krealloc`, `kfree` ↔ `HeapCall`, `heapStep`
     a block on `heap.free_buddies[k]` ↔ `OnList` -/
namespace X86Kernel.Heap
open X86Kernel.Lib

variable {ω : Type}

/-! ## Runs -/

inductive HeapCall where
  | kmalloc (size : Nat)
  | krealloc (addr newSize : Nat)
  | kfree (addr : Nat)

/-- The heap, and the addresses that are live with the sizes that were asked for. -/
structure HeapState (ω : Type) where
  heap : HeapVars ω
  live : List (Nat × Nat)

def HeapState.without (s : HeapState ω) (addr : Nat) : List (Nat × Nat) :=
  s.live.filter fun p => decide (p.1 ≠ addr)

def heapStep (W : World ω) (fuel : Nat) (s : HeapState ω) :
    HeapCall → Kernel (HeapState ω × Nat)
  | .kmalloc size => do
    let (heap, addr) ← kmalloc W fuel s.heap size
    return (⟨heap, (addr, size) :: s.live⟩, addr)
  | .krealloc addr newSize => do
    let (heap, newAddr) ← krealloc W fuel s.heap addr newSize
    -- NULL leaves the old block live
    return (⟨heap, if newAddr = 0 then s.live else (newAddr, newSize) :: s.without addr⟩, newAddr)
  | .kfree addr => do
    let heap ← kfree W s.heap addr
    return (⟨heap, s.without addr⟩, 0)

/-- Only live addresses are freed or resized. -/
def HeapCall.Allowed (s : HeapState ω) : HeapCall → Prop
  | .kmalloc _ => True
  | .krealloc addr _ => addr = 0 ∨ ∃ p ∈ s.live, p.1 = addr
  | .kfree addr => ∃ p ∈ s.live, p.1 = addr

instance (s : HeapState ω) (call : HeapCall) : Decidable (call.Allowed s) :=
  match call with
  | .kmalloc _ => isTrue trivial
  | .krealloc addr _ => inferInstanceAs (Decidable (addr = 0 ∨ ∃ p ∈ s.live, p.1 = addr))
  | .kfree addr => inferInstanceAs (Decidable (∃ p ∈ s.live, p.1 = addr))

/-- The descriptor is met on the way through `heap.free_buddies[k]`. -/
inductive OnList (s : HeapVars ω) (k : Nat) : Nat → Prop where
  | head {i} : s.freeBuddies k = some i → OnList s k i
  | next {i j} : OnList s k i → (s.desc i).nextFree = .page j → OnList s k j

/-- What a free block shows in its first descriptor. -/
def BuddyHeads (s : HeapVars ω) : Prop :=
  ∀ {k i}, OnList s k i → (s.desc i).flags = ⟨true, true, true⟩ ∧
    (s.desc i).numPages = .num (2 ^ k) ∧ (s.desc i).buddyCache = .buddies k

/-- Listed blocks show that they are free, and large live blocks that they are blocks. -/
structure HeapSound (W : World ω) (s : HeapState ω) : Prop where
  heads : BuddyHeads s.heap
  live : ∀ {a size}, (a, size) ∈ s.live → size > 2 ^ slabExponMax →
    (s.heap.desc (descOf W s.heap a)).flags.buddy = true ∧
    freeBuddy W s.heap a ≠ .error .assertion

/-! ## The first heap -/

/-- The block at `heapAddr` is put in the list of its order. -/
def placeBuddy (W : World ω) (s : HeapVars ω) (heapAddr order : Nat) : HeapVars ω :=
  (pushFree (s.modify (descOf W s heapAddr) fun d => { d with
    flags := { d.flags with head := true }, buddyCache := .buddies order,
    buddyOrder := .num order, virtAddr := heapAddr }) order (descOf W s heapAddr)).modify
    (descOf W s heapAddr) fun d => { d with
    numPages := .num (2 ^ (order + buddyExponMin) / pageSize) }

theorem placeBuddy_buddy (W : World ω) (s : HeapVars ω) (heapAddr order i : Nat) :
    ((placeBuddy W s heapAddr order).desc i).flags.buddy = (s.desc i).flags.buddy := by
  have hpush := (sameData_pushFree (s.modify (descOf W s heapAddr) fun d => { d with
    flags := { d.flags with head := true }, buddyCache := .buddies order,
    buddyOrder := .num order, virtAddr := heapAddr }) order (descOf W s heapAddr)).flags i
  by_cases hi : i = descOf W s heapAddr
  · subst hi
    simp only [placeBuddy, HeapVars.modify, if_true] at hpush ⊢
    rw [hpush]
  · simp only [placeBuddy, HeapVars.modify, if_neg hi] at hpush ⊢
    rw [hpush]

theorem placeBuddy_freeBuddies (W : World ω) (s : HeapVars ω) (heapAddr order k : Nat) :
    (placeBuddy W s heapAddr order).freeBuddies k =
      if k = order then some (descOf W s heapAddr) else s.freeBuddies k :=
  freeBuddies_pushFree _ _ _ _

theorem addBuddies_turn {W : World ω} {fuel : Nat} {s t : HeapVars ω} {heapAddr size : Nat}
    (hsize : size ≠ 0) (h : addBuddies W true (fuel + 1) s heapAddr size = .ok t) :
    ∃ order heapAddr' size', addBuddies W true fuel
    (placeBuddy W s heapAddr order) heapAddr' size' =
      .ok t := by
  unfold addBuddies at h
  rw [if_neg hsize] at h
  obtain ⟨u, -, h⟩ := exists_of_bind_eq_ok h
  exact ⟨_, _, _, h⟩

/-- `add_buddies` at the beginning sets no flag but `PAGEFLAG_HEAD`, and a list that
has a block keeps one. -/
theorem addBuddies_first {W : World ω} : ∀ {fuel : Nat} {s t : HeapVars ω} {heapAddr size : Nat},
    addBuddies W true fuel s heapAddr size = .ok t →
    (∀ i, (t.desc i).flags.buddy = (s.desc i).flags.buddy) ∧
    ((∃ k, s.freeBuddies k ≠ none) → ∃ k, t.freeBuddies k ≠ none) := by
  intro fuel
  induction fuel with
  | zero =>
    intro s t heapAddr size h
    cases h
  | succ fuel ih =>
    intro s t heapAddr size h
    by_cases hsize : size = 0
    · unfold addBuddies at h
      rw [if_pos hsize] at h
      obtain rfl := Except.ok.inj h
      exact ⟨fun _ => rfl, fun hs => hs⟩
    · obtain ⟨order, heapAddr', size', hrest⟩ := addBuddies_turn hsize h
      obtain ⟨hflags, hlists⟩ := ih hrest
      refine ⟨fun i => (hflags i).trans (placeBuddy_buddy W s heapAddr order i), fun _ => ?_⟩
      apply hlists
      exact ⟨order, by rw [placeBuddy_freeBuddies, if_pos rfl]; simp⟩

theorem initHeap_first {W : World ω} {s t : HeapVars ω} {heapAddr maxSize initSize : Nat}
    (hclear : ∀ i, (s.desc i).flags.buddy = false)
    (h : initHeap W s heapAddr maxSize initSize = .ok t) :
    (∀ i, (t.desc i).flags.buddy = false) ∧ ∃ k, t.freeBuddies k ≠ none := by
  unfold initHeap at h
  obtain ⟨-, -, h⟩ := exists_of_bind_eq_ok h
  obtain ⟨_, hsize, h⟩ := exists_of_bind_eq_ok h
  obtain ⟨-, -, h⟩ := exists_of_bind_eq_ok h
  obtain ⟨-, -, h⟩ := exists_of_bind_eq_ok h
  obtain ⟨⟨world, page⟩, -, h⟩ := exists_of_bind_eq_ok h
  obtain ⟨world', -, h⟩ := exists_of_bind_eq_ok h
  have hsize : initSize ≠ 0 := by simpa using of_assert_eq_ok hsize
  have hflags := (addBuddies_first h).1
  obtain ⟨order, heapAddr', size', hrest⟩ := addBuddies_turn hsize h
  refine ⟨fun i => (hflags i).trans (hclear i), (addBuddies_first hrest).2 ⟨order, ?_⟩⟩
  rw [placeBuddy_freeBuddies, if_pos rfl]
  simp

/-- In no heap that `init_heap` makes do the listed blocks show that they are free
blocks, not even before the first call. -/
theorem buddyHeads_never {W : World ω} {s t : HeapVars ω} {heapAddr maxSize initSize : Nat}
    (hclear : ∀ i, (s.desc i).flags.buddy = false ∧ (s.desc i).flags.vfree = false)
    (hinit : initHeap W s heapAddr maxSize initSize = .ok t) (fuel : Nat) :
    ¬ ∀ (calls : List HeapCall) (u : HeapState ω) (outs : List Nat),
      Meets (heapStep W fuel) (fun v call => call.Allowed v) ⟨t, []⟩ calls →
      run (heapStep W fuel) ⟨t, []⟩ calls = .ok (u, outs) → HeapSound W u := by
  intro hall
  obtain ⟨hflags, k, hk⟩ := initHeap_first (fun i => (hclear i).1) hinit
  obtain ⟨i, hi⟩ := Option.ne_none_iff_exists'.1 hk
  have hsound := hall [] ⟨t, []⟩ [] trivial rfl
  have hbuddy := congrArg HeapFlags.buddy (hsound.heads (.head hi)).1
  rw [hflags i] at hbuddy
  cases hbuddy

/-- Every page has the frame of its number. -/
def flatWorld : World Unit where
  descOf _ page := page
  mmAllocPages _ _ := .ok ((), 0)
  pfnToPa _ _ := 0
  pagingMapPages _ _ _ _ _ := .ok ()
  markRegion _ _ _ _ := .ok ()

/-- Memory before `init_heap`. -/
def emptyHeap : HeapVars Unit where
  world := ()
  desc _ := ⟨⟨false, false, false⟩, .num 0, 0, .num 0, .num 0, .num 0, .num 0⟩
  mem _ := .num 0
  freeBuddies _ := none
  slabs _ := ⟨0, 0, 0, none⟩
  intervalCache := 0
  minAddr := 0
  curMaxAddr := 0
  reservedMaxAddr := 0
  curSize := 0
  reservedMaxSize := 0

theorem firstHeap_heads : ∃ t, initHeap flatWorld emptyHeap 0x20000 0x40000 0x20000 = .ok t ∧
    ¬ ∀ (calls : List HeapCall) (u : HeapState Unit) (outs : List Nat),
      Meets (heapStep flatWorld 3) (fun v call => call.Allowed v) ⟨t, []⟩ calls →
      run (heapStep flatWorld 3) ⟨t, []⟩ calls = .ok (u, outs) → HeapSound flatWorld u := by
  have hinit : ∃ t, initHeap flatWorld emptyHeap 0x20000 0x40000 0x20000 = .ok t ∧ True := by
    decide +kernel
  obtain ⟨t, hinit, -⟩ := hinit
  exact ⟨t, hinit, buddyHeads_never (fun _ => ⟨rfl, rfl⟩) hinit 3⟩

/-- The only block of a heap of 128 KiB is handed out and freed: `kfree` takes it for a
slab, and the pointer to its list of free blocks for one to a slab order. -/
theorem kfree_of_first_block :
    ∃ t, initHeap flatWorld emptyHeap 0x20000 0x40000 0x20000 = .ok t ∧
      Meets (heapStep flatWorld 3) (fun v call => call.Allowed v) ⟨t, []⟩
        [.kmalloc 100000, .kfree 0x20000] ∧
      (∃ r, run (heapStep flatWorld 3) ⟨t, []⟩ [.kmalloc 100000] = .ok r ∧ r.2 = [0x20000] ∧
        (r.1.heap.desc (descOf flatWorld r.1.heap 0x20000)).flags.buddy = false) ∧
      run (heapStep flatWorld 3) ⟨t, []⟩ [.kmalloc 100000, .kfree 0x20000] =
        .error .outOfBounds ∧
      ¬ HeapSound flatWorld ⟨t, []⟩ := by
  have hrun : ∃ t, initHeap flatWorld emptyHeap 0x20000 0x40000 0x20000 = .ok t ∧
      Meets (heapStep flatWorld 3) (fun v call => call.Allowed v) ⟨t, []⟩
        [.kmalloc 100000, .kfree 0x20000] ∧
      (∃ r, run (heapStep flatWorld 3) ⟨t, []⟩ [.kmalloc 100000] = .ok r ∧ r.2 = [0x20000] ∧
        (r.1.heap.desc (descOf flatWorld r.1.heap 0x20000)).flags.buddy = false) ∧
      run (heapStep flatWorld 3) ⟨t, []⟩ [.kmalloc 100000, .kfree 0x20000] =
        .error .outOfBounds ∧
      t.freeBuddies 5 = some 0x20 ∧ (t.desc 0x20).flags.buddy = false := by
    decide +kernel
  obtain ⟨t, hinit, hmeets, hfirst, hfault, hlist, hflag⟩ := hrun
  refine ⟨t, hinit, hmeets, hfirst, hfault, fun hsound => ?_⟩
  have hbuddy := congrArg HeapFlags.buddy (hsound.heads (.head hlist)).1
  rw [hflag] at hbuddy
  cases hbuddy

end X86Kernel.Heap
