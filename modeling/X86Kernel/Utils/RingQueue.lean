import X86Kernel.Libk
import X86Kernel.Lib.Run
import X86Kernel.Lib.Window

/- The ring queue (`kernel/utils/data_structs/ring_queue.c`), the FIFO that the
   block layer keeps its deferred requests in.

   What is proved: a queue whose block really holds its capacity refines the
   abstract FIFO list along every run in which no push meets a full queue
   (`run_refines_fifo`). A push on a full queue grows it, and growing loses the
   front of the queue: the part of the window before the wrap is copied from
   the new block instead of the old one, and counted in bytes
   (`grow_loses_the_front`).

   `kmalloc` gives a block of the requested number of bytes, computed in 32
   bits, with contents the heap leaves there (`junk`); exhaustion of the heap
   aborts inside `kmalloc`, so a call that returns has its block. An access
   outside the block is a fault.

   Correspondence (C ↔ Lean):
     `ring_queue_init`          ↔ `ringQueueInit`
     `ring_queue_init_capacity` ↔ `ringQueueInitCapacity`
     `ring_queue_get_index`     ↔ `ringQueueGetIndex`
     `ring_queue_grow`          ↔ `ringQueueGrow`
     `ring_queue_ensure_size`   ↔ `ringQueueEnsureSize`
     `ring_queue_push`          ↔ `ringQueuePush`
     `ring_queue_pop`           ↔ `ringQueuePop`
     `ring_queue_is_empty`      ↔ `ringQueueIsEmpty` -/
namespace X86Kernel.Ring
open X86Kernel.Lib

/-- `ring_queue_t`; `arr` is the block behind the pointer. -/
structure RingQueue where
  head : Nat
  count : Nat
  capacity : Nat
  arr : List Ptr
  deriving DecidableEq

/-- The words of a fresh block of `bytes` bytes. -/
def kmallocWords (junk : Nat → Ptr) (bytes : Nat) : List Ptr :=
  (List.range (bytes / 4)).map junk

def ringQueueInitCapacityConst : Nat := 16

def ringQueueInit (junk : Nat → Ptr) : RingQueue :=
  { head := 0, count := 0, capacity := ringQueueInitCapacityConst,
    arr := kmallocWords junk (u32 (4 * ringQueueInitCapacityConst)) }

def ringQueueInitCapacity (junk : Nat → Ptr) (initCapacity : Nat) : Kernel RingQueue :=
  match assert (initCapacity &&& sub32 initCapacity 1 == 0) with
  | .error e => .error e
  | .ok () =>
    .ok { head := 0, count := 0, capacity := initCapacity,
          arr := kmallocWords junk (u32 (4 * initCapacity)) }

def ringQueueGetIndex (q : RingQueue) (offset : Nat) : Nat :=
  u32 (q.head + offset) &&& sub32 q.capacity 1

/-- `ring_queue_grow`. The second copy reads `new_arr`, not `arr`, and its
length is a number of items where `memmove` takes bytes. -/
def ringQueueGrow (junk : Nat → Ptr) (q : RingQueue) : Kernel RingQueue :=
  let startArrItemCount := sub32 q.count (sub32 q.capacity q.head)
  let newCapacity := u32 (q.capacity * 2)
  let newArr := kmallocWords junk (u32 (newCapacity * 4))
  match memcpyWords newArr q.arr (u32 (startArrItemCount * 4)) with
  | .error e => .error e
  | .ok newArr =>
    let newHead := u32 (q.head + q.capacity)
    match memmoveWords newArr (4 * newHead) (4 * q.head)
        (min (sub32 q.capacity q.head) (sub32 q.count q.head)) with
    | .error e => .error e
    | .ok newArr =>
      if q.capacity < newCapacity then
        .ok { q with arr := newArr, head := newHead, capacity := newCapacity }
      else .ok q

def ringQueueEnsureSize (junk : Nat → Ptr) (q : RingQueue) (addCount : Nat) : Kernel RingQueue :=
  if q.count + addCount > q.capacity then ringQueueGrow junk q else .ok q

def ringQueuePush (junk : Nat → Ptr) (q : RingQueue) (item : Ptr) : Kernel RingQueue :=
  match ringQueueEnsureSize junk q 1 with
  | .error e => .error e
  | .ok q =>
    let relativeIndex := ringQueueGetIndex q q.count
    if relativeIndex < q.arr.length then
      .ok { q with arr := q.arr.set relativeIndex item, count := u32 (q.count + 1) }
    else .error .outOfBounds

/-- `ring_queue_pop`: the item and the queue after it; NULL from an empty queue. -/
def ringQueuePop (q : RingQueue) : Kernel (RingQueue × Ptr) :=
  if q.count = 0 then .ok (q, 0#32)
  else
    match q.arr[q.head]? with
    | none => .error .outOfBounds
    | some item =>
      .ok ({ q with head := ringQueueGetIndex q 1, count := sub32 q.count 1 }, item)

def ringQueueIsEmpty (q : RingQueue) : Bool := q.count == 0

/-! ## Runs, and the abstract FIFO -/

/-- A call on the queue. `junk` is what a block taken by the call would hold. -/
inductive Op where
  | push (item : Ptr) (junk : Nat → Ptr)
  | pop

/-- One call: the queue after it and, for a pop, the pointer returned. -/
def step (q : RingQueue) : Op → Kernel (RingQueue × Option Ptr)
  | .push item junk =>
    match ringQueuePush junk q item with
    | .error e => .error e
    | .ok q' => .ok (q', none)
  | .pop =>
    match ringQueuePop q with
    | .error e => .error e
    | .ok (q', item) => .ok (q', some item)

/-- The FIFO: pushes append, pops take the front, NULL when there is none. -/
def fifoStep (items : List Ptr) : Op → List Ptr × Option Ptr
  | .push item _ => (items ++ [item], none)
  | .pop =>
    match items with
    | [] => ([], some 0#32)
    | item :: rest => (rest, some item)

/-- The items a list of calls pushes, in order. -/
def pushed : List Op → List Ptr
  | [] => []
  | .push item _ :: ops => item :: pushed ops
  | .pop :: ops => pushed ops

/-- The items its pops returned, NULL left out. -/
def popped (outs : List (Option Ptr)) : List Ptr :=
  outs.filterMap (fun o => o.filter (· ≠ 0#32))

/-- The queues that `ring_queue_init` and `ring_queue_init_capacity` of a
positive power of two make. -/
def Fresh (q : RingQueue) : Prop :=
  (∃ junk, q = ringQueueInit junk) ∨
  ∃ junk k, k < 32 ∧ ringQueueInitCapacity junk (2 ^ k) = .ok q

/-- What the queue promises for a list of calls: they all return, the pops
return the pushed items in push order, NULL exactly when nothing is left, and
`count` is the number of items left. -/
def RefinesFifo (q : RingQueue) (ops : List Op) : Prop :=
  ∃ q' outs items, run step q ops = .ok (q', outs) ∧ fold fifoStep [] ops = (items, outs) ∧
    popped outs ++ items = pushed ops ∧ q'.count = items.length

/-- The condition of the refinement: no push meets a full queue. -/
def PushFits (q : RingQueue) : Op → Prop
  | .push _ _ => q.count < q.capacity
  | .pop => True

instance : ∀ (q : RingQueue) (op : Op), Decidable (PushFits q op)
  | q, .push _ _ => inferInstanceAs (Decidable (q.count < q.capacity))
  | _, .pop => inferInstanceAs (Decidable True)

/-! ## The step lemma -/

/-- A queue whose block holds its whole capacity, with `items` in its window. -/
structure Holds (q : RingQueue) (items : List Ptr) : Prop where
  pow : ∃ k, q.capacity = 2 ^ k
  small : q.capacity < 2 ^ 30
  block : q.arr.length = q.capacity
  count_eq : q.count = items.length
  window : Window q.arr q.head items

theorem getIndex_eq {q : RingQueue} {items : List Ptr} (h : Holds q items) {off : Nat}
    (hoff : off ≤ q.capacity) : ringQueueGetIndex q off = (q.head + off) % q.arr.length := by
  obtain ⟨k, hk⟩ := h.pow
  have hhead := h.window.head_lt
  have hsmall := h.small
  have hpos : 1 ≤ q.capacity := by rw [hk]; exact Nat.one_le_two_pow
  rw [h.block] at hhead ⊢
  unfold ringQueueGetIndex
  rw [u32_of_lt (by omega), sub32_of_le (by omega) hpos, hk, Nat.and_two_pow_sub_one_eq_mod]

theorem push_step {q : RingQueue} {items : List Ptr} (h : Holds q items)
    (hfits : q.count < q.capacity) (junk : Nat → Ptr) (item : Ptr) :
    ∃ q', ringQueuePush junk q item = .ok q' ∧ Holds q' (items ++ [item]) := by
  have hcount := h.count_eq
  have hblock := h.block
  have hsmall := h.small
  have hensure : ringQueueEnsureSize junk q 1 = .ok q := by
    unfold ringQueueEnsureSize; rw [if_neg (by omega)]
  have hidx := getIndex_eq h (Nat.le_of_lt hfits)
  have hlt : ringQueueGetIndex q q.count < q.arr.length := by
    rw [hidx]; exact Nat.mod_lt _ (by omega)
  refine ⟨_, by simp only [ringQueuePush, hensure, if_pos hlt]; rfl, ?_⟩
  refine ⟨h.pow, hsmall, by simpa using hblock, ?_, ?_⟩
  · show u32 (q.count + 1) = _
    rw [u32_of_lt (by omega), hcount]; simp
  · show Window (q.arr.set (ringQueueGetIndex q q.count) item) q.head _
    rw [hidx, hcount]
    exact h.window.push (by omega) item

theorem pop_empty_step {q : RingQueue} (h : Holds q []) : ringQueuePop q = .ok (q, 0#32) := by
  have hcount : q.count = 0 := h.count_eq
  simp [ringQueuePop, hcount]

theorem pop_step {q : RingQueue} {item : Ptr} {items : List Ptr} (h : Holds q (item :: items)) :
    ∃ q', ringQueuePop q = .ok (q', item) ∧ Holds q' items := by
  have hcount : q.count = items.length + 1 := h.count_eq
  have hfits : items.length + 1 ≤ q.arr.length := h.window.fits
  have hblock := h.block
  have hsmall := h.small
  refine
  ⟨_, by simp only [ringQueuePop, if_neg (by omega : ¬ q.count = 0), h.window.front]; rfl, ?_⟩
  refine ⟨h.pow, hsmall, hblock, ?_, ?_⟩
  · show sub32 q.count 1 = _
    rw [sub32_of_le (by omega) (by omega), hcount]; simp
  · show Window q.arr (ringQueueGetIndex q 1) items
    rw [getIndex_eq h (by omega)]
    exact h.window.pop

theorem step_simulates (q : RingQueue) (items : List Ptr) (op : Op) (h : Holds q items)
    (hC : PushFits q op) :
    ∃ q', step q op = .ok (q', (fifoStep items op).2) ∧ Holds q' (fifoStep items op).1 := by
  cases op with
  | push item junk =>
    obtain ⟨q', hq', h'⟩ := push_step h hC junk item
    exact ⟨q', by simp [step, hq', fifoStep], h'⟩
  | pop =>
    cases items with
    | nil => exact ⟨q, by simp [step, pop_empty_step h, fifoStep], h⟩
    | cons item items =>
      obtain ⟨q', hq', h'⟩ := pop_step h
      exact ⟨q', by simp [step, hq', fifoStep], h'⟩

/-! ## Runs -/

/-- The abstract FIFO hands the pushed items out in push order. -/
theorem fifo_order : ∀ (ops : List Op) (items : List Ptr), 0#32 ∉ items → 0#32 ∉ pushed ops →
    popped (fold fifoStep items ops).2 ++ (fold fifoStep items ops).1 = items ++ pushed ops
  | [], items, _, _ => by simp [fold, popped, pushed]
  | .push item junk :: ops, items, hi, hp => by
    simp only [pushed, List.mem_cons, not_or] at hp
    have ih := fifo_order ops (items ++ [item]) (by simp [hi, hp.1]) hp.2
    simpa [fold, fifoStep, popped, pushed] using ih
  | .pop :: ops, [], hi, hp => by
    have ih := fifo_order ops [] hi hp
    simpa [fold, fifoStep, popped, pushed] using ih
  | .pop :: ops, item :: items, hi, hp => by
    simp only [List.mem_cons, not_or] at hi
    have ih := fifo_order ops items hi.2 hp
    have hne : item ≠ 0#32 := fun h => hi.1 h.symm
    simpa [fold, fifoStep, popped, pushed, List.filterMap_cons, Option.filter, hne] using ih

theorem fresh_holds {q : RingQueue} (h : Fresh q) (hcap : q.capacity < 2 ^ 30) : Holds q [] := by
  rcases h with ⟨junk, rfl⟩ | ⟨junk, k, hk, hq⟩
  · exact ⟨⟨4, rfl⟩, hcap, by simp [ringQueueInit, kmallocWords, u32, ringQueueInitCapacityConst],
      rfl, Window.empty (by simp [ringQueueInit, kmallocWords, u32, ringQueueInitCapacityConst])⟩
  · unfold ringQueueInitCapacity at hq
    split at hq
    · cases hq
    · simp only [Except.ok.injEq] at hq
      subst hq
      have hcap' : 2 ^ k < 2 ^ 30 := hcap
      have hpos : 0 < 2 ^ k := Nat.two_pow_pos k
      have hlen : (kmallocWords junk (u32 (4 * 2 ^ k))).length = 2 ^ k := by
        simp only [kmallocWords, List.length_map, List.length_range]
        rw [u32_of_lt (by omega)]; omega
      exact ⟨⟨k, rfl⟩, hcap', hlen, rfl, Window.empty (by rw [hlen]; exact hpos)⟩

/-- The ring queue refines the FIFO while it does not grow: over every run from
a fresh queue whose block holds its capacity, in which no push meets a
full queue. -/
theorem run_refines_fifo (q : RingQueue) (hq : Fresh q) (hcap : q.capacity < 2 ^ 30)
    (ops : List Op) (hitems : 0#32 ∉ pushed ops) (hfits : Meets step PushFits q ops) :
    RefinesFifo q ops := by
  obtain ⟨q', hrun, h'⟩ := run_simulates step_simulates ops q [] (fresh_holds hq hcap) hfits
  refine ⟨q', _, _, hrun, rfl, ?_, h'.count_eq⟩
  simpa using fifo_order ops [] (by simp) hitems

/-- Heap blocks that hold zeros. -/
def zeroJunk : Nat → Ptr := fun _ => 0#32

/-- A queue of two cells used past its end without ever being full at a push. -/
theorem wrapping_run_refines_fifo :
    ∃ q, ringQueueInitCapacity zeroJunk 2 = .ok q ∧
      RefinesFifo q [.push 16#32 zeroJunk, .push 32#32 zeroJunk, .pop, .push 48#32 zeroJunk, .pop,
        .pop, .pop] := by
  refine ⟨_, rfl, run_refines_fifo _ (.inr ⟨zeroJunk, 1, by decide, rfl⟩) (by decide) _
    (by decide) (by decide)⟩

/-- Seventeen pushes on a queue of sixteen, then a pop. -/
def overfull : List Op :=
  (List.range 17).map (fun i => .push (BitVec.ofNat 32 (16 * (i + 1))) zeroJunk) ++ [.pop]

/-- Growing loses the front of the queue: after the seventeenth push the
first pop returns what the new block happened to hold. -/
theorem grow_loses_the_front :
    Fresh (ringQueueInit zeroJunk) ∧ 0#32 ∉ pushed overfull ∧
      ¬ RefinesFifo (ringQueueInit zeroJunk) overfull := by
  refine ⟨.inl ⟨zeroJunk, rfl⟩, by decide, ?_⟩
  rintro ⟨q', outs, items, hrun, hfold, -, -⟩
  have hne : (run step (ringQueueInit zeroJunk) overfull).toOption.map Prod.snd ≠
      some (fold fifoStep [] overfull).2 := by decide
  rw [hrun, hfold] at hne
  exact hne rfl

end X86Kernel.Ring
