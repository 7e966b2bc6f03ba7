import X86Kernel.Lib.Gap
import X86Kernel.Utils.RbTree.Walk
import X86Kernel.Utils.RbTree.Insert

/- The table of virtual regions (`kernel/memory/virt/virt_region.c`): a
   red-black tree of intervals `[from, to)`, ordered by `interval_cmp`, in which
   `find_gap_start` looks for the first free range.

   What is proved: on a valid region tree the search returns the lowest free
   address, or NULL when there is none, exactly when `GapSafe` holds
   (`findGapStart_correct_iff`), and the same condition decides whether the range
   that `kvregion_reserve` hands out is disjoint from every registered region.
   `GapSafe` fails in two ways. The loop leaves `cur` one interval behind, so the
   test of the space after the last interval is made from the one before it, and
   when it succeeds the range runs into the last interval. And a free range at
   address 0 cannot be told from NULL.

   The address of the new interval, which `kalloc_cache` returns, is an argument
   of `kvregionMark`; the node is the first field of `virt_interval_t`, so
   `container_of` is the identity.

   Correspondence (C ↔ Lean):
     `virt_interval_t`   ↔ `VirtInterval`
     `virt_kernel_tree`  ↔ `VirtRegions`
     `interval_cmp`      ↔ `intervalCmp`
     `find_gap_start`    ↔ `findGapStart` (its loop: `findGapLoop`)
     `kvregion_mark`     ↔ `kvregionMark`
     `kvregion_reserve`  ↔ `kvregionReserve`
     `search_interval_addr` ↔ `searchIntervalAddr`
     `kvregion_release`  ↔ `kvregionRelease`
     `kvregion_is_free`  ↔ `kvregionIsFree` -/
namespace X86Kernel.VirtRegion
open X86Kernel.Lib X86Kernel.Lib.ColorTree X86Kernel.Rb

/-- `enum virt_region_type`. -/
inductive VirtRegionType where
  | unknown
  | kernelImg
  | pfn
  | heap
  | user
  | reserved
  | cache
  | mmio
  | acpi
  | driver
  | bioBuffer
  deriving DecidableEq, Repr

/-- `virt_interval_t` without its node. -/
structure VirtInterval where
  fromAddr : Nat
  toAddr : Nat
  name : String
  vregion : VirtRegionType
  deriving DecidableEq, Repr

/-- The tree and the intervals its nodes are in. -/
structure VirtRegions where
  tree : RbTree Unit
  interval : Ptr → VirtInterval

/-- `MAX_VADDR`. -/
def maxVaddr : Nat := 2 ^ 32 - 1

/-- `HIGH_VADDR`. -/
def highVaddr : Nat := 0xC0000000

/-- `RESERVE_PAGES_NAME`. -/
def reservePagesName : String := "Virtual Reserved"

def intervalCmp (interval : Ptr → VirtInterval) (a b : Ptr) : Int :=
  if (interval a).toAddr ≤ (interval b).fromAddr then -1
  else if (interval b).toAddr ≤ (interval a).fromAddr then 1
  else 0

/-- The callbacks `init_virt_region` gives the tree: no augmentation. -/
def callbacks (interval : Ptr → VirtInterval) : Callbacks Unit where
  cmp := intervalCmp interval
  augment _ _ _ := ()

/-- `max_inclusive_addr - addr + 1`, in 32 bits. -/
def roomUpTo (max addr : Nat) : Nat := u32 (sub32 max addr + 1)

/-- The loop over the pairs of neighbours, and the test after it. `cur` is the
interval of the last turn. -/
def findGapLoop (s : VirtRegions) (size max : Nat) : Nat → Ptr → Ptr → VirtInterval → Kernel Nat
  | 0, _, _, _ => .error .diverges
  | fuel + 1, curNode, nextNode, cur =>
    if nextNode = 0#32 then
      .ok (if size ≤ roomUpTo max cur.toAddr then cur.toAddr else 0)
    else
      let cur := s.interval curNode
      let next := s.interval nextNode
      if size ≤ sub32 next.fromAddr cur.toAddr then .ok cur.toAddr
      else do
        let following ← rbNext s.tree nextNode
        findGapLoop s size max fuel nextNode following cur

/-- `find_gap_start`; 0 is NULL. -/
def findGapStart (s : VirtRegions) (size min max : Nat) : Kernel Nat := do
  let curNode ← rbMin s.tree
  if curNode = 0#32 then
    return if size ≤ roomUpTo max min then min else 0
  else
    let cur := s.interval curNode
    assert (decide (min ≤ cur.fromAddr))
    if size ≤ sub32 cur.fromAddr min then return min
    else
      let nextNode ← rbNext s.tree curNode
      if nextNode = 0#32 then
        return if size ≤ roomUpTo max cur.toAddr then cur.toAddr else 0
      else findGapLoop s size max loopLimit curNode nextNode cur

/-- `kvregion_mark`; `newInterval` is what `kalloc_cache` returns. -/
def kvregionMark (s : VirtRegions) (newInterval : Ptr) (fromAddr count : Nat)
    (vregion : VirtRegionType) (name : String) : Kernel VirtRegions := do
  assert (decide (newInterval ≠ 0#32))
  let interval := fun p => if p = newInterval then
    { fromAddr, toAddr := u32 (fromAddr + count * pageSize), name, vregion } else s.interval p
  let (tree, _) ← rbInsert (callbacks interval) s.tree newInterval
  return { tree, interval }

/-- `kvregion_reserve`: the regions after it, and the start of the range or
NULL. -/
def kvregionReserve (s : VirtRegions) (newInterval : Ptr) (count : Nat) (vregion : VirtRegionType)
    (name : Option String) : Kernel (VirtRegions × Nat) := do
  let size := u32 (count * pageSize)
  let gapStart ← findGapStart s size highVaddr maxVaddr
  if gapStart = 0 then return (s, 0)
  else
    let s ← kvregionMark s newInterval gapStart count vregion (name.getD reservePagesName)
    return (s, gapStart)

/-- The interval of one page on the stack that the searches compare with; `probe` is its
address. -/
def probeInterval (s : VirtRegions) (probe : Ptr) (va : Nat) : Ptr → VirtInterval := fun p =>
  if p = probe then ⟨va, u32 (va + pageSize), "", .unknown⟩ else s.interval p

/-- `search_interval_addr`. -/
def searchIntervalAddr (s : VirtRegions) (probe : Ptr) (va : Nat) : Kernel Ptr :=
  rbSearch (intervalCmp (probeInterval s probe va)) s.tree probe

/-- `kvregion_release`. -/
def kvregionRelease (s : VirtRegions) (probe : Ptr) (va : Nat) : Kernel VirtRegions := do
  let curInterval ← searchIntervalAddr s probe va
  assert (decide (curInterval ≠ 0#32))
  let (tree, _) ← rbRemoveNode (callbacks s.interval) s.tree curInterval
  return { s with tree }

/-- `kvregion_is_free`. -/
def kvregionIsFree (s : VirtRegions) (probe : Ptr) (va : Nat) : Kernel Bool :=
  if va = 0 then .ok false
  else do
    assert (decide (va % pageSize = 0))
    let node ← searchIntervalAddr s probe va
    return decide (node = 0#32)

/-! ## Valid region trees -/

/-- A range of addresses, the last one included. -/
structure Window where
  min : Nat
  max : Nat
  le : min ≤ max
  lt : max < 2 ^ 32

/-- The range `kvregion_reserve` searches. -/
def kernelWindow : Window := ⟨highVaddr, maxVaddr, by decide, by decide⟩

/-- A non-empty, page-aligned interval in the window whose end does not wrap. -/
structure Proper (w : Window) (i : VirtInterval) : Prop where
  nonempty : i.fromAddr < i.toAddr
  noWrap : i.toAddr < 2 ^ 32
  above : w.min ≤ i.fromAddr
  below : i.toAddr ≤ w.max + 1
  aligned : pageSize ∣ i.fromAddr ∧ pageSize ∣ i.toAddr

/-- A red-black tree of proper intervals, ordered by `interval_cmp`, which makes
them disjoint. -/
structure RegionTree (s : VirtRegions) (w : Window) (u : ColorTree Ptr) : Prop where
  holds : Holds s.tree u
  redBlack : RedBlack u
  ordered : Ordered (intervalCmp s.interval) u
  proper : ∀ p ∈ u.toList, Proper w (s.interval p)

def VirtInterval.span (i : VirtInterval) : Span := ⟨i.fromAddr, i.toAddr⟩

/-- The registered regions, in order. -/
def VirtRegions.spans (s : VirtRegions) (nodes : List Ptr) : List Span :=
  nodes.map fun p => (s.interval p).span

theorem intervalCmp_neg {interval : Ptr → VirtInterval} {a b : Ptr}
    (h : intervalCmp interval a b < 0) :
    (interval a).toAddr ≤ (interval b).fromAddr := by
  unfold intervalCmp at h
  split at h
  · assumption
  · split at h <;> omega

theorem chain_spans {s : VirtRegions} {hi : Nat} : ∀ {nodes : List Ptr} {lo : Nat},
    nodes.Pairwise (intervalCmp s.interval · · < 0) →
    (∀ p ∈ nodes, (s.interval p).fromAddr < (s.interval p).toAddr ∧ (s.interval p).toAddr ≤ hi) →
    lo ≤ hi → (∀ p ∈ nodes, lo ≤ (s.interval p).fromAddr) → Chain lo hi (s.spans nodes) := by
  intro nodes
  induction nodes with
  | nil => intro lo _ _ hlo _; exact hlo
  | cons p nodes ih =>
    intro lo hord hproper _ hle
    obtain ⟨hp, hord⟩ := List.pairwise_cons.1 hord
    obtain ⟨hne, hbelow⟩ := hproper p (by simp)
    refine ⟨hle p (by simp), hne, ih hord ?_ hbelow ?_⟩
    · exact fun q hq => hproper q (List.mem_cons_of_mem _ hq)
    · exact fun q hq => intervalCmp_neg (hp q hq)

theorem RegionTree.chain {s : VirtRegions} {w : Window} {u : ColorTree Ptr} (h : RegionTree s w u) :
    Chain w.min (w.max + 1) (s.spans u.toList) :=
  chain_spans h.ordered (fun p hp => ⟨(h.proper p hp).nonempty, (h.proper p hp).below⟩)
    (Nat.le_succ_of_le w.le) fun p hp => (h.proper p hp).above

/-! ## The search on the list of regions -/

/-- The test after the last interval, made from the end of `s`. -/
def tailGap (size hi : Nat) (s : Span) : Nat := if s.hi + size ≤ hi then s.hi else 0

/-- The loop over the neighbours `s` and `n`; at its end the tail is looked for
from `s`, not from `n`. -/
def pairGap (size hi : Nat) : List Span → Span → Span → Nat
  | [], s, n => if s.hi + size ≤ n.lo then s.hi else tailGap size hi s
  | m :: ss, s, n => if s.hi + size ≤ n.lo then s.hi else pairGap size hi ss n m

/-- What `find_gap_start` computes. -/
def listGap (size lo hi : Nat) : List Span → Nat
  | [] => if lo + size ≤ hi then lo else 0
  | [s] => if lo + size ≤ s.lo then lo else tailGap size hi s
  | s :: n :: ss => if lo + size ≤ s.lo then lo else pairGap size hi ss s n

/-- Is there enough room between two neighbours? -/
def innerFits (size : Nat) : List Span → Bool
  | s :: n :: ss => decide (s.hi + size ≤ n.lo) || innerFits size (n :: ss)
  | _ => false

/-- The last interval but one. -/
def lastButOne : List Span → Option Span
  | [] => none
  | [_] => none
  | [s, _] => some s
  | _ :: n :: m :: ss => lastButOne (n :: m :: ss)

/-- When the search is right: the answer is not address 0, and if neither the
space before the first interval nor one between two neighbours is enough, there
is not enough room after the last interval but one either. -/
def GapSafe (size lo hi : Nat) (ss : List Span) : Prop :=
  ¬ (lo = 0 ∧ lo + size ≤ nextStart hi ss) ∧
    (lo + size ≤ nextStart hi ss ∨ innerFits size ss = true ∨
      ∀ s, lastButOne ss = some s → hi < s.hi + size)

/-- `a` is the lowest free address, or NULL where there is none. -/
def IsGap (size lo hi : Nat) (ss : List Span) (a : Nat) : Prop :=
  (a ≠ 0 ∧ IsLeast {y | Free lo hi size ss y} a) ∨ (a = 0 ∧ ∀ y, ¬ Free lo hi size ss y)

theorem isGap_of_lowestGap {size lo hi a : Nat} {ss : List Span} (hsize : 0 < size)
    (h : Chain lo hi ss) (ha : a ≠ 0) (hgap : lowestGap size lo hi ss = some a) :
    IsGap size lo hi ss a := .inl ⟨ha, lowestGap_isLeast hsize h hgap⟩

theorem isGap_cons {size lo hi a : Nat} {s : Span} {ss : List Span} (hsize : 0 < size)
    (h : Chain lo hi (s :: ss)) (hfit : ¬ lo + size ≤ s.lo) :
    IsGap size lo hi (s :: ss) a ↔ IsGap size s.hi hi ss a := by
  simp only [IsGap, free_cons h hsize hfit]

/-- The space after the last interval, looked for from its end. -/
theorem tailGap_isGap {size hi : Nat} {s : Span} (hsize : 0 < size) (h : s.hi ≤ hi)
    (hpos : 0 < s.hi) : IsGap size s.hi hi [] (tailGap size hi s) := by
  unfold tailGap
  split
  · rename_i hfit
    exact isGap_of_lowestGap hsize h (by omega) (by simp [lowestGap, hfit])
  · rename_i hfit
    exact .inr ⟨rfl, lowestGap_none hsize h (by simp [lowestGap, hfit])⟩

/-- The space after the last interval, looked for from the one before it: where
it is found it runs into the last interval. -/
theorem tailGap_meets {size hi : Nat} {s n : Span} (hsize : 0 < size) (h : Chain s.hi hi [n])
    (hfit : ¬ s.hi + size ≤ n.lo) (hroom : s.hi + size ≤ hi) :
    tailGap size hi s = s.hi ∧ ¬ Apart s.hi size n := by
  obtain ⟨hsn, hn, -⟩ := h
  refine ⟨if_pos hroom, ?_⟩
  rw [apart_iff hsize hn]
  omega

theorem pairGap_isGap {size hi : Nat} (hsize : 0 < size) : ∀ (ss : List Span) {s n : Span},
    0 < s.hi → Chain s.hi hi (n :: ss) →
    (innerFits size (s :: n :: ss) = true ∨
      ∀ x, lastButOne (s :: n :: ss) = some x → hi < x.hi + size) →
    IsGap size s.hi hi (n :: ss) (pairGap size hi ss s n) := by
  intro ss
  induction ss with
  | nil =>
    intro s n hpos h hsafe
    by_cases hfit : s.hi + size ≤ n.lo
    · rw [pairGap, if_pos hfit]
      exact isGap_of_lowestGap hsize h (by omega) (by simp [lowestGap, hfit])
    · have hroom : hi < s.hi + size := by simpa [innerFits, hfit, lastButOne] using hsafe
      have hlast : ¬ n.hi + size ≤ hi := by
        have h₁ := h.1
        have h₂ := h.2.1
        omega
      rw [pairGap, if_neg hfit, tailGap, if_neg (by omega)]
      exact .inr ⟨rfl, lowestGap_none hsize h (by simp [lowestGap, hfit, hlast])⟩
  | cons m ss ih =>
    intro s n hpos h hsafe
    by_cases hfit : s.hi + size ≤ n.lo
    · rw [pairGap, if_pos hfit]
      exact isGap_of_lowestGap hsize h (by omega) (by simp [lowestGap, hfit])
    · rw [pairGap, if_neg hfit, isGap_cons hsize h hfit]
      refine ih (by have := h.2.1; omega) h.2.2 ?_
      simpa [innerFits, hfit, lastButOne] using hsafe

theorem pairGap_meets {size hi : Nat} (hsize : 0 < size) : ∀ (ss : List Span) {s n : Span},
    0 < s.hi → Chain s.hi hi (n :: ss) →
    ¬ (innerFits size (s :: n :: ss) = true ∨
      ∀ x, lastButOne (s :: n :: ss) = some x → hi < x.hi + size) →
    pairGap size hi ss s n ≠ 0 ∧ ∃ r ∈ n :: ss,
      ¬ Apart (pairGap size hi ss s n) size r := by
  intro ss
  induction ss with
  | nil =>
    intro s n hpos h hbad
    have hparts : ¬ s.hi + size ≤ n.lo ∧ s.hi + size ≤ hi := by
      simpa [innerFits, lastButOne] using hbad
    obtain ⟨heq, hmeets⟩ := tailGap_meets hsize h hparts.1 hparts.2
    rw [pairGap, if_neg hparts.1, heq]
    exact ⟨by omega, n, by simp, hmeets⟩
  | cons m ss ih =>
    intro s n hpos h hbad
    have hfit : ¬ s.hi + size ≤ n.lo := by
      intro hfit
      exact hbad (.inl (by simp [innerFits, hfit]))
    obtain ⟨hne, r, hr, hmeets⟩ := ih (by have := h.2.1; omega) h.2.2
      (by simpa [innerFits, hfit, lastButOne] using hbad)
    rw [pairGap, if_neg hfit]
    exact ⟨hne, r, List.mem_cons_of_mem _ hr, hmeets⟩

theorem listGap_start {size lo hi : Nat} {ss : List Span} (hfit : lo + size ≤ nextStart hi ss) :
    listGap size lo hi ss = lo := by
  match ss with
  | [] => exact if_pos hfit
  | [s] => exact if_pos hfit
  | s :: n :: ss => exact if_pos hfit

theorem listGap_isGap {size lo hi : Nat} (hsize : 0 < size) {ss : List Span} (h : Chain lo hi ss)
    (hsafe : GapSafe size lo hi ss) : IsGap size lo hi ss (listGap size lo hi ss) := by
  obtain ⟨hzero, hsafe⟩ := hsafe
  by_cases hfit : lo + size ≤ nextStart hi ss
  · rw [listGap_start hfit]
    refine isGap_of_lowestGap hsize h (fun e => hzero ⟨e, hfit⟩) ?_
    cases ss with
    | nil => exact if_pos hfit
    | cons s ss => exact if_pos hfit
  · have hsafe := hsafe.resolve_left hfit
    match ss with
    | [] =>
      have hnone : ¬ lo + size ≤ hi := hfit
      rw [listGap, if_neg hnone]
      exact .inr ⟨rfl, lowestGap_none hsize h (by simp [lowestGap, hnone])⟩
    | [s] =>
      have hstart : ¬ lo + size ≤ s.lo := hfit
      rw [listGap, if_neg hstart, isGap_cons hsize h hstart]
      exact tailGap_isGap hsize h.2.2 (by have := h.2.1; omega)
    | s :: n :: ss =>
      have hstart : ¬ lo + size ≤ s.lo := hfit
      rw [listGap, if_neg hstart, isGap_cons hsize h hstart]
      exact pairGap_isGap hsize ss (by have := h.2.1; omega) h.2.2 hsafe

theorem listGap_wrong {size lo hi : Nat} (hsize : 0 < size) {ss : List Span} (h : Chain lo hi ss)
    (hbad : ¬ GapSafe size lo hi ss) :
    (lo = 0 ∧ listGap size lo hi ss = 0 ∧ Free lo hi size ss lo) ∨
      (listGap size lo hi ss ≠ 0 ∧ ∃ r ∈ ss,
        ¬ Apart (listGap size lo hi ss) size r) := by
  by_cases hfit : lo + size ≤ nextStart hi ss
  · have hzero : lo = 0 := by
      by_contra hne
      exact hbad ⟨fun hz => hne hz.1, .inl hfit⟩
    exact .inl ⟨hzero, (listGap_start hfit).trans hzero, free_start h hsize hfit⟩
  · have hrest : ¬ (innerFits size ss = true ∨ ∀ s, lastButOne ss = some s → hi < s.hi + size) :=
      fun hok => hbad ⟨fun hz => hfit hz.2, .inr hok⟩
    match ss with
    | [] => exact absurd (.inr (by simp [lastButOne])) hrest
    | [s] => exact absurd (.inr (by simp [lastButOne])) hrest
    | s :: n :: ss =>
      have hstart : ¬ lo + size ≤ s.lo := hfit
      rw [listGap, if_neg hstart]
      obtain ⟨hne, r, hr, hmeets⟩ := pairGap_meets hsize ss (by have := h.2.1; omega) h.2.2 hrest
      exact .inr ⟨hne, r, List.mem_cons_of_mem _ hr, hmeets⟩

theorem listGap_isGap_iff {size lo hi : Nat} (hsize : 0 < size) {ss : List Span}
    (h : Chain lo hi ss) : IsGap size lo hi ss (listGap size lo hi ss) ↔ GapSafe size lo hi ss := by
  refine ⟨fun hgap => ?_, listGap_isGap hsize h⟩
  by_contra hbad
  rcases listGap_wrong hsize h hbad with ⟨-, hzero, hfree⟩ | ⟨hne, r, hr, hmeets⟩
  · rcases hgap with ⟨hnz, -⟩ | ⟨-, hnone⟩
    · exact hnz hzero
    · exact hnone lo hfree
  · rcases hgap with ⟨-, hleast⟩ | ⟨hz, -⟩
    · exact hmeets (hleast.1.2.2 r hr)
    · exact hne hz

/-- A window that does not start at 0: the condition is also that of handing out
no address that is taken. -/
theorem listGap_apart_iff {size lo hi : Nat} (hsize : 0 < size) (hlo : lo ≠ 0) {ss : List Span}
    (h : Chain lo hi ss) :
    (listGap size lo hi ss ≠ 0 → ∀ r ∈ ss,
      Apart (listGap size lo hi ss) size r) ↔
      GapSafe size lo hi ss := by
  constructor
  · intro hapart
    by_contra hbad
    rcases listGap_wrong hsize h hbad with ⟨hzero, -⟩ | ⟨hne, r, hr, hmeets⟩
    · exact hlo hzero
    · exact hmeets (hapart hne r hr)
  · intro hsafe hne r hr
    rcases listGap_isGap hsize h hsafe with ⟨-, hleast⟩ | ⟨hz, -⟩
    · exact hleast.1.2.2 r hr
    · exact absurd hz hne

/-! ## The search on the tree -/

theorem roomUpTo_eq {max addr : Nat} (hmax : max < 2 ^ 32) (hle : addr ≤ max + 1)
    (hlt : addr < 2 ^ 32) (hpos : 0 < addr) : roomUpTo max addr = max + 1 - addr := by
  unfold roomUpTo u32 sub32
  omega

/-- The test after the last interval, in the arithmetic of the source. -/
def tailWord (size max : Nat) (cur : VirtInterval) : Nat :=
  if size ≤ roomUpTo max cur.toAddr then cur.toAddr else 0

/-- What the loop computes on any intervals, in the arithmetic of the source. -/
def walkGap (size max : Nat) : List VirtInterval → VirtInterval → VirtInterval → Nat
  | [], cur, next =>
    if size ≤ sub32 next.fromAddr cur.toAddr then cur.toAddr else tailWord size max cur
  | following :: is, cur, next =>
    if size ≤ sub32 next.fromAddr cur.toAddr then cur.toAddr
    else walkGap size max is next following

/-- The search after the first interval. -/
def restGap (size max : Nat) (cur : VirtInterval) : List VirtInterval → Nat
  | [] => tailWord size max cur
  | next :: is => walkGap size max is cur next

theorem findGapLoop_walk {s : VirtRegions} {u : ColorTree Ptr} (h : Holds s.tree u)
    (size max : Nat) : ∀ (ys : List Ptr) (fuel : Nat) (xs : List Ptr) {p q : Ptr}
    (cur : VirtInterval), u.toList = xs ++ p :: q :: ys → ys.length + 1 < fuel →
    findGapLoop s size max fuel p q cur =
      .ok (walkGap size max (ys.map s.interval) (s.interval p) (s.interval q)) := by
  intro ys
  induction ys with
  | nil =>
    intro fuel xs p q cur hlist hfuel
    obtain ⟨fuel, rfl⟩ : ∃ k, fuel = k + 2 := ⟨fuel - 2, by simp at hfuel; omega⟩
    have hq : q ≠ 0#32 := h.focus.ne_zero (by simp [hlist])
    have hnext : rbNext s.tree q = .ok 0#32 := rbNext_ok (xs ++ [p]) h (by simpa using hlist)
    simp only [findGapLoop, if_neg hq, List.map_nil, walkGap]
    split
    · rfl
    · simp only [hnext, ok_bind, if_true, tailWord]
  | cons r ys ih =>
    intro fuel xs p q cur hlist hfuel
    obtain ⟨fuel, rfl⟩ : ∃ k, fuel = k + 1 := ⟨fuel - 1, by omega⟩
    have hq : q ≠ 0#32 := h.focus.ne_zero (by simp [hlist])
    have hnext : rbNext s.tree q = .ok r := rbNext_ok (xs ++ [p]) h (by simpa using hlist)
    simp only [findGapLoop, if_neg hq, List.map_cons, walkGap]
    split
    · rfl
    · simp only [hnext, ok_bind]
      exact ih fuel (xs ++ [p]) (s.interval p) (by simpa using hlist)
        (by rw [List.length_cons] at hfuel; omega)

theorem findGapStart_walk {s : VirtRegions} {u : ColorTree Ptr} (h : Holds s.tree u)
    (size min max : Nat) {p : Ptr} {ys : List Ptr} (hnodes : u.toList = p :: ys)
    (habove : min ≤ (s.interval p).fromAddr) :
    findGapStart s size min max =
      .ok (if size ≤ sub32 (s.interval p).fromAddr min then min
        else restGap size max (s.interval p) (ys.map s.interval)) := by
  have hmin : rbMin s.tree = .ok (u.toList.headD 0#32) := rbMin_ok h
  have hlen := h.length_lt
  rw [hnodes] at hmin hlen
  have hp0 : p ≠ 0#32 := h.focus.ne_zero (by simp [hnodes])
  have hnext : rbNext s.tree p = .ok (ys.headD 0#32) := rbNext_ok [] h hnodes
  simp only [findGapStart, hmin, ok_bind, List.headD_cons, if_neg hp0, assert, habove, decide_true,
    if_true, hnext]
  cases ys with
  | nil =>
    simp only [List.map_nil, List.headD_nil, if_true, restGap, tailWord]
    split <;> rfl
  | cons q ys =>
    have hq0 : q ≠ 0#32 := h.focus.ne_zero (by simp [hnodes])
    have hloop := findGapLoop_walk h size max ys loopLimit [] (s.interval p) hnodes
      (by rw [List.length_cons, List.length_cons] at hlen; omega)
    simp only [List.map_cons, List.headD_cons, if_neg hq0, hloop, restGap]
    split <;> rfl

theorem tailWord_eq {size max : Nat} {i : VirtInterval} (hmax : max < 2 ^ 32)
    (hpos : 0 < i.toAddr) (hle : i.toAddr ≤ max + 1) (hlt : i.toAddr < 2 ^ 32) :
    tailWord size max i = tailGap size (max + 1) i.span := by
  rw [tailWord, roomUpTo_eq hmax hle hlt hpos, tailGap]
  have hiff : size ≤ max + 1 - i.toAddr ↔ i.toAddr + size ≤ max + 1 := by omega
  exact if_congr hiff rfl rfl

theorem between_iff {size : Nat} {cur next : VirtInterval} (hle : cur.toAddr ≤ next.fromAddr)
    (hne : next.fromAddr < next.toAddr) (hlt : next.toAddr < 2 ^ 32) :
    size ≤ sub32 next.fromAddr cur.toAddr ↔ cur.span.hi + size ≤ next.span.lo := by
  rw [sub32_of_le (by omega) hle]
  simp only [VirtInterval.span]
  omega

/-- On disjoint intervals in order whose ends do not wrap, no difference wraps. -/
theorem walkGap_eq {size max : Nat} (hmax : max < 2 ^ 32) :
    ∀ (is : List VirtInterval) (cur next : VirtInterval), 0 < cur.toAddr →
    Chain cur.toAddr (max + 1) (next.span :: is.map VirtInterval.span) →
    (∀ i ∈ next :: is, i.toAddr < 2 ^ 32) →
    walkGap size max is cur next =
      pairGap size (max + 1) (is.map VirtInterval.span) cur.span next.span := by
  intro is
  induction is with
  | nil =>
    intro cur next hpos hchain hlt
    obtain ⟨hle, hne, hend⟩ := hchain
    have hto := hlt next (by simp)
    have hend : next.toAddr ≤ max + 1 := hend
    have hle : cur.toAddr ≤ next.fromAddr := hle
    have hne : next.fromAddr < next.toAddr := hne
    simp only [walkGap, List.map_nil, pairGap]
    rw [tailWord_eq hmax hpos (by omega) (by omega)]
    exact if_congr (between_iff hle hne hto) rfl rfl
  | cons m is ih =>
    intro cur next hpos hchain hlt
    obtain ⟨hle, hne, hend⟩ := hchain
    simp only [walkGap, List.map_cons, pairGap]
    rw [ih next m (Nat.lt_of_le_of_lt (Nat.zero_le _) hne) hend
      fun i hi => hlt i (List.mem_cons_of_mem _ hi)]
    exact if_congr (between_iff hle hne (hlt next (by simp))) rfl rfl

theorem VirtRegions.spans_eq (s : VirtRegions) (nodes : List Ptr) :
    s.spans nodes = (nodes.map s.interval).map VirtInterval.span := by
  simp [VirtRegions.spans]

/-- `find_gap_start` never faults on a valid tree. -/
theorem findGapStart_ok {s : VirtRegions} {w : Window} {u : ColorTree Ptr} (h : RegionTree s w u)
    (size : Nat) :
    findGapStart s size w.min w.max =
      .ok (listGap size w.min (w.max + 1) (s.spans u.toList)) := by
  have hmax := w.lt
  match hnodes : u.toList with
  | [] =>
    have hmin : rbMin s.tree = .ok (u.toList.headD 0#32) := rbMin_ok h.holds
    rw [hnodes] at hmin
    simp only
    [findGapStart, hmin, ok_bind, List.headD_nil, if_true, VirtRegions.spans, List.map_nil,
      listGap, pure_eq_ok]
    have hle := w.le
    -- with the whole address space the room wraps to 0, and so is the start
    by_cases hzero : w.min = 0
    · simp [hzero]
    · rw [roomUpTo_eq hmax (by omega) (by omega) (by omega)]
      congr 1
      exact if_congr (by omega) rfl rfl
  | p :: ys =>
    have hp := h.proper p (by simp [hnodes])
    have hne := hp.nonempty
    have hwrap := hp.noWrap
    have habove := hp.above
    have hchain := h.chain
    rw [hnodes] at hchain
    rw [findGapStart_walk h.holds size w.min w.max hnodes habove]
    have hstart : size ≤ sub32 (s.interval p).fromAddr w.min ↔
        w.min + size ≤ (s.interval p).span.lo := by
      rw [sub32_of_le (by omega) habove]
      simp only [VirtInterval.span]
      omega
    cases ys with
    | nil =>
      simp only [VirtRegions.spans, List.map_cons, List.map_nil, restGap, listGap]
      rw [tailWord_eq hmax (by omega) hp.below hwrap]
      exact congrArg _ (if_congr hstart rfl rfl)
    | cons q ys =>
      have hlt : ∀ i ∈ s.interval q :: ys.map s.interval, i.toAddr < 2 ^ 32 := by
        intro i hi
        obtain ⟨r, hr, rfl⟩ := List.mem_map.1 (show i ∈ (q :: ys).map s.interval from hi)
        exact (h.proper r (by rw [hnodes]; exact List.mem_cons_of_mem _ hr)).noWrap
      rw [VirtRegions.spans_eq, List.map_cons, List.map_cons] at hchain ⊢
      simp only [List.map_cons, restGap, listGap] at hchain ⊢
      rw [walkGap_eq hmax _ _ _ (by omega) hchain.2.2 hlt]
      exact congrArg _ (if_congr hstart rfl rfl)

/-! ## Reserving a range -/

/-- Registering an interval at a new node returns, also where the interval is
not disjoint from the others and `rb_insert` refuses it. -/
theorem kvregionMark_ok {s : VirtRegions} {u : ColorTree Ptr} (h : Holds s.tree u)
    (hrb : RedBlack u) {newInterval : Ptr} (hne : newInterval ≠ 0#32) (hal : Aligned newInterval)
    (hnew : newInterval ∉ u.toList) (fromAddr count : Nat) (vregion : VirtRegionType)
    (name : String) : ∃ s', kvregionMark s newInterval fromAddr count vregion name = .ok s' := by
  generalize hiv : (fun p => if p = newInterval then
    VirtInterval.mk fromAddr (u32 (fromAddr + count * pageSize)) name vregion
    else s.interval p) = interval
  obtain ⟨t', o, ht'⟩ : ∃ t' o, rbInsert (callbacks interval) s.tree newInterval = .ok (t', o) := by
    obtain ⟨fs, v, hlink, hf, hplug⟩ :=
      rbFindNodeLink_ok (callbacks interval).cmp h newInterval
    cases v with
    | nil =>
      have hout : newInterval ∉ frameNodes fs := by
        intro hmem
        refine hnew ?_
        rw [← hplug, (toList_plug_perm .nil fs).mem_iff]
        exact List.mem_append_right _ hmem
      rw [show ptr (.nil : ColorTree Ptr) = 0#32 from rfl, if_pos rfl] at hlink
      obtain ⟨t', -, ht', -⟩ := rbInsert_new (hplug ▸ hrb) hf hout hlink hne hal
      exact ⟨t', newInterval, ht'⟩
    | node c l a r =>
      have ha : ptr (.node c l a r) ≠ 0#32 := At.ne_zero (d := .left) hf.place
      exact ⟨s.tree, 0#32, rbInsert_equal hf ha hlink⟩
  refine ⟨⟨t', interval⟩, ?_⟩
  simp only
  [kvregionMark, assert, ne_eq, hne, not_false_eq_true, decide_true, if_true, ok_bind, hiv,
    ht']
  rfl

theorem kvregionReserve_ok {s : VirtRegions} {u : ColorTree Ptr} (h : RegionTree s kernelWindow u)
    {newInterval : Ptr} (hne : newInterval ≠ 0#32) (hal : Aligned newInterval)
    (hnew : newInterval ∉ u.toList) {count : Nat} (hlt : count * pageSize < 2 ^ 32)
    (vregion : VirtRegionType) (name : Option String) :
    ∃ s', kvregionReserve s newInterval count vregion name = .ok (s', listGap (count * pageSize)
      kernelWindow.min (kernelWindow.max + 1) (s.spans u.toList)) := by
  have hgap : findGapStart s (count * pageSize) highVaddr maxVaddr = .ok (listGap (count * pageSize)
      kernelWindow.min (kernelWindow.max + 1) (s.spans u.toList)) := findGapStart_ok h _
  generalize listGap (count * pageSize) kernelWindow.min (kernelWindow.max + 1)
    (s.spans u.toList) = a at hgap ⊢
  simp only [kvregionReserve, u32_of_lt hlt, hgap, ok_bind]
  by_cases ha : a = 0
  · exact ⟨s, by simp [ha]⟩
  · obtain ⟨s', hs'⟩ := kvregionMark_ok h.holds h.redBlack hne hal hnew a count vregion
      (name.getD reservePagesName)
    exact ⟨s', by simp [ha, hs']⟩

/-- When `find_gap_start` is right, and when `kvregion_reserve` hands out a free
range. -/
theorem findGapStart_correct_iff {s : VirtRegions} {w : Window} {u : ColorTree Ptr}
    (h : RegionTree s w u) :
    (∀ size, pageSize ∣ size → 0 < size → size < 2 ^ 32 →
      ((∃ a, findGapStart s size w.min w.max = .ok a ∧
          IsGap size w.min (w.max + 1) (s.spans u.toList) a) ↔
        GapSafe size w.min (w.max + 1) (s.spans u.toList))) ∧
    (w = kernelWindow → ∀ (newInterval : Ptr) (count : Nat) (vregion : VirtRegionType)
      (name : Option String), newInterval ≠ 0#32 → Aligned newInterval →
      newInterval ∉ u.toList → 0 < count → count * pageSize < 2 ^ 32 →
      ((∃ s' a, kvregionReserve s newInterval count vregion name = .ok (s', a) ∧
          (a ≠ 0 → ∀ r ∈ s.spans u.toList, Apart a (count * pageSize) r)) ↔
        GapSafe (count * pageSize) w.min (w.max + 1) (s.spans u.toList))) := by
  constructor
  · intro size _ hsize _
    have hok := findGapStart_ok h size
    rw [← listGap_isGap_iff hsize h.chain]
    constructor
    · intro hgap
      obtain ⟨a, ha, hgap⟩ := hgap
      obtain rfl : listGap size w.min (w.max + 1) (s.spans u.toList) = a :=
        Except.ok.inj (hok.symm.trans ha)
      exact hgap
    · intro hgap
      exact ⟨_, hok, hgap⟩
  · intro hw newInterval count vregion name hne hal hnew hpos hlt
    subst hw
    have hsize : 0 < count * pageSize := Nat.mul_pos hpos (by decide)
    obtain ⟨s₁, hok⟩ := kvregionReserve_ok h hne hal hnew hlt vregion name
    have hiff := listGap_apart_iff hsize (show kernelWindow.min ≠ 0 by decide) h.chain
    refine Iff.trans ?_ hiff
    constructor
    · intro hout
      obtain ⟨s₂, a, ha, hapart⟩ := hout
      have heq := Except.ok.inj (hok.symm.trans ha)
      obtain rfl := congrArg Prod.snd heq
      exact hapart
    · intro hapart
      exact ⟨s₁, _, hok, hapart⟩

/-! ## Two regions -/

/-- A black root and its red right child. -/
def twoNodes : ColorTree Ptr := .node .black .nil 16#32 (.node .red .nil 32#32 .nil)

def twoNodeTree : RbTree Unit where
  root := 16#32
  mem := fun p => if p = 16#32 then ⟨0#32, 0#32, 32#32⟩ else ⟨17#32, 0#32, 0#32⟩
  data := fun _ => ()

theorem twoNodeTree_holds : Holds twoNodeTree twoNodes := by
  refine ⟨?_, ⟨rfl, rfl⟩, by decide⟩
  refine ⟨rfl, by decide, by decide, by decide, by decide, rfl, rfl, ?_⟩
  exact ⟨by decide, by decide, by decide, by decide, rfl, rfl⟩

/-- A region of one page at the start of the kernel's addresses, and another one
`gap` bytes after it. -/
def twoRegions (gap : Nat) : VirtRegions where
  tree := twoNodeTree
  interval := fun p =>
    if p = 16#32 then ⟨0xC0000000, 0xC0001000, "first", .kernelImg⟩
    else ⟨0xC0001000 + gap, 0xC0002000 + gap, "second", .heap⟩

theorem twoRegions_valid (gap : Nat) (hgap : pageSize ∣ gap) (hlt : gap < 0x10000000) :
    RegionTree (twoRegions gap) kernelWindow twoNodes := by
  have hpage : pageSize = 4096 := rfl
  refine ⟨twoNodeTree_holds, ⟨1, .black .nil (.red .nil .nil)⟩, ?_, ?_⟩
  · simp [Ordered, twoNodes, toList, intervalCmp, twoRegions]
  · intro p hp
    simp only [twoNodes, toList, List.nil_append, List.mem_cons, List.not_mem_nil, or_false] at hp
    rcases hp with rfl | rfl
    · constructor <;> simp [twoRegions, kernelWindow, maxVaddr, highVaddr, hpage]
    · rw [hpage] at hgap
      constructor <;> simp [twoRegions, kernelWindow, maxVaddr, highVaddr, hpage] <;> omega

/-- Two pages between the regions: the search finds them. -/
theorem findGapStart_correct_between :
    (∃ a, findGapStart (twoRegions 0x2000) 4096 kernelWindow.min kernelWindow.max = .ok a ∧
      IsGap 4096 kernelWindow.min (kernelWindow.max + 1) ((twoRegions 0x2000).spans twoNodes.toList)
        a) ∧
    ∃ s' a, kvregionReserve (twoRegions 0x2000) 48#32 1 .heap none = .ok (s', a) ∧
      (a ≠ 0 → ∀ r ∈ (twoRegions 0x2000).spans twoNodes.toList, Apart a (1 * pageSize) r) := by
  have hvalid := twoRegions_valid 0x2000 (by decide) (by decide)
  constructor
  · exact ((findGapStart_correct_iff hvalid).1 4096 (by decide) (by decide) (by decide)).2
      ⟨by decide, .inr (.inl (by decide))⟩
  · exact ((findGapStart_correct_iff hvalid).2 rfl 48#32 1 .heap none (by decide) (by decide)
      (by decide) (by decide) (by decide)).2 ⟨by decide, .inr (.inl (by decide))⟩

/-- Adjacent regions: the search hands out the page of the second one. -/
theorem adjacent_regions_overlap :
    RegionTree (twoRegions 0) kernelWindow twoNodes ∧
    findGapStart (twoRegions 0) 4096 kernelWindow.min kernelWindow.max = .ok 0xC0001000 ∧
    ¬ IsGap 4096 kernelWindow.min (kernelWindow.max + 1) ((twoRegions 0).spans twoNodes.toList)
      0xC0001000 ∧
    (kvregionReserve (twoRegions 0) 48#32 1 .heap none).map Prod.snd = .ok 0xC0001000 ∧
    ∃ r ∈ (twoRegions 0).spans twoNodes.toList, ¬ Apart 0xC0001000 (1 * pageSize) r := by
  have hvalid := twoRegions_valid 0 (by decide) (by decide)
  have hmeets : ¬ Apart 0xC0001000 4096 ⟨0xC0001000, 0xC0002000⟩ := by
    rw [apart_iff (by decide) (by decide)]
    decide
  have hmem : (⟨0xC0001000, 0xC0002000⟩ : Span) ∈ (twoRegions 0).spans twoNodes.toList := by decide
  refine ⟨hvalid, by decide +kernel, ?_, by decide +kernel, _, hmem, hmeets⟩
  intro hgap
  rcases hgap with ⟨-, hleast⟩ | ⟨hzero, -⟩
  · exact hmeets (hleast.1.2.2 _ hmem)
  · exact absurd hzero (by decide)

end X86Kernel.VirtRegion
