import Mathlib.Data.Set.Lattice
import Mathlib.Order.CompletePartialOrder
import X86Kernel.Memory.VirtRegion
import X86Kernel.Utils.RbTree.Contents

/- The regions as a set: `kvregion_mark`, `kvregion_is_free` and `kvregion_release`.

   `interval_cmp` takes intervals that overlap for equal, so it orders only intervals that
   are disjoint. The searches compare with an interval that may meet several of the stored
   ones; on these the comparison with it is still monotone (`intervalCmp_cuts`), and that is
   what a search needs.

   What is proved: marking and asking are exact on every valid tree, and so is releasing
   where no second region has addresses on the page (`registry_exact`). The search compares
   with the whole page, so with two regions on one page it may end at the wrong one
   (`wrong_region_released`); pages are not shared where all the regions start and end at
   one (`Registry.apart_of_aligned`).

   The address of the interval that is compared with, on the stack, is the argument `probe`.

   Correspondence (C ↔ Lean): see `VirtRegion.lean`. -/
namespace X86Kernel.VirtRegion
open X86Kernel.Lib X86Kernel.Lib.ColorTree X86Kernel.Rb

/-- A red-black tree of intervals in the order of `interval_cmp`, none of them empty, and
none of them with an end that wraps. -/
structure Registry (s : VirtRegions) (u : ColorTree Ptr) : Prop where
  holds : Holds s.tree u
  redBlack : RedBlack u
  ordered : Ordered (intervalCmp s.interval) u
  nonempty : ∀ p ∈ u.toList, (s.interval p).fromAddr < (s.interval p).toAddr
  noWrap : ∀ p ∈ u.toList, (s.interval p).toAddr < 2 ^ 32

/-- The registered regions, in order. -/
def VirtRegions.regions (s : VirtRegions) (u : ColorTree Ptr) : List VirtInterval :=
  u.toList.map s.interval

def PairwiseDisjoint (is : List VirtInterval) : Prop :=
  is.Pairwise fun i j => Disjoint i.span.addrs j.span.addrs

/-! ## `interval_cmp` -/

section Cmp

variable {interval : Ptr → VirtInterval} {a b : Ptr}

theorem intervalCmp_neg_iff :
    intervalCmp interval a b < 0 ↔ (interval a).toAddr ≤ (interval b).fromAddr := by
  unfold intervalCmp
  split
  · simp [*]
  · split <;> simp [*]

theorem intervalCmp_pos_iff : 0 < intervalCmp interval a b ↔
    ¬ (interval a).toAddr ≤ (interval b).fromAddr ∧
      (interval b).toAddr ≤ (interval a).fromAddr := by
  unfold intervalCmp
  split
  · simp [*]
  · split <;> simp [*]

theorem intervalCmp_eq_zero_iff : intervalCmp interval a b = 0 ↔
    ¬ (interval a).toAddr ≤ (interval b).fromAddr ∧
      ¬ (interval b).toAddr ≤ (interval a).fromAddr := by
  unfold intervalCmp
  split
  · simp [*]
  · split <;> simp [*]

theorem intervalCmp_ne_zero_iff (hb : (interval b).fromAddr < (interval b).toAddr)
    (ha : (interval a).fromAddr < (interval a).toAddr) :
    intervalCmp interval a b ≠ 0 ↔
      Apart (interval b).fromAddr ((interval b).toAddr - (interval b).fromAddr)
        (interval a).span := by
  rw [ne_eq, intervalCmp_eq_zero_iff, apart_iff (by omega) ha]
  simp only [VirtInterval.span]
  omega

theorem intervalCmp_cuts (interval : Ptr → VirtInterval) (key : Ptr) :
    Cuts (fun p => (interval p).fromAddr < (interval p).toAddr) (intervalCmp interval) key where
  below a b ha hb hab hbk := by
    rw [intervalCmp_neg_iff] at *
    omega
  above a b ha hb hab hak := by
    rw [intervalCmp_neg_iff] at hab
    rw [intervalCmp_pos_iff] at *
    omega

theorem intervalCmp_congr {interval' : Ptr → VirtInterval} (ha : interval' a = interval a)
    (hb : interval' b = interval b) : intervalCmp interval' a b = intervalCmp interval a b := by
  unfold intervalCmp
  rw [ha, hb]

end Cmp

theorem ordered_congr {interval interval' : Ptr → VirtInterval} {u : ColorTree Ptr}
    (hord : Ordered (intervalCmp interval) u) (hsame : ∀ p ∈ u.toList, interval' p = interval p) :
    Ordered (intervalCmp interval') u := by
  unfold Ordered at hord ⊢
  refine hord.imp_of_mem fun ha hb hab => ?_
  rw [intervalCmp_congr (hsame _ ha) (hsame _ hb)]
  exact hab

theorem pairwiseDisjoint_of_pairwise {interval : Ptr → VirtInterval} {nodes : List Ptr}
    (hord : nodes.Pairwise (intervalCmp interval · · < 0)) :
    PairwiseDisjoint (nodes.map interval) := by
  unfold PairwiseDisjoint
  rw [List.pairwise_map]
  refine hord.imp fun hab => ?_
  rw [intervalCmp_neg_iff] at hab
  rw [Set.disjoint_left]
  intro x hxa hxb
  simp only [Span.addrs, VirtInterval.span, Set.mem_Ico] at hxa hxb
  omega

/-! ## The three operations -/

theorem ordered_between {interval : Ptr → VirtInterval} {u u' : ColorTree Ptr} {node : Ptr}
    {xs ys : List Ptr} (hord : Ordered (intervalCmp interval) u) (hlist : u.toList = xs ++ ys)
    (hlist' : u'.toList = xs ++ node :: ys) (hxs : ∀ a ∈ xs, intervalCmp interval a node < 0)
    (hys : ∀ a ∈ ys, 0 < intervalCmp interval a node) : Ordered (intervalCmp interval) u' := by
  unfold Ordered at hord ⊢
  rw [hlist, List.pairwise_append] at hord
  obtain ⟨hx, hy, hxy⟩ := hord
  rw [hlist', List.pairwise_append, List.pairwise_cons]
  refine ⟨hx, ⟨fun b hb => ?_, hy⟩, fun a ha b hb => ?_⟩
  · exact intervalCmp_neg_iff.2 (intervalCmp_pos_iff.1 (hys b hb)).2
  · cases List.mem_cons.1 hb with
    | inl hb => exact hb ▸ hxs a ha
    | inr hb => exact hxy a ha b hb

section Operations

variable {s : VirtRegions} {u : ColorTree Ptr} (h : Registry s u)
include h

/-- `kvregion_mark` of a range that does not wrap: the interval is added if it is apart from
all the others, else the regions stay as they are. -/
theorem kvregionMark_registry {newInterval : Ptr} (hne : newInterval ≠ 0#32)
    (hal : Aligned newInterval) (hnew : newInterval ∉ u.toList) {va count : Nat}
    (hcount : 1 ≤ count) (hlt : va + count * pageSize < 2 ^ 32) (vregion : VirtRegionType)
    (name : String) :
    ∃ s' u', kvregionMark s newInterval va count vregion name = .ok s' ∧ Registry s' u' ∧
      (∀ p ∈ u'.toList, p = newInterval ∨ p ∈ u.toList) ∧
      ((∀ i ∈ s.regions u, Apart va (count * pageSize) i.span) →
        (s'.regions u').Perm (⟨va, va + count * pageSize, name, vregion⟩ :: s.regions u)) ∧
      (¬ (∀ i ∈ s.regions u, Apart va (count * pageSize) i.span) →
        s'.regions u' = s.regions u) := by
  have hsize : 0 < count * pageSize := Nat.mul_pos hcount (by decide)
  let interval : Ptr → VirtInterval := fun p => if p = newInterval then
    ⟨va, u32 (va + count * pageSize), name, vregion⟩ else s.interval p
  have hself : interval newInterval = ⟨va, va + count * pageSize, name, vregion⟩ := by
    simp only [interval, if_pos, u32_of_lt hlt]
  have hsame : ∀ p ∈ u.toList, interval p = s.interval p := by
    intro p hp
    apply if_neg
    intro e
    exact hnew (e ▸ hp)
  have hord : Ordered (callbacks interval).cmp u := ordered_congr h.ordered hsame
  have hS : ∀ p ∈ u.toList, (interval p).fromAddr < (interval p).toAddr := by
    intro p hp
    rw [hsame p hp]
    exact h.nonempty p hp
  have hpos : (interval newInterval).fromAddr < (interval newInterval).toAddr := by
    rw [hself]
    show va < va + count * pageSize
    omega
  -- to compare equal is to meet the new range
  have hiff : (∀ a ∈ u.toList, (callbacks interval).cmp a newInterval ≠ 0) ↔
      ∀ i ∈ s.regions u, Apart va (count * pageSize) i.span := by
    rw [VirtRegions.regions, List.forall_mem_map]
    refine forall₂_congr fun a ha => ?_
    show intervalCmp interval a newInterval ≠ 0 ↔ _
    rw [intervalCmp_ne_zero_iff hpos (hS a ha), hself, hsame a ha, Nat.add_sub_cancel_left]
  have hrun : kvregionMark s newInterval va count vregion name =
      (rbInsert (callbacks interval) s.tree newInterval >>= fun r => .ok ⟨r.1, interval⟩) := by
    simp only [kvregionMark, assert, ne_eq, hne, not_false_eq_true, decide_true, if_true, ok_bind]
    rfl
  rcases rbInsert_between h.holds h.redBlack (intervalCmp_cuts interval newInterval) hord hS hnew
    hne hal with ⟨hapart, t', u', xs, ys, ht', hu', hrb', hlist, hlist', hbefore, hafter⟩ |
      ⟨hmeets, ht'⟩
  · have hperm : u'.toList.Perm (newInterval :: u.toList) := by
      rw [hlist', hlist]
      exact List.perm_middle
    have hnodes : ∀ p ∈ u'.toList, p = newInterval ∨ p ∈ u.toList := by
      intro p hp
      exact List.mem_cons.1 (hperm.mem_iff.1 hp)
    refine ⟨⟨t', interval⟩, u', ?_, ⟨hu', hrb', ?_, fun p hp => ?_, fun p hp => ?_⟩, hnodes,
      fun _ => ?_, fun hnot => ?_⟩
    · rw [hrun, ht', ok_bind]
    · exact ordered_between hord hlist hlist' hbefore hafter
    · cases hnodes p hp with
      | inl hp => exact hp ▸ hpos
      | inr hp => exact hS p hp
    · show (interval p).toAddr < 2 ^ 32
      cases hnodes p hp with
      | inl hp =>
        rw [hp, hself]
        exact hlt
      | inr hp =>
        rw [hsame p hp]
        exact h.noWrap p hp
    · have hmap := hperm.map interval
      rw [List.map_cons, hself, List.map_congr_left hsame] at hmap
      exact hmap
    · exact absurd (hiff.1 hapart) hnot
  · refine ⟨⟨s.tree, interval⟩, u, ?_, ⟨h.holds, h.redBlack, hord, hS, ?_⟩, fun _ => .inr,
      fun hall => ?_, fun _ => ?_⟩
    · rw [hrun, ht', ok_bind]
    · intro p hp
      show (interval p).toAddr < 2 ^ 32
      rw [hsame p hp]
      exact h.noWrap p hp
    · obtain ⟨a, ha, heq⟩ := hmeets
      exact absurd heq (hiff.2 hall a ha)
    · exact List.map_congr_left hsame

theorem searchIntervalAddr_registry {probe : Ptr} (hprobe : probe ∉ u.toList) {va : Nat}
    (hva : va + pageSize < 2 ^ 32) :
    (∃ a ∈ u.toList, ¬ Apart va pageSize (s.interval a).span ∧ a ≠ 0#32 ∧
      searchIntervalAddr s probe va = .ok a) ∨
    ((∀ a ∈ u.toList, Apart va pageSize (s.interval a).span) ∧
      searchIntervalAddr s probe va = .ok 0#32) := by
  have hself : probeInterval s probe va probe = ⟨va, va + pageSize, "", .unknown⟩ := by
    simp only [probeInterval, if_pos, u32_of_lt hva]
  have hsame : ∀ p ∈ u.toList, probeInterval s probe va p = s.interval p := by
    intro p hp
    apply if_neg
    intro e
    exact hprobe (e ▸ hp)
  have hS : ∀ p ∈ u.toList, (probeInterval s probe va p).fromAddr <
      (probeInterval s probe va p).toAddr := by
    intro p hp
    rw [hsame p hp]
    exact h.nonempty p hp
  have hpos : (probeInterval s probe va probe).fromAddr <
      (probeInterval s probe va probe).toAddr := by
    rw [hself]
    exact Nat.lt_add_of_pos_right (by decide)
  have hiff : ∀ a ∈ u.toList, intervalCmp (probeInterval s probe va) a probe ≠ 0 ↔
      Apart va pageSize (s.interval a).span := by
    intro a ha
    rw [intervalCmp_ne_zero_iff hpos (hS a ha), hself, hsame a ha, Nat.add_sub_cancel_left]
  cases rbSearch_contents h.holds (intervalCmp_cuts (probeInterval s probe va) probe)
    (ordered_congr h.ordered hsame) hS with
  | inl hfound =>
    obtain ⟨a, ha, heq, hne, hrun⟩ := hfound
    refine .inl ⟨a, ha, fun hapart => ?_, hne, hrun⟩
    exact (hiff a ha).2 hapart heq
  | inr hnone =>
    refine .inr ⟨fun a ha => ?_, hnone.2⟩
    exact (hiff a ha).1 (hnone.1 a ha)

theorem kvregionIsFree_registry {probe : Ptr} (hprobe : probe ∉ u.toList) {va : Nat}
    (hzero : va ≠ 0) (hpage : va % pageSize = 0) (hva : va + pageSize < 2 ^ 32) :
    ∃ b, kvregionIsFree s probe va = .ok b ∧
      (b = true ↔ ∀ i ∈ s.regions u, Apart va pageSize i.span) := by
  have hrun {node : Ptr} (hnode : searchIntervalAddr s probe va = .ok node) :
      kvregionIsFree s probe va = .ok (decide (node = 0#32)) := by
    simp only [kvregionIsFree, hzero, if_false, assert, hpage, decide_true, if_true, ok_bind, hnode,
      pure_eq_ok]
  rw [VirtRegions.regions, List.forall_mem_map]
  cases searchIntervalAddr_registry h hprobe hva with
  | inl hfound =>
    obtain ⟨a, ha, hmeets, hne, hsearch⟩ := hfound
    refine ⟨_, hrun hsearch, ?_⟩
    rw [decide_eq_true_eq]
    exact ⟨fun hz => absurd hz hne, fun hall => absurd (hall a ha) hmeets⟩
  | inr hnone =>
    refine ⟨_, hrun hnone.2, ?_⟩
    rw [decide_eq_true_eq]
    exact ⟨fun _ => hnone.1, fun _ => rfl⟩

/-- `kvregion_release` of an address in the region of node `a`, when no other region has
addresses on the page. -/
theorem kvregionRelease_registry {probe : Ptr} (hprobe : probe ∉ u.toList) {va : Nat}
    (hva : va + pageSize < 2 ^ 32) {a : Ptr} (ha : a ∈ u.toList)
    (hcovers : va ∈ (s.interval a).span.addrs)
    (honly : ∀ b ∈ u.toList, b ≠ a → Apart va pageSize (s.interval b).span) :
    ∃ s' u', kvregionRelease s probe va = .ok s' ∧ Holds s'.tree u' ∧
      (s.regions u).Perm (s.interval a :: s'.regions u') ∧ PairwiseDisjoint (s'.regions u') := by
  have hsearch : searchIntervalAddr s probe va = .ok a := by
    cases searchIntervalAddr_registry h hprobe hva with
    | inl hfound =>
      obtain ⟨b, hb, hmeets, -, hrun⟩ := hfound
      by_cases hba : b = a
      · rw [hrun, hba]
      · exact absurd (honly b hb hba) hmeets
    | inr hnone =>
      have hapart := hnone.1 a ha
      have hin : va ∈ Set.Ico va (va + pageSize) ∩ (s.interval a).span.addrs :=
        ⟨⟨Nat.le_refl va, Nat.lt_add_of_pos_right (by decide)⟩, hcovers⟩
      rw [hapart] at hin
      exact hin.elim
  have hne : a ≠ 0#32 := h.holds.focus.ne_zero ha
  obtain ⟨t', u', ht', hu', hlist⟩ := rbRemove_contents (callbacks s.interval) h.holds h.redBlack ha
  refine ⟨⟨t', s.interval⟩, u', ?_, hu', ?_, ?_⟩
  · simp only
      [kvregionRelease, hsearch, ok_bind, assert, ne_eq, hne, not_false_eq_true, decide_true,
      if_true, rbRemoveNode, if_false, ht', pure_eq_ok]
  · show (u.toList.map s.interval).Perm (s.interval a :: u'.toList.map s.interval)
    rw [hlist]
    exact (List.perm_cons_erase ha).map s.interval
  · apply pairwiseDisjoint_of_pairwise
    rw [hlist]
    exact h.ordered.sublist List.erase_sublist

end Operations

theorem Registry.apart_of_aligned {s : VirtRegions} {u : ColorTree Ptr} (h : Registry s u)
    (hpages : ∀ p ∈ u.toList, pageSize ∣ (s.interval p).fromAddr ∧ pageSize ∣ (s.interval p).toAddr)
    {va : Nat} (hpage : va % pageSize = 0) {a : Ptr} (ha : a ∈ u.toList)
    (hcovers : va ∈ (s.interval a).span.addrs) {b : Ptr} (hb : b ∈ u.toList) (hne : b ≠ a) :
    Apart va pageSize (s.interval b).span := by
  have hsides : (s.interval b).toAddr ≤ (s.interval a).fromAddr ∨
      (s.interval a).toAddr ≤ (s.interval b).fromAddr := by
    let sides : Ptr → Ptr → Prop := fun x y => (s.interval x).toAddr ≤ (s.interval y).fromAddr ∨
      (s.interval y).toAddr ≤ (s.interval x).fromAddr
    have hsymm : Std.Symm sides := ⟨fun _ _ hxy => hxy.symm⟩
    have hpairs : u.toList.Pairwise sides :=
      h.ordered.imp fun hxy => .inl (intervalCmp_neg_iff.1 hxy)
    exact hpairs.forall hb ha hne
  obtain ⟨hfrom, hto⟩ := hcovers
  have hnonempty := h.nonempty b hb
  have hpagesA := hpages a ha
  have hpagesB := hpages b hb
  simp only [VirtInterval.span] at hfrom hto
  rw [apart_iff (by decide) hnonempty]
  simp only [VirtInterval.span]
  unfold pageSize at *
  omega

/-- What the registry of regions does, on every red-black tree of disjoint, non-empty
intervals that do not wrap. `kvregion_mark` adds a range that is apart from all the regions,
and no other one; `kvregion_is_free` tells whether a region meets the page; and
`kvregion_release` takes out the region that covers the address, if no other one has
addresses on the page. -/
theorem registry_exact {s : VirtRegions} {u : ColorTree Ptr} (h : Registry s u) :
    PairwiseDisjoint (s.regions u) ∧
    (∀ (newInterval : Ptr) (va count : Nat) (vregion : VirtRegionType) (name : String),
      newInterval ≠ 0#32 → Aligned newInterval → newInterval ∉ u.toList → 1 ≤ count →
      va + count * pageSize < 2 ^ 32 →
      ∃ s' u', kvregionMark s newInterval va count vregion name = .ok s' ∧ Registry s' u' ∧
        PairwiseDisjoint (s'.regions u') ∧
        ((∀ i ∈ s.regions u, Apart va (count * pageSize) i.span) →
          (s'.regions u').Perm (⟨va, va + count * pageSize, name, vregion⟩ :: s.regions u)) ∧
        (¬ (∀ i ∈ s.regions u, Apart va (count * pageSize) i.span) →
          s'.regions u' = s.regions u)) ∧
    (∀ (probe : Ptr) (va : Nat), probe ∉ u.toList → va ≠ 0 → va % pageSize = 0 →
      va + pageSize < 2 ^ 32 → ∃ b, kvregionIsFree s probe va = .ok b ∧
        (b = true ↔ ∀ i ∈ s.regions u, Apart va pageSize i.span)) ∧
    ∀ (probe : Ptr) (va : Nat) (a : Ptr), probe ∉ u.toList → va % pageSize = 0 →
      va + pageSize < 2 ^ 32 → a ∈ u.toList → va ∈ (s.interval a).span.addrs →
      (∀ b ∈ u.toList, b ≠ a → Apart va pageSize (s.interval b).span) →
      ∃ s' u', kvregionRelease s probe va = .ok s' ∧ Holds s'.tree u' ∧
        (s.regions u).Perm (s.interval a :: s'.regions u') ∧
        PairwiseDisjoint (s'.regions u') := by
  refine ⟨pairwiseDisjoint_of_pairwise h.ordered, ?_, ?_, ?_⟩
  · intro newInterval va count vregion name hne hal hnew hcount hlt
    obtain ⟨s', u', hrun, h', -, hadd, hkeep⟩ :=
      kvregionMark_registry h hne hal hnew hcount hlt vregion name
    exact ⟨s', u', hrun, h', pairwiseDisjoint_of_pairwise h'.ordered, hadd, hkeep⟩
  · intro probe va hprobe hzero hpage hva
    exact kvregionIsFree_registry h hprobe hzero hpage hva
  · intro probe va a hprobe _ hva ha hcovers honly
    exact kvregionRelease_registry h hprobe hva ha hcovers honly

/-! ## Two regions on one page -/

theorem twoRegions_registry (gap : Nat) (hgap : pageSize ∣ gap) (hlt : gap < 0x10000000) :
    Registry (twoRegions gap) twoNodes := by
  have h := twoRegions_valid gap hgap hlt
  exact ⟨h.holds, h.redBlack, h.ordered, fun p hp => (h.proper p hp).nonempty,
    fun p hp => (h.proper p hp).noWrap⟩

/-- The second of two adjacent regions is released. -/
theorem adjacent_region_released :
    ∃ s' u', kvregionRelease (twoRegions 0) 48#32 0xC0001000 = .ok s' ∧ Holds s'.tree u' ∧
      ((twoRegions 0).regions twoNodes).Perm
        (⟨0xC0001000, 0xC0002000, "second", .heap⟩ :: s'.regions u') ∧
      PairwiseDisjoint (s'.regions u') := by
  have hvalid := twoRegions_valid 0 (by decide) (by decide)
  have h := twoRegions_registry 0 (by decide) (by decide)
  refine (registry_exact h).2.2.2 48#32 0xC0001000 32#32 (by decide) (by decide) (by decide)
    (by decide) ?_ ?_
  · show 0xC0001000 ∈ Set.Ico 0xC0001000 0xC0002000
    simp
  · intro b hb hne
    apply h.apart_of_aligned _ (by decide) (a := 32#32) (by decide) _ hb hne
    · exact fun p hp => (hvalid.proper p hp).aligned
    · show 0xC0001000 ∈ Set.Ico 0xC0001000 0xC0002000
      simp

/-- A black root and its red left child. -/
def leftChild : ColorTree Ptr := .node .black (.node .red .nil 32#32 .nil) 16#32 .nil

/-- Two regions of one page each, from the middle of a page to the middle of the next one; the
second one is at the root. -/
def straddling : VirtRegions where
  tree := { root := 16#32, mem := fun p => if p = 16#32 then ⟨0#32, 32#32, 0#32⟩ else
    ⟨17#32, 0#32, 0#32⟩, data := fun _ => () }
  interval := fun p =>
    if p = 16#32 then ⟨0xC0000800, 0xC0001800, "second", .driver⟩
    else ⟨0xBFFFF800, 0xC0000800, "first", .driver⟩

theorem straddling_registry : Registry straddling leftChild := by
  refine ⟨⟨?_, ⟨rfl, rfl⟩, by decide⟩, ⟨1, .black (.red .nil .nil) .nil⟩, ?_, ?_, ?_⟩
  · refine ⟨rfl, by decide, by decide, by decide, by decide, ?_, rfl⟩
    exact ⟨by decide, by decide, by decide, by decide, by decide, rfl, rfl⟩
  · simp [Ordered, leftChild, toList, intervalCmp, straddling]
  · simp [leftChild, toList, straddling]
  · simp [leftChild, toList, straddling]

/-- The region that covers 0xC0000000 stays, the other one of the page is removed. -/
theorem wrong_region_released : Registry straddling leftChild ∧
    0xC0000000 ∈ (straddling.interval 32#32).span.addrs ∧
    (∃ s', kvregionRelease straddling 48#32 0xC0000000 = .ok s' ∧ s'.tree.tree.toList = [32#32]) ∧
    ¬ ∃ s' u', kvregionRelease straddling 48#32 0xC0000000 = .ok s' ∧ Holds s'.tree u' ∧
      (straddling.regions leftChild).Perm (straddling.interval 32#32 :: s'.regions u') := by
  have hrun : ∃ s', kvregionRelease straddling 48#32 0xC0000000 = .ok s' ∧
      s'.tree.tree.toList = [32#32] ∧ s'.interval 32#32 = straddling.interval 32#32 := by
    decide +kernel
  obtain ⟨s', hs', hlist, hinterval⟩ := hrun
  refine ⟨straddling_registry, ?_, ⟨s', hs', hlist⟩, ?_⟩
  · show 0xC0000000 ∈ Set.Ico 0xBFFFF800 0xC0000800
    simp
  · intro hexact
    obtain ⟨t, u', ht, hu', hperm⟩ := hexact
    obtain rfl : s' = t := Except.ok.inj (hs'.symm.trans ht)
    have hregions : s'.regions u' = [straddling.interval 32#32] := by
      rw [VirtRegions.regions, ← hu'.tree_eq, hlist, List.map_singleton, hinterval]
    rw [hregions] at hperm
    exact absurd hperm (by decide)

end X86Kernel.VirtRegion
