import Mathlib.Data.Set.Lattice
import Mathlib.Order.CompletePartialOrder
import X86Kernel.Memory.VirtRegion

/- `kvregion_reserve` with regions anywhere in the address space.

   `kvregion_mark` registers what its caller gives it: `vmap_identity` an address from the
   firmware's tables, aligned or not, below `HIGH_VADDR` or not. A region that ends with the
   address space has the end 0, as `from + count * PAGE_SIZE` wraps, and `interval_cmp` then
   puts it before any other.

   What is proved: exactly when a reservation fails no assertion and returns no address below
   `HIGH_VADDR` (`reserve_high_iff`). `find_gap_start` takes the first interval for one at or
   above `min_addr`, so a single low region makes every later reservation fail its assertion
   (`low_region_asserts`). A region with the end 0 hides the low ones from the assertion, and
   then the walk may return the end of one of them.

   Correspondence (C ↔ Lean): see `VirtRegion.lean`. -/
namespace X86Kernel.VirtRegion
open X86Kernel.Lib X86Kernel.Lib.ColorTree X86Kernel.Rb

/-- The addresses of a region: an end of 0 is that of the address space. -/
def VirtInterval.extent (i : VirtInterval) : Span :=
  ⟨i.fromAddr, if i.toAddr = 0 then maxVaddr + 1 else i.toAddr⟩

/-- A red-black tree, in the order of `interval_cmp`, of non-empty disjoint regions placed
anywhere in the address space. -/
structure Placed (s : VirtRegions) (u : ColorTree Ptr) : Prop where
  holds : Holds s.tree u
  redBlack : RedBlack u
  ordered : Ordered (intervalCmp s.interval) u
  nonempty : ∀ p ∈ u.toList, (s.interval p).extent.lo < (s.interval p).extent.hi
  word : ∀ p ∈ u.toList, (s.interval p).toAddr < 2 ^ 32
  disjoint : u.toList.Pairwise fun p q =>
    Disjoint (s.interval p).extent.addrs (s.interval q).extent.addrs

/-- Is there enough room between two neighbours, the first of which ends below
`HIGH_VADDR`? -/
def lowFits (size : Nat) : List Span → Bool
  | s :: n :: ss => decide (s.hi < highVaddr ∧ s.hi + size ≤ n.lo) || lowFits size (n :: ss)
  | _ => false

/-- The walk over the regions ends below `HIGH_VADDR`: at the first room between two of them,
or, where there is none, at the last but one. -/
def EndsLow (size : Nat) (ss : List Span) : Prop :=
  lowFits size ss = true ∨ innerFits size ss = false ∧
    ∃ s, lastButOne ss = some s ∧ s.hi < highVaddr ∧ s.hi + size ≤ maxVaddr + 1

/-- When a reservation of `size` bytes is right: the first region in the order of the tree is
not below `HIGH_VADDR`; and if its end is that of the address space, there is room for the
bytes before it, or before the region after it, or the walk over the others does not end
low. -/
def ReserveSafe (size : Nat) : List VirtInterval → Prop
  | [] => True
  | i :: is => highVaddr ≤ i.fromAddr ∧ (i.toAddr = 0 →
      highVaddr + size ≤ i.fromAddr ∨ size ≤ nextStart (maxVaddr + 1) (is.map VirtInterval.span) ∨
        ¬ EndsLow size (is.map VirtInterval.span))

/-! ## Where the walk ends -/

theorem walkGap_mem {size max : Nat} : ∀ (is : List VirtInterval) (cur next : VirtInterval),
    walkGap size max is cur next = 0 ∨
      ∃ i ∈ cur :: next :: is, walkGap size max is cur next = i.toAddr := by
  intro is
  induction is with
  | nil =>
    intro cur next
    unfold walkGap tailWord
    split
    · exact .inr ⟨cur, by simp, rfl⟩
    · split
      · exact .inr ⟨cur, by simp, rfl⟩
      · exact .inl rfl
  | cons m is ih =>
    intro cur next
    unfold walkGap
    split
    · exact .inr ⟨cur, by simp, rfl⟩
    · obtain hz | ⟨i, hi, heq⟩ := ih next m
      · exact .inl hz
      · exact .inr ⟨i, List.mem_cons_of_mem _ hi, heq⟩

theorem restGap_mem (size max : Nat) (cur : VirtInterval) (is : List VirtInterval) :
    restGap size max cur is = 0 ∨ ∃ i ∈ cur :: is, restGap size max cur is = i.toAddr := by
  cases is with
  | nil =>
    simp only [restGap, tailWord]
    split
    · exact .inr ⟨cur, by simp, rfl⟩
    · exact .inl rfl
  | cons next is => exact walkGap_mem is cur next

theorem lowFits_start {size : Nat} : ∀ {ss : List Span} {lo hi : Nat}, Chain lo hi ss →
    lowFits size ss = true → lo < highVaddr := by
  intro ss
  induction ss with
  | nil => intro lo hi _ h; cases h
  | cons s ss ih =>
    intro lo hi hchain h
    obtain ⟨hle, hne, hrest⟩ := hchain
    cases ss with
    | nil => cases h
    | cons n ss =>
      simp only [lowFits, Bool.or_eq_true, decide_eq_true_eq] at h
      rcases h with h | h
      · omega
      · have := ih hrest h
        omega

theorem pairGap_low_iff (size : Nat) : ∀ (ss : List Span) {s n : Span}, 0 < s.hi →
    Chain s.hi (maxVaddr + 1) (n :: ss) →
    ((pairGap size (maxVaddr + 1) ss s n ≠ 0 ∧ pairGap size (maxVaddr + 1) ss s n < highVaddr) ↔
      EndsLow size (s :: n :: ss)) := by
  intro ss
  induction ss with
  | nil =>
    intro s n hpos hchain
    by_cases hfit : s.hi + size ≤ n.lo
    · simp [pairGap, EndsLow, lowFits, innerFits, hfit]
      omega
    · by_cases hroom : s.hi + size ≤ maxVaddr + 1
      · simp [pairGap, EndsLow, lowFits, innerFits, lastButOne, tailGap, hfit, hroom]
        omega
      · simp [pairGap, EndsLow, lowFits, innerFits, lastButOne, tailGap, hfit, hroom]
  | cons m ss ih =>
    intro s n hpos hchain
    obtain ⟨hle, hne, hrest⟩ := hchain
    by_cases hfit : s.hi + size ≤ n.lo
    · have hchain : Chain s.hi (maxVaddr + 1) (n :: m :: ss) := ⟨hle, hne, hrest⟩
      rw [pairGap, if_pos hfit]
      constructor
      · intro h
        exact .inl (by simp [lowFits, h.2, hfit])
      · intro h
        refine ⟨by omega, ?_⟩
        -- the room found first is the lowest one
        rcases h with h | h
        · rw [lowFits, Bool.or_eq_true, decide_eq_true_eq] at h
          exact h.elim And.left fun h => lowFits_start hchain h
        · simp [innerFits, hfit] at h
    · have hih := ih (by omega) hrest
      simp only [EndsLow, lowFits, innerFits, lastButOne, hfit, and_false, decide_false,
        Bool.false_or, pairGap, if_false] at hih ⊢
      exact hih

/-- The search after a region with the end 0: the room before the next one is taken for NULL,
and then the walk is over the others. -/
theorem restGap_high_iff {size : Nat} {first : VirtInterval} (hfirst : first.toAddr = 0)
    {is : List VirtInterval} (hchain : Chain 0 (maxVaddr + 1) (is.map VirtInterval.span))
    (hword : ∀ i ∈ is, i.toAddr < 2 ^ 32) :
    (restGap size maxVaddr first is ≠ 0 → highVaddr ≤ restGap size maxVaddr first is) ↔
      size ≤ nextStart (maxVaddr + 1) (is.map VirtInterval.span) ∨
        ¬ EndsLow size (is.map VirtInterval.span) := by
  have htail : tailWord size maxVaddr first = 0 := by simp [tailWord, hfirst]
  rcases is with _ | ⟨n, _ | ⟨m, is⟩⟩
  · simp [restGap, htail, EndsLow, lowFits, lastButOne]
  · simp [restGap, walkGap, htail, hfirst, EndsLow, lowFits, lastButOne]
  · obtain ⟨-, hne, hrest⟩ := hchain
    have hne : n.fromAddr < n.toAddr := hne
    have hlt := hword n (by simp)
    have hsub : sub32 n.fromAddr 0 = n.fromAddr := by
      rw [sub32_of_le (by omega) (Nat.zero_le _), Nat.sub_zero]
    have hwalk : walkGap size maxVaddr is n m = pairGap size (maxVaddr + 1)
        (is.map VirtInterval.span) n.span m.span :=
      walkGap_eq (by decide) is n m (by omega) hrest
        fun i hi => hword i (List.mem_cons_of_mem _ hi)
    have hlow := pairGap_low_iff size (is.map VirtInterval.span)
      (show 0 < n.span.hi from Nat.lt_of_le_of_lt (Nat.zero_le _) hne) hrest
    have hlo : n.span.lo = n.fromAddr := rfl
    simp only [restGap, walkGap, hfirst, hsub, hwalk, List.map_cons, nextStart, hlo]
    by_cases hroom : size ≤ n.fromAddr
    · simp [hroom]
    · rw [if_neg hroom, ← hlow]
      simp only [hroom, false_or, not_and, not_lt]

/-! ## Regions anywhere -/

section Search
variable {s : VirtRegions} {u : ColorTree Ptr}

/-- A region that reaches the end of the address space is disjoint only from regions that
do not. -/
theorem Placed.not_last (h : Placed s u) {p : Ptr} {ys : List Ptr} (hnodes : u.toList = p :: ys)
    (hp : (s.interval p).toAddr = 0) : ∀ q ∈ ys, (s.interval q).toAddr ≠ 0 := by
  intro q hq hzero
  have hdisj := h.disjoint
  rw [hnodes, List.pairwise_cons] at hdisj
  have hmem : ∀ r ∈ u.toList, (s.interval r).toAddr = 0 →
      maxVaddr ∈ (s.interval r).extent.addrs := by
    intro r hr hz
    have hne := h.nonempty r hr
    simp only [VirtInterval.extent, hz, if_true] at hne
    simp only [Span.addrs, VirtInterval.extent, hz, if_true, Set.mem_Ico]
    omega
  exact Set.disjoint_left.1 (hdisj.1 q hq) (hmem p (by simp [hnodes]) hp)
    (hmem q (by simp [hnodes, hq]) hzero)

theorem Placed.lt_of_ne_zero (h : Placed s u) {p : Ptr} (hp : p ∈ u.toList)
    (hne : (s.interval p).toAddr ≠ 0) : (s.interval p).fromAddr < (s.interval p).toAddr := by
  have := h.nonempty p hp
  simpa [VirtInterval.extent, hne] using this

theorem Placed.chain (h : Placed s u) {p : Ptr} {ys : List Ptr} (hnodes : u.toList = p :: ys)
    (hp : (s.interval p).toAddr = 0) :
    Chain 0 (maxVaddr + 1) ((ys.map s.interval).map VirtInterval.span) := by
  have hord := h.ordered
  rw [Ordered, hnodes, List.pairwise_cons] at hord
  rw [← VirtRegions.spans_eq]
  refine chain_spans hord.2 ?_ (Nat.zero_le _) fun _ _ => Nat.zero_le _
  intro q hq
  have hmem : q ∈ u.toList := by simp [hnodes, hq]
  refine ⟨h.lt_of_ne_zero hmem (h.not_last hnodes hp q hq), ?_⟩
  exact Nat.le_of_lt (h.word q hmem)

theorem Placed.high (h : Placed s u) {p : Ptr} {ys : List Ptr} (hnodes : u.toList = p :: ys)
    (hp : (s.interval p).toAddr ≠ 0) (habove : highVaddr ≤ (s.interval p).fromAddr) :
    ∀ q ∈ u.toList, (s.interval q).toAddr ≠ 0 → highVaddr ≤ (s.interval q).toAddr := by
  intro q hq hne
  have hlt := h.lt_of_ne_zero hq hne
  have hfirst := h.lt_of_ne_zero (show p ∈ u.toList by simp [hnodes]) hp
  rw [hnodes] at hq
  rcases List.mem_cons.1 hq with rfl | hq
  · omega
  · have hord := h.ordered
    rw [Ordered, hnodes, List.pairwise_cons] at hord
    have := intervalCmp_neg (hord.1 q hq)
    omega

theorem findGapStart_asserts (h : Holds s.tree u) (size min max : Nat) {p : Ptr} {ys : List Ptr}
    (hnodes : u.toList = p :: ys) (hbelow : ¬ min ≤ (s.interval p).fromAddr) :
    findGapStart s size min max = .error .assertion := by
  have hmin : rbMin s.tree = .ok (u.toList.headD 0#32) := rbMin_ok h
  have hp0 : p ≠ 0#32 := h.focus.ne_zero (by simp [hnodes])
  rw [hnodes] at hmin
  simp only [findGapStart, hmin, ok_bind, List.headD_cons, if_neg hp0, assert, hbelow,
    decide_false]
  rfl

theorem findGapStart_high_iff (h : Placed s u) (size : Nat) :
    (∃ a, findGapStart s size highVaddr maxVaddr = .ok a ∧ (a ≠ 0 → highVaddr ≤ a)) ↔
      ReserveSafe size (u.toList.map s.interval) := by
  have hmin : rbMin s.tree = .ok (u.toList.headD 0#32) := rbMin_ok h.holds
  match hnodes : u.toList with
  | [] =>
    rw [hnodes] at hmin
    simp only [findGapStart, hmin, ok_bind, List.headD_nil, if_true, pure_eq_ok, List.map_nil,
      ReserveSafe, iff_true]
    refine ⟨_, rfl, ?_⟩
    split <;> simp
  | p :: ys =>
    rw [List.map_cons, ReserveSafe]
    by_cases habove : highVaddr ≤ (s.interval p).fromAddr
    · have hok := findGapStart_walk h.holds size highVaddr maxVaddr hnodes habove
      have hiff : ∀ {x : Nat}, findGapStart s size highVaddr maxVaddr = .ok x →
          ((∃ a, findGapStart s size highVaddr maxVaddr = .ok a ∧ (a ≠ 0 → highVaddr ≤ a)) ↔
            (x ≠ 0 → highVaddr ≤ x)) := by
        intro x hx
        simp [hx]
      rw [hiff hok]
      have hmem : p ∈ u.toList := by simp [hnodes]
      have hfrom : (s.interval p).fromAddr < 2 ^ 32 := by
        have hne := h.nonempty p hmem
        have hw := h.word p hmem
        simp only [VirtInterval.extent, maxVaddr] at hne
        split at hne <;> omega
      have hstart : size ≤ sub32 (s.interval p).fromAddr highVaddr ↔
          highVaddr + size ≤ (s.interval p).fromAddr := by
        rw [sub32_of_le hfrom habove]
        omega
      by_cases hroom : highVaddr + size ≤ (s.interval p).fromAddr
      · rw [if_pos (hstart.2 hroom)]
        simp [habove, hroom]
      · rw [if_neg (mt hstart.1 hroom)]
        by_cases hzero : (s.interval p).toAddr = 0
        · rw [restGap_high_iff hzero (h.chain hnodes hzero) ?_]
          · simp [habove, hroom, hzero]
          · intro i hi
            obtain ⟨q, hq, rfl⟩ := List.mem_map.1 hi
            exact h.word q (by simp [hnodes, hq])
        · simp only [habove, hzero, true_and, false_imp_iff, iff_true]
          intro hne
          obtain hz | ⟨i, hi, heq⟩ := restGap_mem size maxVaddr (s.interval p)
            (ys.map s.interval)
          · exact absurd hz hne
          · obtain ⟨q, hq, rfl⟩ := List.mem_map.1 (show i ∈ (p :: ys).map s.interval from hi)
            rw [heq] at hne ⊢
            exact h.high hnodes hzero habove q (by rw [hnodes]; exact hq) hne
    · simp [findGapStart_asserts h.holds size highVaddr maxVaddr hnodes habove, habove]

/-- A reservation returns what the search does: the registration after it never fails. -/
theorem kvregionReserve_iff (h : Holds s.tree u) (hrb : RedBlack u) {newInterval : Ptr}
    (hne : newInterval ≠ 0#32) (hal : Aligned newInterval) (hnew : newInterval ∉ u.toList)
    {count : Nat} (hlt : count * pageSize < 2 ^ 32) (vregion : VirtRegionType)
    (name : Option String) (post : Nat → Prop) :
    (∃ s' a, kvregionReserve s newInterval count vregion name = .ok (s', a) ∧ post a) ↔
      ∃ a, findGapStart s (count * pageSize) highVaddr maxVaddr = .ok a ∧ post a := by
  simp only [kvregionReserve, u32_of_lt hlt]
  constructor
  · intro hout
    obtain ⟨s', a, hok, hpost⟩ := hout
    obtain ⟨b, hgap, hrest⟩ := exists_of_bind_eq_ok hok
    refine ⟨b, hgap, ?_⟩
    by_cases hb : b = 0
    · rw [if_pos hb] at hrest
      have heq : 0 = a := congrArg Prod.snd (Except.ok.inj hrest)
      rw [hb, heq]
      exact hpost
    · rw [if_neg hb] at hrest
      obtain ⟨s₁, -, hrest⟩ := exists_of_bind_eq_ok hrest
      have heq : b = a := congrArg Prod.snd (Except.ok.inj hrest)
      exact heq ▸ hpost
  · intro hout
    obtain ⟨a, hgap, hpost⟩ := hout
    rw [hgap]
    by_cases ha : a = 0
    · exact ⟨s, 0, by simp [ha], ha ▸ hpost⟩
    · obtain ⟨s', hs'⟩ := kvregionMark_ok h hrb hne hal hnew a count vregion
        (name.getD reservePagesName)
      exact ⟨s', a, by simp [ha, hs'], hpost⟩

end Search

/-- Exactly when a reservation fails no assertion and returns no address
below `HIGH_VADDR`, whatever disjoint regions are registered. -/
theorem reserve_high_iff {s : VirtRegions} {u : ColorTree Ptr} (h : Placed s u) {newInterval : Ptr}
    (hne : newInterval ≠ 0#32) (hal : Aligned newInterval) (hnew : newInterval ∉ u.toList)
    {count : Nat} (hlt : count * pageSize < 2 ^ 32) (vregion : VirtRegionType)
    (name : Option String) :
    (∃ s' a, kvregionReserve s newInterval count vregion name = .ok (s', a) ∧
        (a ≠ 0 → highVaddr ≤ a)) ↔
      ReserveSafe (count * pageSize) (u.toList.map s.interval) := by
  rw [kvregionReserve_iff h.holds h.redBlack hne hal hnew hlt vregion name
    fun a => a ≠ 0 → highVaddr ≤ a]
  exact findGapStart_high_iff h _

/-! ## Two regions -/

/-- The table with the regions `i` and `j`. -/
def pairRegions (i j : VirtInterval) : VirtRegions where
  tree := twoNodeTree
  interval := fun p => if p = 16#32 then i else j

theorem pairRegions_placed {i j : VirtInterval} (hi : i.fromAddr < i.toAddr)
    (hij : i.toAddr ≤ j.fromAddr) (hj : j.fromAddr < j.toAddr) (hlt : j.toAddr < 2 ^ 32) :
    Placed (pairRegions i j) twoNodes := by
  have hnodes : twoNodes.toList = [16#32, 32#32] := by decide
  have hfirst : (pairRegions i j).interval 16#32 = i := by simp [pairRegions]
  have hsecond : (pairRegions i j).interval 32#32 = j := by simp [pairRegions]
  have hi0 : i.toAddr ≠ 0 := by omega
  have hj0 : j.toAddr ≠ 0 := by omega
  refine ⟨twoNodeTree_holds, ⟨1, .black .nil (.red .nil .nil)⟩, ?_, ?_, ?_, ?_⟩
  · simp [Ordered, hnodes, intervalCmp, hfirst, hsecond, hij]
  · simp [hnodes, hfirst, hsecond, VirtInterval.extent, hi0, hj0, hi, hj]
  · simp only [hnodes, List.forall_mem_cons, hfirst, hsecond]
    exact ⟨by omega, hlt, by simp⟩
  · simp only [hnodes, List.pairwise_cons, List.mem_singleton, forall_eq, hfirst, hsecond]
    refine ⟨?_, by simp⟩
    simp only [VirtInterval.extent, if_neg hi0, if_neg hj0, Span.addrs]
    exact Set.disjoint_left.2 fun x hx hx' => by
      simp only [Set.mem_Ico] at hx hx'
      omega

def kernelImage : VirtInterval := ⟨0xC0000000, 0xC0400000, "KERNEL_IMG", .kernelImg⟩

/-- Two regions of the kernel: the page between them is reserved. -/
theorem reserve_high_between :
    ∃ s' a, kvregionReserve (pairRegions kernelImage ⟨0xC0401000, 0xC0402000, "HEAP", .heap⟩)
      48#32 1 .driver none = .ok (s', a) ∧ (a ≠ 0 → highVaddr ≤ a) := by
  refine (reserve_high_iff (pairRegions_placed (by decide) (by decide) (by decide) (by decide))
    (by decide) (by decide) (by decide) (by decide) .driver none).2 ?_
  exact ⟨by decide, fun h => absurd h (by decide)⟩

/-- The page of a timer at `0x80000808`, as `init_acpi` maps it, and the kernel: no page can be
reserved any more. -/
theorem low_region_asserts :
    Placed (pairRegions ⟨0x80000808, 0x80001808, "MMIO", .mmio⟩ kernelImage) twoNodes ∧
    kvregionReserve (pairRegions ⟨0x80000808, 0x80001808, "MMIO", .mmio⟩ kernelImage)
      48#32 1 .driver none = .error .assertion :=
  ⟨pairRegions_placed (by decide) (by decide) (by decide) (by decide), by decide +kernel⟩

end X86Kernel.VirtRegion
