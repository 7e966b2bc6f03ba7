import X86Kernel.Lib.Run
import X86Kernel.Memory.Heap.Sound
import X86Kernel.Memory.Manager
import X86Kernel.Memory.VirtRegion.Registry

/- The regions, on the heap that their intervals come from.

   `kvregion_mark` takes an interval from the heap, which may have to grow for it, and puts it
   into the tree of regions. `Backed` says that heap and tree are sound and that every node of
   the tree is an interval that the heap has handed out, so that the next one is no node yet.

   What is proved: `kvregion_mark` returns exactly if the heap is not starved
   (`Backed.mark_returns_iff`), and then the set of regions takes the range if it is apart from
   all of them; so it is with any sequence of calls that mark or ask (`Holds.run`). With `n`
   free intervals in a slab the next `n` marks return (`Backed.room`).

   Correspondence (C ↔ Lean):
     `init_virt_region` ↔ `initVirtRegion` (with the tree of regions)
     the arguments of `kvregion_mark` ↔ `Mark` -/
namespace X86Kernel.Manager
open X86Kernel.Lib X86Kernel.Lib.ColorTree X86Kernel.Rb X86Kernel.Heap X86Kernel.VirtRegion

/-! ## Sets of ranges -/

/-- The arguments of `kvregion_mark`. -/
structure Mark where
  va : Nat
  count : Nat
  vregion : VirtRegionType
  name : String

namespace Mark

/-- `kvregion_mark`, with the arguments of the call. -/
def call (c : Mark) (descs fuel : Nat) (s : HeapVars Mem) : Kernel (HeapVars Mem) :=
  kvregionMark descs fuel s c.va c.count c.vregion c.name

/-- There is a page in the range, and the range does not wrap. -/
def Proper (c : Mark) : Prop := 1 ≤ c.count ∧ c.va + c.count * pageSize < 2 ^ 32

def interval (c : Mark) : VirtInterval := ⟨c.va, c.va + c.count * pageSize, c.name, c.vregion⟩

/-- The range meets no range of the set. -/
def Fits (c : Mark) (ranges : Set VirtInterval) : Prop :=
  ∀ i ∈ ranges, Apart c.va (c.count * pageSize) i.span

/-- A set of ranges takes a range that meets none of them, and no other one. -/
def register (ranges : Set VirtInterval) (c : Mark) : Set VirtInterval :=
  {i | i ∈ ranges ∨ i = c.interval ∧ c.Fits ranges}

theorem register_of_fits {ranges : Set VirtInterval} {c : Mark} (h : c.Fits ranges) :
    c.register ranges = insert c.interval ranges := by
  ext i
  exact ⟨fun hi => (hi.imp_right And.left).symm, fun hi => hi.symm.imp_right fun he => ⟨he, h⟩⟩

theorem register_of_meets {ranges : Set VirtInterval} {c : Mark} (h : ¬ c.Fits ranges) :
    c.register ranges = ranges := by
  ext i
  exact ⟨fun hi => hi.elim id fun he => absurd he.2 h, .inl⟩

end Mark

/-! ## Objects of a slab -/

theorem live_address {ω : Type} {W : World ω} {A : Buddies W} {C : Nat → Prop}
    {G : Nat → Nat → Prop} {s : SlabState ω} {g : Nat → Option Slab} (h : Inv A C G s g)
    {a c : Nat} (hlive : (a, c) ∈ s.live) : C c ∧ a ≠ 0 ∧ a < 2 ^ 32 ∧
      (4 ∣ (s.heap.slabs c).objSize → a % 4 = 0) := by
  obtain ⟨B, sl, hB, rfl, hobj, -⟩ := (h.live a c).1 hlive
  obtain ⟨k, -, hsize, hdvd, hne, hend⟩ := A.block h.ok (h.owned hB)
  obtain ⟨hlo, hhi⟩ := h.obj_inside hB hobj
  refine ⟨h.cache hB, by omega, by omega, fun hfour => ?_⟩
  obtain ⟨i, -, rfl⟩ := hobj
  have hbase : 4 ∣ B := by
    refine Dvd.dvd.trans ?_ hdvd
    rw [hsize]
    exact Nat.pow_dvd_pow 2 (show 2 ≤ buddyExponMin + k from Nat.le_add_right_of_le (by decide))
  exact Nat.mod_eq_zero_of_dvd (Nat.dvd_add hbase (Dvd.dvd.mul_left hfour i))

theorem aligned_ofNat {a : Nat} (h : a % 4 = 0) : Aligned (BitVec.ofNat 32 a) := by
  unfold Aligned
  apply BitVec.eq_of_toNat_eq
  have hmask : ∀ n : Nat, n &&& 3 = n % 4 := fun n => Nat.and_two_pow_sub_one_eq_mod n 2
  rw [BitVec.toNat_and, BitVec.toNat_ofNat, BitVec.toNat_ofNat]
  refine (hmask _).trans ?_
  rw [Nat.mod_mod_of_dvd a (show 4 ∣ 2 ^ 32 by decide), h]
  rfl

/-! ## The tree and its heap -/

/-- The slabs of intervals are sound, the tree is one of intervals that are handed out, and some
slab has `n` more of them. -/
structure Backed (descs n : Nat) (s : HeapVars Mem) (u : ColorTree Ptr) : Prop where
  registry : Registry s.world.regions u
  objSize : (s.slabs s.intervalCache).objSize = 32
  heap : ∃ o live g, Inv (accounts HeapFlags.IsHead (memWorld descs)) (· = s.intervalCache)
      (fun _ n => n ≤ buddyOrderMax) ⟨s.note o, live⟩ g ∧
    (∀ p ∈ u.toList, ∃ a c, (a, c) ∈ live ∧ p = BitVec.ofNat 32 a) ∧ (0 < n → Spare g n)

/-- After an allocation `m` free intervals are left: of `n`, or of a new slab. -/
def Left (s : HeapVars Mem) (n m : Nat) : Prop :=
  m = 0 ∨ m < n ∨
    (s.slabs s.intervalCache).freeSlab = none ∧ m < (s.slabs s.intervalCache).count

theorem left_pred (s : HeapVars Mem) (n : Nat) : Left s n (n - 1) := by
  cases n with
  | zero => exact .inl rfl
  | succ n => exact .inr (.inl (Nat.lt_succ_self n))

/-- The regions that are registered. -/
def ranges (s : HeapVars Mem) (u : ColorTree Ptr) : Set VirtInterval :=
  {i | i ∈ s.world.regions.regions u}

/-- The heap and a sound tree hold these ranges. -/
def Holds (descs : Nat) (s : HeapVars Mem) (rs : Set VirtInterval) : Prop :=
  ∃ u, Backed descs 0 s u ∧ ranges s u = rs

/-- The calls that look at the regions or add to them. -/
inductive RegionCall where
  | mark (c : Mark)
  | isFree (va : Nat)

/-- One call; `probe` is the address of the interval on the stack. -/
def regionStep (descs fuel : Nat) (probe : Ptr) (s : HeapVars Mem) :
    RegionCall → Kernel (HeapVars Mem × Option Bool)
  | .mark c => do
    let s ← c.call descs fuel s
    return (s, none)
  | .isFree va => do
    let free ← kvregionIsFree s.world.regions probe va
    return (s, some free)

open Classical in
/-- What a call does to a set of ranges. -/
noncomputable def rangesStep (rs : Set VirtInterval) : RegionCall → Set VirtInterval × Option Bool
  | .mark c => (c.register rs, none)
  | .isFree va => (rs, some (decide (∀ i ∈ rs, Apart va pageSize i.span)))

/-- `init_virt_region`. -/
def initVirtRegion (descs fuel : Nat) (s : HeapVars Mem) : Kernel (HeapVars Mem) :=
  let regions := { s.world.regions with tree := rbInitTree s.world.regions.tree }
  Heap.initVirtRegion (memWorld descs) fuel { s with world := { s.world with regions } }

/-- A page other than the first and the last one. -/
def Asked (va : Nat) : Prop := va ≠ 0 ∧ va % pageSize = 0 ∧ va + pageSize < 2 ^ 32

/-- The heap has an interval for a mark, and the stack is not in the heap. -/
def Allowed (probe : Ptr) (s : HeapVars Mem) : RegionCall → Prop
  | .mark c => c.Proper ∧ ¬ Starved s
  | .isFree va => Asked va ∧ (probe.toNat < s.minAddr ∨ s.curMaxAddr ≤ probe.toNat)

section Backed

variable {descs n : Nat} {s : HeapVars Mem} {u : ColorTree Ptr}

theorem Backed.mono (h : Backed descs n s u) {m : Nat} (hm : m ≤ n) : Backed descs m s u := by
  obtain ⟨o, live, g, hinv, hnodes, hspare⟩ := h.heap
  refine ⟨h.registry, h.objSize, o, live, g, hinv, hnodes, fun hpos => ?_⟩
  exact (hspare (hpos.trans_le hm)).mono hm

theorem Backed.room (h : Backed descs (n + 1) s u) : ¬ Starved s := by
  obtain ⟨o, live, g, hinv, -, hspare⟩ := h.heap
  obtain ⟨B, sl, hB, hlen⟩ := hspare (Nat.succ_pos n)
  rw [not_starved_iff]
  refine .inl (hinv.freeSlab_ne hB (hinv.cache hB) ?_)
  intro hnil
  rw [hnil] at hlen
  exact absurd hlen (Nat.not_succ_le_zero n)

/-- The interval of a call is new, and the heap keeps what the tree is made of. -/
theorem Backed.interval (h : Backed descs n s u) (hroom : ¬ Starved s) (fuel : Nat) :
    ∃ t a, allocSlab (memWorld descs) (allocBuddy (memWorld descs) (fuel + 1)) s s.intervalCache =
        .ok (t, a) ∧ t.world = s.world ∧ BitVec.ofNat 32 a ≠ 0#32 ∧
      Aligned (BitVec.ofNat 32 a) ∧ BitVec.ofNat 32 a ∉ u.toList ∧
      ∀ {m : Nat} {regions : VirtRegions} {u' : ColorTree Ptr}, Left s n m → Registry regions u' →
        (∀ p ∈ u'.toList, p = BitVec.ofNat 32 a ∨ p ∈ u.toList) →
        Backed descs m { t with world := { t.world with regions } } u' := by
  obtain ⟨o, live, g, hinv, hnodes, hspare⟩ := h.heap
  obtain ⟨t, a, o', g', hrun, hinv', hsizes, hless, hfresh⟩ :=
    hinv.allocServed rfl ((not_starved_iff s).1 hroom) fuel
  have houtline := interval_outline hrun
  have hworld : t.world = s.world := congrArg Outline.world houtline
  have hcache : t.intervalCache = s.intervalCache := congrArg Outline.intervalCache houtline
  have hobj : (t.slabs s.intervalCache).objSize = 32 := (hsizes _).trans h.objSize
  obtain ⟨-, hne, hlt, hfour⟩ := live_address hinv' List.mem_cons_self
  have hfour : a % 4 = 0 := hfour (show 4 ∣ (t.slabs s.intervalCache).objSize by
    rw [hobj]
    decide)
  have hval : (BitVec.ofNat 32 a).toNat = a := Nat.mod_eq_of_lt hlt
  refine ⟨t, a, hrun, hworld, fun hzero => ?_, aligned_ofNat hfour, fun hmem => ?_,
    fun {m regions} _ hm hreg hsub => ⟨hreg, ?_, ?_⟩⟩
  · rw [hzero] at hval
    exact hne hval.symm
  · -- a node is another live object
    obtain ⟨b, c, hlive, hb⟩ := hnodes _ hmem
    obtain ⟨hc, -, hblt, -⟩ := live_address hinv hlive
    have hvalb : (BitVec.ofNat 32 b).toNat = b := Nat.mod_eq_of_lt hblt
    rw [← hb, hval] at hvalb
    subst hvalb
    obtain rfl : c = s.intervalCache := hc
    exact (List.nodup_cons.1 hinv'.nodup).1 hlive
  · show (t.slabs t.intervalCache).objSize = 32
    rw [hcache]
    exact hobj
  · obtain ⟨L, haccount⟩ := hinv'.ok
    refine ⟨o', (a, s.intervalCache) :: live, g', ?_, fun p hp => ?_, fun hpos => ?_⟩
    · have hsame : (· = t.intervalCache) = (· = s.intervalCache) := by rw [hcache]
      show Inv _ (· = t.intervalCache) _ _ g'
      rw [hsame]
      exact hinv'.remap (w := { t.world with regions }) (fun _ _ => rfl) haccount.alone
    · cases hsub p hp with
      | inl he => exact ⟨a, _, List.mem_cons_self, he⟩
      | inr hold =>
        obtain ⟨b, c, hlive, hb⟩ := hnodes p hold
        exact ⟨b, c, List.mem_cons_of_mem _ hlive, hb⟩
    · rcases hm with rfl | hlt | ⟨hnone, hcount⟩
      · exact absurd hpos (Nat.lt_irrefl 0)
      · exact hless m ((hspare (Nat.zero_lt_of_lt hlt)).mono hlt)
      · exact (hfresh hnone).mono (Nat.le_sub_one_of_lt hcount)

/-- One call: where the heap can give an interval, the range is taken if it meets no region. -/
theorem Backed.mark (h : Backed descs n s u) (hroom : ¬ Starved s) {c : Mark} (hc : c.Proper)
    {m : Nat} (hm : Left s n m) (fuel : Nat) :
    ∃ t u', c.call descs (fuel + 1) s = .ok t ∧
      Backed descs m t u' ∧ ranges t u' = c.register (ranges s u) := by
  obtain ⟨t, a, hrun, hworld, hne, haligned, hnew, hback⟩ := h.interval hroom fuel
  obtain ⟨regions, u', hmark, hreg, hnodes, htaken, hkept⟩ := kvregionMark_registry h.registry hne
    haligned hnew hc.1 hc.2 c.vregion c.name
  refine ⟨_, u', ?_, hback hm hreg hnodes, ?_⟩
  · rw [Mark.call, kvregionMark, hrun, ok_bind]
    dsimp only
    rw [hworld, hmark]
    rfl
  · by_cases hfits : c.Fits (ranges s u)
    · rw [Mark.register_of_fits hfits]
      ext i
      exact (htaken hfits).mem_iff.trans List.mem_cons
    · rw [Mark.register_of_meets hfits]
      ext i
      show i ∈ regions.regions u' ↔ _
      rw [hkept hfits]
      rfl

theorem Backed.outside (h : Backed descs n s u) {probe : Ptr}
    (hout : probe.toNat < s.minAddr ∨ s.curMaxAddr ≤ probe.toNat) : probe ∉ u.toList := by
  intro hmem
  obtain ⟨o, live, g, hinv, hnodes, -⟩ := h.heap
  obtain ⟨a, c, hlive, ha⟩ := hnodes _ hmem
  obtain ⟨-, -, hlt, -⟩ := live_address hinv hlive
  obtain ⟨B, sl, hB, rfl, hobj, -⟩ := (hinv.live a c).1 hlive
  obtain ⟨L, haccount⟩ := hinv.ok
  obtain ⟨k, -, hsize⟩ := haccount.out (hinv.owned hB)
  have hheld : Held o B k := (hinv.owned hB).trans (congrArg some hsize)
  obtain ⟨hlo, hhi⟩ := haccount.blocks.inside (.inr hheld)
  obtain ⟨hge, hend⟩ := hinv.obj_inside hB hobj
  rw [hsize] at hend
  have hval : probe.toNat = a := by
    rw [ha]
    exact Nat.mod_eq_of_lt hlt
  have hmin : s.minAddr ≤ B := hlo
  have hmax : B + 2 ^ (buddyExponMin + k) ≤ s.curMaxAddr := hhi
  omega

theorem Backed.isFree (h : Backed descs n s u) {probe : Ptr} {va : Nat} (hva : Asked va)
    (hout : probe.toNat < s.minAddr ∨ s.curMaxAddr ≤ probe.toNat) :
    ∃ b, kvregionIsFree s.world.regions probe va = .ok b ∧
      (b = true ↔ ∀ i ∈ ranges s u, Apart va pageSize i.span) :=
  kvregionIsFree_registry h.registry (h.outside hout) hva.1 hva.2.1 hva.2.2

theorem Backed.step (h : Backed descs n s u) {probe : Ptr} {c : RegionCall} (hc : Allowed probe s c)
    (fuel : Nat) :
    ∃ t u', regionStep descs (fuel + 1) probe s c = .ok (t, (rangesStep (ranges s u) c).2) ∧
      Backed descs (n - 1) t u' ∧ ranges t u' = (rangesStep (ranges s u) c).1 := by
  cases c with
  | mark c =>
    obtain ⟨t, u', hrun, ht, hranges⟩ := h.mark hc.2 hc.1 (left_pred s n) fuel
    refine ⟨t, u', ?_, ht, hranges⟩
    rw [regionStep, hrun]
    rfl
  | isFree va =>
    obtain ⟨b, hrun, hb⟩ := h.isFree hc.1 hc.2
    refine ⟨s, u, ?_, h.mono (Nat.sub_le n 1), rfl⟩
    have hanswer : (rangesStep (ranges s u) (.isFree va)).2 = some b := by
      rw [rangesStep]
      exact congrArg some (by rw [← hb]; simp)
    rw [regionStep, hrun, hanswer]
    rfl

end Backed

/-! ## Runs -/

/-- A mark returns exactly if the heap has an interval. -/
theorem Backed.mark_returns_iff {descs n : Nat} {s : HeapVars Mem} {u : ColorTree Ptr}
    (h : Backed descs n s u) {c : Mark} (hc : c.Proper) (fuel : Nat) :
    (∃ t, c.call descs (fuel + 1) s = .ok t) ↔ ¬ Starved s := by
  constructor
  · rintro ⟨t, hrun⟩ hstarved
    obtain ⟨⟨v, a⟩, hinterval, -⟩ := exists_of_bind_eq_ok hrun
    unfold allocSlab at hinterval
    rw [hstarved.1] at hinterval
    obtain ⟨r, hblock, -⟩ := exists_of_bind_eq_ok hinterval
    exact (starved_allocBuddy (fuel + 1) s _ hstarved hstarved.2).of_ok hblock
  · intro hroom
    obtain ⟨t, -, hrun, -⟩ := h.mark hroom hc (.inl rfl) fuel
    exact ⟨t, hrun⟩

theorem Holds.step {descs : Nat} {s : HeapVars Mem} {rs : Set VirtInterval} (h : Holds descs s rs)
    {probe : Ptr} {c : RegionCall} (hc : Allowed probe s c) (fuel : Nat) :
    ∃ t, regionStep descs (fuel + 1) probe s c = .ok (t, (rangesStep rs c).2) ∧
      Holds descs t (rangesStep rs c).1 := by
  obtain ⟨u, hs, rfl⟩ := h
  obtain ⟨t, u', hrun, ht, hranges⟩ := hs.step hc fuel
  exact ⟨t, hrun, u', ht, hranges⟩

/-- Along any sequence of allowed calls the tree and its heap are a set of ranges. -/
theorem Holds.run {descs : Nat} {s : HeapVars Mem} {rs : Set VirtInterval} (h : Holds descs s rs)
    {fuel : Nat} {probe : Ptr} {calls : List RegionCall}
    (hcalls : Meets (regionStep descs (fuel + 1) probe) (Allowed probe) s calls) :
    ∃ t, Lib.run (regionStep descs (fuel + 1) probe) s calls =
        .ok (t, (fold rangesStep rs calls).2) ∧ Holds descs t (fold rangesStep rs calls).1 := by
  have hstep : ∀ s rs c, Holds descs s rs → Allowed probe s c →
      ∃ t, regionStep descs (fuel + 1) probe s c = .ok (t, (rangesStep rs c).2) ∧
        Holds descs t (rangesStep rs c).1 := fun _ _ _ hs hc => hs.step hc fuel
  exact run_simulates hstep calls s rs h hcalls

/-- With `n` free intervals any `n` ranges may be marked. -/
theorem Backed.meets {descs fuel : Nat} {probe : Ptr} : ∀ {marks : List Mark} {n : Nat}
    {s : HeapVars Mem} {u : ColorTree Ptr}, Backed descs n s u → marks.length ≤ n →
    (∀ c ∈ marks, c.Proper) →
    Meets (regionStep descs (fuel + 1) probe) (Allowed probe) s (marks.map .mark) := by
  intro marks
  induction marks with
  | nil => exact fun _ _ _ => trivial
  | cons c marks ih =>
    intro n s u h hlen hproper
    obtain ⟨m, rfl⟩ : ∃ m, n = m + 1 := ⟨n - 1, by simp at hlen; omega⟩
    have hc := hproper c List.mem_cons_self
    obtain ⟨t, u', hrun, ht, -⟩ := h.mark h.room hc (left_pred s (m + 1)) fuel
    have hstep : regionStep descs (fuel + 1) probe s (.mark c) = .ok (t, none) := by
      rw [regionStep, hrun]
      rfl
    rw [List.map_cons, meets_cons_ok hstep]
    exact ⟨⟨hc, h.room⟩, ih ht (Nat.le_of_succ_le_succ hlen) fun c' hc' =>
      hproper c' (List.mem_cons_of_mem _ hc')⟩

/-! ## The first regions -/

section First

variable {descs : Nat} {s t : HeapVars Mem} {heapAddr maxSize initSize : Nat}

/-- After `init_heap` and `init_virt_region` there is no region, and there is a block for the
first slab of intervals. -/
theorem backed_initVirtRegion
    (hinit : initHeap (memWorld descs) s heapAddr maxSize initSize = .ok t) (hlow : heapAddr ≠ 0)
    (hpages : 3 * pageSize ≤ initSize) (hle : initSize ≤ maxSize)
    (hend : heapAddr + maxSize < 2 ^ 32) (hflags : ∀ i, (s.desc i).flags ≠ ⟨true, true, true⟩)
    (halone : AloneIn (memWorld descs) t.world heapAddr (heapAddr + initSize)) (fuel : Nat) :
    ∃ u, initVirtRegion descs (fuel + 1) t = .ok u ∧ Backed descs 0 u .nil ∧
      ranges u .nil = ∅ ∧ ¬ Starved u ∧ Left u 0 127 := by
  obtain ⟨u, o, hrun, hinv, horder, hworld, -, -, -, -, -, hleft⟩ :=
    inv_initVirtRegion hinit hlow hle hend hflags halone
      (w := { t.world with
        regions := { t.world.regions with tree := rbInitTree t.world.regions.tree } })
      (fun _ => rfl) fuel
  have hregistry : Registry u.world.regions .nil := by
    rw [hworld]
    exact ⟨⟨rfl, ⟨rfl, rfl⟩, List.nodup_nil⟩, ⟨0, .nil⟩, List.Pairwise.nil, nofun, nofun⟩
  refine ⟨u, hrun, ⟨hregistry, ?_, o, [], fun _ => none, hinv, nofun, nofun⟩, ?_, ?_,
    .inr (.inr ?_)⟩
  · rw [horder]
    rfl
  · exact Set.eq_empty_of_forall_notMem fun i hi => absurd hi List.not_mem_nil
  · rw [not_starved_iff, horder]
    exact .inr (hleft hpages)
  · rw [horder]
    decide

end First

end X86Kernel.Manager
