import X86Kernel.Lib.Run
import X86Kernel.Memory.Heap.FreeSlab

/- Whole runs of `alloc_slab` and `free_slab`, on the orders that `init_heap_vars` and
   `kcreate_slab_cache` make. A run keeps the objects that are live; between the
   calls the owner of an object may write to it.

   What is proved, for every block allocator that meets its contract (`Buddies`) and
   every run in which only live objects are freed:
   1. no object is shared or lost, `used_count` is right, and a block goes back just
      when its last object is freed, where the objects of the orders in use are at
      most 128 KiB large (`slab_objects_kept`). A larger object is alone in its slab;
      the slab stays in the list with no object left, and the next call returns NULL
      (`largeObjects_lost`).
   2. the list of a `kmalloc` order is doubly linked and holds the slabs that are
      neither full nor empty, just where a slab is a single page
      (`slab_lists_sound_iff`): `prev_slab` is not written when a slab is made and
      shares its word with the order of the block.

   Not modelled: that the memory for a new cache comes from the heap itself; the
   caches are there from the beginning of a run.

   Correspondence (C ↔ Lean):
     `heap.free_slabs[c]`, `kcreate_slab_cache` ↔ `kmallocOrder`, `customOrder`
     `alloc_slab`, `kalloc_cache` ↔ `SlabCall.alloc`
     `free_slab`                  ↔ `SlabCall.free` -/
namespace X86Kernel.Heap
open X86Kernel.Lib

variable {ω : Type}

/-! ## The slab orders of the kernel -/

/-- `heap.free_slabs[c]` as `init_heap_vars` leaves it. -/
def kmallocOrder (c : Nat) : SlabOrder where
  slabOrder := c
  objSize := 2 ^ (slabExponMin + c)
  slabSize := u32 (pagesForObjSize (2 ^ (slabExponMin + c)) * pageSize)
  freeSlab := none

/-- The order of the cache that `kcreate_slab_cache` makes. -/
def customOrder (objSize : Nat) : SlabOrder where
  slabOrder := slabCustomOrder
  objSize := u32 (objSize + 3) / 4 * 4
  slabSize := u32 (pagesForObjSize (u32 (objSize + 3) / 4 * 4) * pageSize)
  freeSlab := none

/-- An order of `kmalloc`, or of a cache with objects of at most 256 KiB, at its
beginning. -/
def Made (o : SlabOrder) : Prop :=
  (∃ c < slabOrderCount, o = kmallocOrder c) ∨
    ∃ objSize, 8 ≤ objSize ∧ objSize ≤ 2 ^ 18 ∧ o = customOrder objSize

theorem exists_pagesForObjSize {z : Nat} (hpos : 0 < z) (hz : z ≤ 2 ^ 18) :
    ∃ k ≤ 6, pagesForObjSize z = 2 ^ k ∧ (32 * z ≤ 2 ^ (buddyExponMin + k) ∨ k = 6) ∧
      (k = 0 ∨ 2 ^ (buddyExponMin + k) < 64 * z) := by
  obtain ⟨j, hj, halign, hle, hlt⟩ :=
    exists_alignUpPow2 (show 0 < z * 32 by omega) (show z * 32 ≤ 2 ^ 23 by omega) (by decide)
  have hmin : u32 (z * 32) = z * 32 := u32_of_lt (by omega)
  have hmax : max (2 ^ j) pageSize = 2 ^ max j 12 := by
    rcases Nat.le_total j 12 with hjle | hjle
    · rw [Nat.max_eq_right hjle]
      exact Nat.max_eq_right (Nat.pow_le_pow_right (by decide) hjle)
    · rw [Nat.max_eq_left hjle]
      exact Nat.max_eq_left (Nat.pow_le_pow_right (n := 2) (i := 12) (by decide) hjle)
  have hlog : log2U32 (2 ^ max j 12) = max j 12 := Nat.log2_two_pow
  have hdiv : 2 ^ max j 12 / pageSize = 2 ^ (max j 12 - 12) :=
    Nat.pow_div (Nat.le_max_right j 12) (by decide)
  have hpages : pagesForObjSize z = min (2 ^ (max j 12 - 12)) (2 ^ 6) := by
    rw [pagesForObjSize, hmin, halign, hmax, hlog, hdiv]
    rfl
  rcases Nat.le_total (max j 12 - 12) 6 with hk | hk
  · refine ⟨max j 12 - 12, hk, ?_, .inl ?_, ?_⟩
    · rw [hpages]
      exact Nat.min_eq_left (Nat.pow_le_pow_right (by decide) hk)
    · have hpow : 2 ^ j ≤ 2 ^ (buddyExponMin + (max j 12 - 12)) :=
        Nat.pow_le_pow_right (by decide) (by unfold buddyExponMin; omega)
      omega
    · rcases Nat.le_total j 12 with hjle | hjle
      · exact .inl (by omega)
      · right
        rw [show buddyExponMin + (max j 12 - 12) = j by unfold buddyExponMin; omega]
        omega
  · refine ⟨6, Nat.le_refl 6, ?_, .inr rfl, .inr ?_⟩
    · rw [hpages]
      exact Nat.min_eq_right (Nat.pow_le_pow_right (by decide) hk)
    · have hpow : 2 ^ (buddyExponMin + 6) ≤ 2 ^ j :=
        Nat.pow_le_pow_right (by decide) (by unfold buddyExponMin; omega)
      omega

theorem slabSize_eq {o : SlabOrder}
    (hsize : o.slabSize = u32 (pagesForObjSize o.objSize * pageSize))
    (hpos : 0 < o.objSize) (hz : o.objSize ≤ 2 ^ 18) :
    o.slabSize = 2 ^ (buddyExponMin + o.blockOrder) ∧ o.blockOrder ≤ 6 ∧
      (32 * o.objSize ≤ o.slabSize ∨ o.slabSize = 2 ^ 18) ∧
      (o.blockOrder = 0 ∨ o.slabSize < 64 * o.objSize) := by
  obtain ⟨k, hk, hpages, hle, hlt⟩ := exists_pagesForObjSize hpos hz
  have hpow : 2 ^ k * pageSize = 2 ^ (buddyExponMin + k) := by
    rw [Nat.add_comm, pow_add]
    rfl
  have hslab : o.slabSize = 2 ^ (buddyExponMin + k) := by
    rw [hsize, hpages, hpow]
    apply u32_of_lt
    exact Nat.pow_lt_pow_right (by decide) (by unfold buddyExponMin; omega)
  have hblock : o.blockOrder = k := by
    rw [SlabOrder.blockOrder, hslab, log2U32, Nat.log2_two_pow]
    omega
  rw [hblock, hslab]
  refine ⟨rfl, hk, ?_, hlt⟩
  rcases hle with hle | rfl
  · exact .inl hle
  · exact .inr rfl

theorem Made.objSize {o : SlabOrder} (h : Made o) :
    o.slabSize = u32 (pagesForObjSize o.objSize * pageSize) ∧ 8 ≤ o.objSize ∧
      o.objSize ≤ 2 ^ 18 ∧ (o.slabOrder < slabOrderCount ∨ o.slabOrder = slabCustomOrder) ∧
      o.freeSlab = none := by
  rcases h with ⟨c, hc, rfl⟩ | ⟨n, hlo, hhi, rfl⟩
  · have hc' : c ≤ 12 := by
      unfold slabOrderCount slabExponMax slabExponMin at hc
      omega
    refine ⟨rfl, ?_, ?_, .inl hc, rfl⟩
    · exact Nat.pow_le_pow_right (n := 2) (i := 3) (by decide) (by unfold slabExponMin; omega)
    · exact Nat.pow_le_pow_right (by decide) (by unfold slabExponMin; omega)
  · have hu : u32 (n + 3) = n + 3 := u32_of_lt (by omega)
    refine ⟨rfl, ?_, ?_, .inr rfl, rfl⟩
    · show 8 ≤ u32 (n + 3) / 4 * 4
      omega
    · show u32 (n + 3) / 4 * 4 ≤ 2 ^ 18
      omega

/-- An order with objects of at most 128 KiB has two objects in a slab. -/
theorem Made.sized {o : SlabOrder} (h : Made o) (hz : o.objSize ≤ 2 ^ 17) : Sized o := by
  obtain ⟨hsize, hlo, hhi, hkind, -⟩ := h.objSize
  obtain ⟨hslab, horder, hle, -⟩ := slabSize_eq hsize (by omega) hhi
  refine ⟨hslab, horder, hlo, ?_, hkind⟩
  rcases hle with hle | hmax
  · omega
  · rw [hmax]
    omega

/-! ## Calls -/

inductive SlabCall where
  | alloc (cache : Nat)
  | free (addr : Nat)
  /-- the owner of an object stores a word in it -/
  | write (addr : Nat) (w : Word)

section Calls

variable {W : World ω} (A : Buddies W)

def slabStep (s : SlabState ω) : SlabCall → Kernel (SlabState ω × Nat)
  | .alloc cache => do
    let (heap, addr) ← allocSlab W A.alloc s.heap cache
    return (⟨heap, (addr, cache) :: s.live⟩, addr)
  | .free addr => do
    let heap ← freeSlab W A.free s.heap addr
    return (⟨heap, s.live.filter fun p => decide (p.1 ≠ addr)⟩, 0)
  | .write addr w => .ok (⟨s.heap.store addr w, s.live⟩, 0)

/-- Callers use the orders of `C`, free live objects and write to live objects. -/
def SlabCall.Allowed (C : Nat → Prop) (s : SlabState ω) : SlabCall → Prop
  | .alloc cache => C cache
  | .free addr => ∃ p ∈ s.live, p.1 = addr
  | .write addr _ => ∃ p ∈ s.live, Inside p.1 (s.heap.slabs p.2).objSize addr

/-- The objects of the order are at most 128 KiB large, so that a slab has two. -/
def SlabCall.Small (s : HeapVars ω) : SlabCall → Prop
  | .alloc cache => (s.slabs cache).objSize ≤ 2 ^ 17
  | _ => True

def SlabCall.FreesIn (base size : Nat) : SlabCall → Prop
  | .free addr => Inside base size addr
  | _ => False

instance (base size x : Nat) : Decidable (Inside base size x) :=
  inferInstanceAs (Decidable (_ ∧ _))

instance (base size : Nat) (call : SlabCall) : Decidable (call.FreesIn base size) :=
  match call with
  | .free addr => inferInstanceAs (Decidable (Inside base size addr))
  | .alloc _ => isFalse id
  | .write _ _ => isFalse id

/-- The live objects in a block. -/
def liveIn (live : List (Nat × Nat)) (base size : Nat) : List (Nat × Nat) :=
  live.filter fun p => decide (Inside base size p.1)

/-- Objects are in slabs of their orders and overlap no other, and `used_count` says
how many there are in a slab. -/
structure SlabsSound (s : SlabState ω) : Prop where
  inSlab : ∀ {a c}, (a, c) ∈ s.live → a ≠ 0 ∧
    ∃ B, A.owned s.heap.world B = some (s.heap.slabs c).slabSize ∧
      IsObj (s.heap.slabs c) B a ∧ (s.heap.desc (descOf W s.heap B)).buddyCache = .slabs c
  apart : ∀ {a c b d}, (a, c) ∈ s.live → (b, d) ∈ s.live → (a, c) ≠ (b, d) →
    a + (s.heap.slabs c).objSize ≤ b ∨ b + (s.heap.slabs d).objSize ≤ a
  once : s.live.Nodup
  used : ∀ {B n}, A.owned s.heap.world B = some n → liveIn s.live B n ≠ [] →
    (s.heap.desc (descOf W s.heap B)).usedCount = (liveIn s.live B n).length

/-- A block that was out is given back by a call that frees the last object in it,
and by no other call. -/
def ReturnsEmpty (s : SlabState ω) (call : SlabCall) (s' : SlabState ω) : Prop :=
  ∀ B n, A.owned s.heap.world B = some n → A.owned s'.heap.world B =
    if call.FreesIn B n ∧ liveIn s'.live B n = [] then none else some n

end Calls

/-! ## The invariant and the calls -/

section Runs

variable {W : World ω} {A : Buddies W} {C : Nat → Prop} {G : Nat → Nat → Prop} {s : SlabState ω}
  {g : Nat → Option Slab} (h : Inv A C G s g)
include h

theorem Inv.mem_liveIn {B x c : Nat} {sl : Slab} (hB : g B = some sl) :
    (x, c) ∈ liveIn s.live B (s.heap.slabs sl.cache).slabSize ↔
      sl.cache = c ∧ IsObj (s.heap.slabs c) B x ∧ x ∉ sl.free := by
  rw [liveIn, List.mem_filter, decide_eq_true_iff, h.live_split hB]
  constructor
  · rintro ⟨⟨B', sl', hne, hB', rfl, hobj, -⟩ | hrest, hin⟩
    · exact absurd (h.slab_unique hB' hB (h.obj_inside hB' hobj) hin) hne
    · exact hrest
  · rintro ⟨rfl, hobj, hfree⟩
    exact ⟨.inr ⟨rfl, hobj, hfree⟩, h.obj_inside hB hobj⟩

theorem Inv.length_liveIn {B : Nat} {sl : Slab} (hB : g B = some sl) :
    (liveIn s.live B (s.heap.slabs sl.cache).slabSize).length + sl.free.length =
      (s.heap.slabs sl.cache).count := by
  have hslab := h.slab hB
  have hperm : ((liveIn s.live B (s.heap.slabs sl.cache).slabSize).map Prod.fst ++ sl.free).Perm
      (objects (s.heap.slabs sl.cache) B) := by
    apply (List.perm_ext_iff_of_nodup _ ((h.size hB).nodup_objects B)).2
    · intro x
      rw [List.mem_append, List.mem_map, mem_objects]
      constructor
      · rintro (⟨⟨x, c⟩, hx, rfl⟩ | hx)
        · obtain ⟨rfl, hobj, -⟩ := (h.mem_liveIn hB).1 hx
          exact hobj
        · exact hslab.objs hx
      · intro hobj
        by_cases hfree : x ∈ sl.free
        · exact .inr hfree
        · exact .inl ⟨(x, sl.cache), (h.mem_liveIn hB).2 ⟨rfl, hobj, hfree⟩, rfl⟩
    · apply List.Nodup.append _ hslab.nodup
      · intro x hx hfree
        obtain ⟨⟨y, c⟩, hy, rfl⟩ := List.mem_map.1 hx
        exact ((h.mem_liveIn hB).1 hy).2.2 hfree
      · apply List.Nodup.map_on _ (h.nodup.filter _)
        intro p hp q hq he
        obtain ⟨x, c⟩ := p
        obtain ⟨y, d⟩ := q
        obtain ⟨rfl, -⟩ := (h.mem_liveIn hB).1 hp
        obtain ⟨rfl, -⟩ := (h.mem_liveIn hB).1 hq
        rw [show x = y from he]
  have hlen := hperm.length_eq
  rw [List.length_append, List.length_map, length_objects] at hlen
  exact hlen

theorem Inv.used_eq {B : Nat} {sl : Slab} (hB : g B = some sl) :
    (s.heap.desc (descOf W s.heap B)).usedCount =
      (liveIn s.live B (s.heap.slabs sl.cache).slabSize).length := by
  have hlen := h.length_liveIn hB
  have hused := (h.slab hB).usedCount
  omega

theorem Inv.slab_of_live {B n : Nat} (hB : A.owned s.heap.world B = some n)
    (hlive : liveIn s.live B n ≠ []) :
    ∃ sl, g B = some sl ∧ n = (s.heap.slabs sl.cache).slabSize := by
  obtain ⟨⟨x, c⟩, hx⟩ := List.exists_mem_of_ne_nil _ hlive
  obtain ⟨hx, hin⟩ := List.mem_filter.1 hx
  obtain ⟨B', sl, hB', rfl, hobj, -⟩ := (h.live x c).1 hx
  obtain rfl := A.apart h.ok (h.owned hB') hB (h.obj_inside hB' hobj) (of_decide_eq_true hin)
  rw [h.owned hB'] at hB
  exact ⟨sl, hB', (Option.some.inj hB).symm⟩

theorem Inv.sound : SlabsSound A s where
  inSlab := by
    intro a c hlive
    obtain ⟨B, sl, hB, rfl, hobj, -⟩ := (h.live a c).1 hlive
    refine ⟨?_, B, h.owned hB, hobj, (h.slab hB).orderCache⟩
    have hlow := h.low_free hB
    have hge := ((h.size hB).obj_inside hobj).1
    unfold pageSize at hlow
    omega
  apart := by
    intro a c b d ha hb hne
    obtain ⟨B, sl, hB, rfl, hobj, -⟩ := (h.live a c).1 ha
    obtain ⟨B', sl', hB', rfl, hobj', -⟩ := (h.live b d).1 hb
    by_cases he : B = B'
    · subst he
      obtain rfl : sl = sl' := Option.some.inj (hB.symm.trans hB')
      rcases obj_apart hobj hobj' with rfl | hapart
      · exact absurd rfl hne
      · exact hapart
    · -- the blocks have no address in common
      have hin := (h.size hB).obj_inside hobj
      have hin' := (h.size hB').obj_inside hobj'
      have hz := (h.size hB).objSize
      have hz' := (h.size hB').objSize
      by_contra hcon
      apply he
      exact h.slab_unique hB hB' (x := max a b) ⟨by omega, by omega⟩ ⟨by omega, by omega⟩
  once := h.nodup
  used := by
    intro B n hB hlive
    obtain ⟨sl, hg, rfl⟩ := h.slab_of_live hB hlive
    exact h.used_eq hg

theorem Inv.step {call : SlabCall} (hcall : call.Allowed C s) :
    (∃ s' out g', slabStep A s call = .ok (s', out) ∧ Inv A C G s' g' ∧
      ReturnsEmpty A s call s') ∨
    ∃ c e, call = .alloc c ∧ A.alloc s.heap (s.heap.slabs c).slabSize = .error e ∧
      slabStep A s call = .error e := by
  cases call with
  | alloc c =>
    rcases h.allocSlab hcall with ⟨t, B, a, F, hrun, -, howned, hinv⟩ |
      ⟨t, a, hrun, hnone, howned, -, hinv⟩ | ⟨e, halloc, hrun⟩
    · refine .inl ⟨_, a, _, by rw [slabStep, hrun]; rfl, hinv, ?_⟩
      intro B n hB
      rw [if_neg fun hcon => hcon.1]
      exact (congrFun howned B).trans hB
    · refine .inl ⟨_, a, _, by rw [slabStep, hrun]; rfl, hinv, ?_⟩
      intro B n hB
      rw [if_neg fun hcon => hcon.1]
      show A.owned t.world B = some n
      rw [howned, Function.update_of_ne, hB]
      rintro rfl
      rw [hnone] at hB
      cases hB
    · exact .inr ⟨c, e, rfl, halloc, by rw [slabStep, hrun]; rfl⟩
  | free addr =>
    left
    obtain ⟨⟨a, c⟩, hlive, rfl⟩ := hcall
    obtain ⟨B, F, t, hB, hobj, hfree, hrun, hcase⟩ := h.freeSlab hlive
    have hin : Inside B (s.heap.slabs c).slabSize a := h.obj_inside hB hobj
    have hstep : slabStep A s (.free a) =
        .ok (⟨t, s.live.filter fun p => decide (p.1 ≠ a)⟩, 0) := by
      rw [slabStep, hrun]
      rfl
    -- the block of the object is this slab
    have hblock : ∀ {B' n}, A.owned s.heap.world B' = some n → Inside B' n a →
        B' = B ∧ n = (s.heap.slabs c).slabSize := by
      intro B' n hB' hin'
      obtain rfl := A.apart h.ok hB' (h.owned hB) hin' hin
      rw [h.owned hB] at hB'
      exact ⟨rfl, (Option.some.inj hB').symm⟩
    rcases hcase with ⟨hlen, howned, hinv⟩ | ⟨hlen, howned, hinv⟩
    · refine ⟨_, 0, _, hstep, hinv, ?_⟩
      intro B' n hB'
      rw [if_neg, congrFun howned B', hB']
      rintro ⟨hin', hempty⟩
      obtain ⟨rfl, rfl⟩ := hblock hB' hin'
      -- another object of the slab is not free
      have hsub : objects (s.heap.slabs c) B' ⊆ a :: F := by
        intro x hobjx
        rw [mem_objects] at hobjx
        by_contra hxF
        have hx : (x, c) ∈ s.live.filter fun p => decide (p.1 ≠ a) :=
          (h.live_give hB hobj x c).2 (.inr ⟨rfl, hobjx, hxF⟩)
        have hxin : Inside B' (s.heap.slabs c).slabSize x := h.obj_inside hB hobjx
        have hmem : (x, c) ∈ liveIn (s.live.filter fun p => decide (p.1 ≠ a)) B'
            (s.heap.slabs c).slabSize := List.mem_filter.2 ⟨hx, decide_eq_true hxin⟩
        rw [hempty] at hmem
        cases hmem
      have hle := (List.subperm_of_subset ((h.size hB).nodup_objects B') hsub).length_le
      rw [length_objects, List.length_cons] at hle
      exact absurd hlen (Nat.not_lt_of_le hle)
    · refine ⟨_, 0, _, hstep, hinv, ?_⟩
      intro B' n hB'
      show A.owned t.world B' = _
      rw [howned]
      by_cases he : B' = B
      · subst he
        rw [Function.update_self, if_pos]
        rw [h.owned hB] at hB'
        obtain rfl := Option.some.inj hB'
        refine ⟨hin, List.eq_nil_iff_forall_not_mem.2 ?_⟩
        rintro ⟨x, d⟩ hx
        obtain ⟨hx, hinx⟩ := List.mem_filter.1 hx
        rcases (h.live_give hB hobj x d).1 hx with ⟨B'', sl, hne, hB'', rfl, hx, -⟩ | ⟨rfl, hx, hxF⟩
        · exact hne (h.slab_unique hB'' hB (h.obj_inside hB'' hx) (of_decide_eq_true hinx))
        · exact hxF (h.last_obj hB hobj hfree hlen hx)
      · rw [Function.update_of_ne he, hB', if_neg]
        rintro ⟨hin', -⟩
        exact he (hblock hB' hin').1
  | write addr w =>
    left
    obtain ⟨⟨a, c⟩, hlive, hin⟩ := hcall
    refine ⟨_, 0, g, rfl, h.write hlive hin w, ?_⟩
    intro B n hB
    rw [if_neg fun hcon => hcon.1]
    exact hB

end Runs

theorem inv_start {W : World ω} {A : Buddies W} {C : Nat → Prop} {G : Nat → Nat → Prop}
    {s : HeapVars ω} (hok : A.Ok s)
    (horders : ∀ {c}, C c → Sized (s.slabs c) ∧ (s.slabs c).freeSlab = none)
    (hgarbage : ∀ {c}, C c → G c 0 ∧ G c (s.slabs c).blockOrder)
    (hlow : ∀ {c n}, G c n → n ≤ buddyOrderMax) : Inv A C G ⟨s, []⟩ fun _ => none where
  ok := hok
  sized hc := (horders hc).1
  garbage := hgarbage
  low := hlow
  cache := nofun
  owned := nofun
  slab := nofun
  avail := by
    intro c hc
    refine ⟨[], ⟨by simp, (horders hc).2, nofun, nofun⟩, ?_⟩
    simp
  live := by simp
  nodup := List.nodup_nil

theorem run_inv {W : World ω} {A : Buddies W} {C : Nat → Prop} {G : Nat → Nat → Prop}
    {s u : SlabState ω} {P : SlabState ω → SlabCall → Prop} {calls : List SlabCall}
    {outs : List Nat} (hP : ∀ {t call}, P t call → call.Allowed C t)
    (h : ∃ g, Inv A C G s g) (hmeets : Meets (slabStep A) P s calls)
    (hrun : run (slabStep A) s calls = .ok (u, outs)) : ∃ g, Inv A C G u g := by
  apply run_keeps (I := fun t => ∃ g, Inv A C G t g) _ h hmeets hrun
  intro t call t' out hI hcall hstep
  obtain ⟨g, hinv⟩ := hI
  rcases hinv.step (hP hcall) with ⟨t'', out', g', hok, hinv', -⟩ | ⟨c, e, -, -, herr⟩
  · rw [hok] at hstep
    obtain ⟨rfl, -⟩ := Prod.mk.inj (Except.ok.inj hstep)
    exact ⟨g', hinv'⟩
  · rw [herr] at hstep
    cases hstep

/-- Objects are neither shared nor lost, where those of each order in use are at most
128 KiB large. The block allocator alone can stop a run. -/
theorem slab_objects_kept {W : World ω} (A : Buddies W) {C : Nat → Prop} {s : HeapVars ω}
    (hok : A.Ok s) (hmade : ∀ c, C c → Made (s.slabs c)) {calls : List SlabCall}
    (hmeets : Meets (slabStep A) (fun u call => call.Allowed C u ∧ call.Small s) ⟨s, []⟩ calls)
    {u : SlabState ω} {outs : List Nat} (hrun : run (slabStep A) ⟨s, []⟩ calls = .ok (u, outs)) :
    SlabsSound A u ∧ ∀ call : SlabCall, call.Allowed C u → call.Small s →
      (∃ v out, slabStep A u call = .ok (v, out) ∧ SlabsSound A v ∧ ReturnsEmpty A u call v) ∨
      ∃ c e, call = .alloc c ∧ A.alloc u.heap (u.heap.slabs c).slabSize = .error e := by
  have hstart : Inv A (fun c => C c ∧ (s.slabs c).objSize ≤ 2 ^ 17) (fun _ n => n ≤ buddyOrderMax)
      ⟨s, []⟩ fun _ => none := by
    apply inv_start hok
    · intro c hc
      exact ⟨(hmade c hc.1).sized hc.2, (hmade c hc.1).objSize.2.2.2.2⟩
    · intro c hc
      have := ((hmade c hc.1).sized hc.2).order
      unfold buddyOrderMax buddyExponMax buddyExponMin
      omega
    · exact fun hn => hn
  have hallowed : ∀ {t : SlabState ω} {call : SlabCall}, call.Allowed C t ∧ call.Small s →
      call.Allowed (fun c => C c ∧ (s.slabs c).objSize ≤ 2 ^ 17) t := by
    intro t call hcall
    cases call with
    | alloc c => exact hcall
    | free a => exact hcall.1
    | write a w => exact hcall.1
  obtain ⟨g, hinv⟩ := run_inv hallowed ⟨_, hstart⟩ hmeets hrun
  refine ⟨hinv.sound, fun call hcall hsmall => ?_⟩
  rcases hinv.step (hallowed ⟨hcall, hsmall⟩) with ⟨v, out, g', hstep, hinv', hreturns⟩ |
    ⟨c, e, hc, halloc, -⟩
  · exact .inl ⟨v, out, hstep, hinv'.sound, hreturns⟩
  · exact .inr ⟨c, e, hc, halloc⟩

/-! ## A block allocator that hands out one block after the other -/

/-- The next address, and the blocks that are out. -/
structure Bump where
  next : Nat
  owned : Nat → Option Nat

def bumpWorld : World Bump where
  descOf _ page := page
  mmAllocPages w _ := .ok (w, 0)
  pfnToPa _ _ := 0
  pagingMapPages w _ _ _ _ := .ok w
  markRegion w _ _ _ := .ok w

/-- The first multiple of the size that is not below the next address. -/
def Bump.place (w : Bump) (size : Nat) : Nat := (w.next + size - 1) / size * size

/-- The descriptor of a block as `alloc_buddy` leaves it. -/
def bumpDesc (a size : Nat) : Desc where
  flags := ⟨false, true, true⟩
  numPages := .num (size / pageSize)
  virtAddr := a
  buddyOrder := .num (log2U32 size - buddyExponMin)
  prevFree := .num 0
  nextFree := .num 0
  buddyCache := .buddies (log2U32 size - buddyExponMin)

def bumpAlloc (s : HeapVars Bump) (size : Nat) : Kernel (HeapVars Bump × Nat) :=
  let a := s.world.place size
  if a + size ≤ 2 ^ 32 then
    .ok ({ s with
      world := ⟨a + size, Function.update s.world.owned a (some size)⟩
      desc := fun j => if j = a / pageSize then bumpDesc a size else s.desc j }, a)
  else .error .abort

def bumpFree (s : HeapVars Bump) (a : Nat) : Kernel (HeapVars Bump) :=
  .ok { s with world := ⟨s.world.next, Function.update s.world.owned a none⟩ }

structure BumpOk (w : Bump) : Prop where
  pos : 0 < w.next
  block : ∀ {a n}, w.owned a = some n → ∃ k ≤ buddyOrderMax, n = 2 ^ (buddyExponMin + k) ∧ n ∣ a ∧
    a ≠ 0 ∧ a + n ≤ 2 ^ 32 ∧ a + n ≤ w.next
  apart : ∀ {a n b m x}, w.owned a = some n → w.owned b = some m → Inside a n x → Inside b m x →
    a = b

theorem Bump.next_le_place (w : Bump) {size : Nat} (hsize : 0 < size) :
    w.next ≤ w.place size := by
  have hdiv := Nat.div_add_mod (w.next + size - 1) size
  have hmod := Nat.mod_lt (w.next + size - 1) hsize
  rw [Bump.place, Nat.mul_comm]
  omega

theorem BumpOk.new_page {w : Bump} (h : BumpOk w) {k b m x : Nat} (hb : w.owned b = some m)
    (hx : Inside b m x) :
    x / pageSize ≠ w.place (2 ^ (buddyExponMin + k)) / pageSize := by
  obtain ⟨j, -, rfl, hdvd, -, -, hend⟩ := h.block hb
  have hle := w.next_le_place (Nat.two_pow_pos (buddyExponMin + k))
  intro e
  have hin := inside_of_page hdvd hx e.symm
  obtain ⟨hlo, hhi⟩ := hin
  omega

theorem BumpOk.alloc {w : Bump} (h : BumpOk w) {k : Nat}
    (hfits : w.place (2 ^ (buddyExponMin + k)) + 2 ^ (buddyExponMin + k) ≤ 2 ^ 32) :
    w.owned (w.place (2 ^ (buddyExponMin + k))) = none ∧
    BumpOk ⟨w.place (2 ^ (buddyExponMin + k)) + 2 ^ (buddyExponMin + k),
      Function.update w.owned (w.place (2 ^ (buddyExponMin + k)))
        (some (2 ^ (buddyExponMin + k)))⟩ := by
  have hpow := Nat.two_pow_pos (buddyExponMin + k)
  have hle := w.next_le_place hpow
  have hpos := h.pos
  have hdvd : 2 ^ (buddyExponMin + k) ∣ w.place (2 ^ (buddyExponMin + k)) := Nat.dvd_mul_left _ _
  have hge : 2 ^ (buddyExponMin + k) ≤ w.place (2 ^ (buddyExponMin + k)) :=
    Nat.le_of_dvd (by omega) hdvd
  have hnone : w.owned (w.place (2 ^ (buddyExponMin + k))) = none := by
    cases hw : w.owned (w.place (2 ^ (buddyExponMin + k))) with
    | none => rfl
    | some n =>
      obtain ⟨j, -, rfl, -, -, -, hend⟩ := h.block hw
      have := Nat.two_pow_pos (buddyExponMin + j)
      omega
  have hk : k ≤ buddyOrderMax := by
    by_contra hcon
    have : 2 ^ 32 ≤ 2 ^ (buddyExponMin + k) :=
      Nat.pow_le_pow_right (by decide)
        (by unfold buddyOrderMax buddyExponMax buddyExponMin at *; omega)
    omega
  have hblock : ∀ {b m}, w.owned b = some m →
      b + m ≤ w.place (2 ^ (buddyExponMin + k)) := by
    intro b m hb
    obtain ⟨j, -, -, -, -, -, hend⟩ := h.block hb
    omega
  have hcases : ∀ {b m}, Function.update w.owned (w.place (2 ^ (buddyExponMin + k)))
      (some (2 ^ (buddyExponMin + k))) b = some m →
      (b = w.place (2 ^ (buddyExponMin + k)) ∧ m = 2 ^ (buddyExponMin + k)) ∨
      w.owned b = some m := by
    intro b m hb
    by_cases he : b = w.place (2 ^ (buddyExponMin + k))
    · rw [he, Function.update_self] at hb
      exact .inl ⟨he, (Option.some.inj hb).symm⟩
    · rw [Function.update_of_ne he] at hb
      exact .inr hb
  refine ⟨hnone, ⟨Nat.add_pos_right _ hpow, ?_, ?_⟩⟩
  · intro a n ha
    rcases hcases ha with ⟨rfl, rfl⟩ | ha
    · exact ⟨k, hk, rfl, hdvd, by omega, hfits, Nat.le_refl _⟩
    · obtain ⟨j, hj, rfl, hd, hne, hend, -⟩ := h.block ha
      exact ⟨j, hj, rfl, hd, hne, hend, Nat.le_add_right_of_le (hblock ha)⟩
  · intro a n b m x ha hb hx hx'
    obtain ⟨hlo, hhi⟩ := hx
    obtain ⟨hlo', hhi'⟩ := hx'
    rcases hcases ha with ⟨rfl, rfl⟩ | ha <;> rcases hcases hb with ⟨rfl, rfl⟩ | hb
    · rfl
    · have := hblock hb
      omega
    · have := hblock ha
      omega
    · exact h.apart ha hb ⟨hlo, hhi⟩ ⟨hlo', hhi'⟩

theorem BumpOk.free {w : Bump} (h : BumpOk w) (a : Nat) :
    BumpOk ⟨w.next, Function.update w.owned a none⟩ := by
  have hold : ∀ {b m}, Function.update w.owned a none b = some m → w.owned b = some m := by
    intro b m hb
    by_cases he : b = a
    · rw [he, Function.update_self] at hb
      cases hb
    · rw [Function.update_of_ne he] at hb
      exact hb
  exact ⟨h.pos, fun hb => h.block (hold hb), fun ha hb => h.apart (hold ha) (hold hb)⟩

theorem BumpOk.is_block {w : Bump} (h : BumpOk w) {a n : Nat} (ha : w.owned a = some n) :
    ∃ k ≤ buddyOrderMax, n = 2 ^ (buddyExponMin + k) ∧ n ∣ a ∧ a ≠ 0 ∧ a + n ≤ 2 ^ 32 := by
  obtain ⟨k, hk, hn, hdvd, hne, hend, -⟩ := h.block ha
  exact ⟨k, hk, hn, hdvd, hne, hend⟩

theorem bumpAlloc_spec {s s' : HeapVars Bump} {a k : Nat} (hok : BumpOk s.world)
    (hrun : bumpAlloc s (2 ^ (buddyExponMin + k)) = .ok (s', a)) :
    BumpOk s'.world ∧ s.world.owned a = none ∧
    s'.world.owned = Function.update s.world.owned a (some (2 ^ (buddyExponMin + k))) ∧
    s'.slabs = s.slabs ∧
    Keeps bumpWorld s s' (fun x => ∃ b m, s.world.owned b = some m ∧ Inside b m x) ∧
    (s'.desc (descOf bumpWorld s' a)).flags.vfree = false ∧
    (s'.desc (descOf bumpWorld s' a)).flags.head = true ∧
    (s'.desc (descOf bumpWorld s' a)).numPages = .num (2 ^ k) ∧
    (s'.desc (descOf bumpWorld s' a)).buddyOrder = .num k := by
  unfold bumpAlloc at hrun
  dsimp only at hrun
  split at hrun
  · next hfits =>
    obtain ⟨rfl, rfl⟩ := Prod.mk.inj (Except.ok.inj hrun)
    obtain ⟨hnone, hok'⟩ := hok.alloc hfits
    refine ⟨hok', hnone, rfl, rfl, ⟨fun _ => rfl, ?_, fun _ => rfl⟩, ?_⟩
    · intro x hx
      obtain ⟨b, m, hb, hx⟩ := hx
      exact if_neg (hok.new_page hb hx)
    · have hlog : log2U32 (2 ^ (buddyExponMin + k)) - buddyExponMin = k := by
        rw [log2U32, Nat.log2_two_pow]
        omega
      have hpages : 2 ^ (buddyExponMin + k) / pageSize = 2 ^ k := by
        rw [pow_add]
        exact Nat.mul_div_cancel_left _ (by decide)
      simp only [descOf, bumpWorld, if_true, bumpDesc, hlog, hpages, and_self]
  · cases hrun

theorem bumpFree_spec {s : HeapVars Bump} {a : Nat} (hok : BumpOk s.world) :
    ∃ s', bumpFree s a = .ok s' ∧ BumpOk s'.world ∧
      s'.world.owned = Function.update s.world.owned a none ∧ s'.slabs = s.slabs ∧
      Keeps bumpWorld s s' fun x => ∃ b m, b ≠ a ∧ s.world.owned b = some m ∧ Inside b m x :=
  ⟨_, rfl, hok.free a, rfl, rfl, ⟨fun _ => rfl, fun _ => rfl, fun _ => rfl⟩⟩

def bumpBuddies : Buddies bumpWorld where
  alloc := bumpAlloc
  free := bumpFree
  owned := Bump.owned
  Ok s := BumpOk s.world
  block h ha := h.is_block ha
  apart h := h.apart
  inj _ _ _ _ _ he := he
  alloc_spec := bumpAlloc_spec
  free_spec hok _ _ := bumpFree_spec hok
  ok_modify h _ _ _ := h
  ok_store h := h
  ok_setFreeSlab h := h

/-- A heap without slabs whose orders are given. -/
def bumpHeap (orders : Nat → SlabOrder) : HeapVars Bump where
  world := ⟨pageSize, fun _ => none⟩
  desc _ := bumpDesc 0 0
  mem _ := .num 0
  freeBuddies _ := none
  slabs := orders
  intervalCache := 0
  minAddr := 0
  curMaxAddr := 0
  reservedMaxAddr := 0
  curSize := 0
  reservedMaxSize := 0

theorem bumpHeap_ok (orders : Nat → SlabOrder) : bumpBuddies.Ok (bumpHeap orders) :=
  ⟨Nat.succ_pos 4095, nofun, nofun⟩

instance (C : Nat → Prop) [DecidablePred C] (s : SlabState ω) (call : SlabCall) :
    Decidable (call.Allowed C s) :=
  match call with
  | .alloc cache => inferInstanceAs (Decidable (C cache))
  | .free addr => inferInstanceAs (Decidable (∃ p ∈ s.live, p.1 = addr))
  | .write addr _ =>
    inferInstanceAs (Decidable (∃ p ∈ s.live, Inside p.1 (s.heap.slabs p.2).objSize addr))

instance (s : HeapVars ω) (call : SlabCall) : Decidable (call.Small s) :=
  match call with
  | .alloc cache => inferInstanceAs (Decidable ((s.slabs cache).objSize ≤ 2 ^ 17))
  | .free _ => isTrue trivial
  | .write _ _ => isTrue trivial

/-- The orders of `kmalloc`, and caches with objects of 2000 and of 200000 bytes. -/
def someOrders (c : Nat) : SlabOrder :=
  if c < slabOrderCount then kmallocOrder c
  else if c = 13 then customOrder 2000 else customOrder 200000

def someCalls : List SlabCall :=
  [.alloc 10, .alloc 13, .alloc 10, .write 0x40004 (.num 7), .free 0x40000, .alloc 10]

theorem someCalls_keep_objects :
    (∀ c, c ≤ 13 → Made (someOrders c)) ∧
    Meets (slabStep bumpBuddies) (fun u call => call.Allowed (· ≤ 13) u ∧
      call.Small (bumpHeap someOrders)) ⟨bumpHeap someOrders, []⟩ someCalls ∧
    ∃ r, run (slabStep bumpBuddies) ⟨bumpHeap someOrders, []⟩ someCalls = .ok r ∧
      SlabsSound bumpBuddies r.1 := by
  have hmade : ∀ c, c ≤ 13 → Made (someOrders c) := by
    intro c hc
    unfold someOrders
    split
    · next hlt => exact .inl ⟨c, hlt, rfl⟩
    · next hge =>
      rw [if_pos (by unfold slabOrderCount slabExponMax slabExponMin at hge; omega)]
      exact .inr ⟨2000, by decide, by decide, rfl⟩
  have hmeets : Meets (slabStep bumpBuddies) (fun u call => call.Allowed (· ≤ 13) u ∧
      call.Small (bumpHeap someOrders)) ⟨bumpHeap someOrders, []⟩ someCalls := by
    decide +kernel
  have hrun : ∃ r, run (slabStep bumpBuddies) ⟨bumpHeap someOrders, []⟩ someCalls = .ok r ∧
      True := by
    decide +kernel
  obtain ⟨r, hrun, -⟩ := hrun
  exact ⟨hmade, hmeets, r, hrun,
    (slab_objects_kept bumpBuddies (bumpHeap_ok someOrders) hmade hmeets hrun).1⟩

/-- A slab of one object is still the first of the list when the object is taken, and
the next call finds no object in it. -/
theorem largeObjects_lost :
    Made (someOrders 14) ∧
    Meets (slabStep bumpBuddies) (fun u call => call.Allowed (· = 14) u)
      ⟨bumpHeap someOrders, []⟩ [.alloc 14, .alloc 14] ∧
    ∃ r, run (slabStep bumpBuddies) ⟨bumpHeap someOrders, []⟩ [.alloc 14, .alloc 14] = .ok r ∧
      r.2 = [0x40000, 0] ∧ ¬ SlabsSound bumpBuddies r.1 := by
  have hmeets : Meets (slabStep bumpBuddies) (fun u call => call.Allowed (· = 14) u)
      ⟨bumpHeap someOrders, []⟩ [.alloc 14, .alloc 14] := by
    decide +kernel
  have hrun : ∃ r, run (slabStep bumpBuddies) ⟨bumpHeap someOrders, []⟩ [.alloc 14, .alloc 14] =
      .ok r ∧ r.2 = [0x40000, 0] ∧ (0, 14) ∈ r.1.live := by
    decide +kernel
  obtain ⟨r, hrun, houts, hlive⟩ := hrun
  refine ⟨.inr ⟨200000, by decide, by decide, rfl⟩, hmeets, r, hrun, houts, fun hsound => ?_⟩
  exact (hsound.inSlab hlive).1 rfl

/-! ## The lists of slabs -/

/-- A block with a live object of the order, and neither full nor empty. -/
def PartlyUsed {W : World ω} (A : Buddies W) (s : SlabState ω) (c B : Nat) : Prop :=
  ∃ n, A.owned s.heap.world B = some n ∧ (∃ p ∈ liveIn s.live B n, p.2 = c) ∧
    0 < (s.heap.desc (descOf W s.heap B)).usedCount ∧
    (s.heap.desc (descOf W s.heap B)).usedCount < (s.heap.desc (descOf W s.heap B)).objCount

/-- `free_slab` of the order begins a doubly linked list of just these slabs. -/
structure ListSound {W : World ω} (A : Buddies W) (s : SlabState ω) (c : Nat) (l : List Nat) :
    Prop where
  linked : Linked (nextSlabOf s.heap) (prevSlabOf s.heap) none (s.heap.slabs c).freeSlab
    (l.map (descOf W s.heap))
  head : ∀ {i}, (s.heap.slabs c).freeSlab = some i → (s.heap.desc i).buddyOrder = .num 0
  next : ∀ B ∈ l, (s.heap.desc (descOf W s.heap B)).prevFree = .num 0 ∨
    ∃ B' ∈ l, (s.heap.desc (descOf W s.heap B)).prevFree = .page (descOf W s.heap B')
  prev : ∀ B ∈ l, (s.heap.desc (descOf W s.heap B)).buddyOrder = .num 0 ∨
    ∃ B' ∈ l, (s.heap.desc (descOf W s.heap B)).buddyOrder = .page (descOf W s.heap B')
  nodup : l.Nodup
  partly : ∀ B, B ∈ l ↔ PartlyUsed A s c B

theorem Inv.partlyUsed_iff {W : World ω} {A : Buddies W} {C : Nat → Prop} {G : Nat → Nat → Prop}
    {s : SlabState ω} {g : Nat → Option Slab} (h : Inv A C G s g) (c B : Nat) :
    PartlyUsed A s c B ↔ ∃ sl, g B = some sl ∧ sl.cache = c ∧ sl.free ≠ [] := by
  constructor
  · rintro ⟨n, hB, ⟨⟨x, d⟩, hx, rfl⟩, -, hlt⟩
    obtain ⟨sl, hg, rfl⟩ := h.slab_of_live hB (List.ne_nil_of_mem hx)
    have hused := (h.slab hg).usedCount
    have hcount := (h.slab hg).objCount
    refine ⟨sl, hg, ((h.mem_liveIn hg).1 hx).1, ?_⟩
    intro hnil
    rw [hnil, List.length_nil] at hused
    omega
  · rintro ⟨sl, hg, rfl, hfree⟩
    have hlen := h.length_liveIn hg
    have hused := (h.slab hg).usedCount
    have hcount := (h.slab hg).objCount
    have hlt := (h.slab hg).used
    have hpos := List.length_pos_iff.2 hfree
    obtain ⟨⟨x, d⟩, hx⟩ := List.exists_mem_of_length_pos
      (show 0 < (liveIn s.live B (s.heap.slabs sl.cache).slabSize).length by omega)
    exact ⟨_, h.owned hg, ⟨(x, d), hx, ((h.mem_liveIn hg).1 hx).1.symm⟩, by omega, by omega⟩

theorem Inv.listSound {W : World ω} {A : Buddies W} {C : Nat → Prop} {G : Nat → Nat → Prop}
    {s : SlabState ω} {g : Nat → Option Slab} (h : Inv A C G s g) {c : Nat} (hc : C c)
    (hzero : ∀ n, G c n → n = 0) : ∃ l, ListSound A s c l := by
  obtain ⟨l, havail, hmem⟩ := h.avail hc
  have hlinked := havail.linked
  -- a word of `prev_slab` is NULL or a pointer, since no number but 0 is left in it
  have hword : ∀ B ∈ l, (s.heap.desc (descOf W s.heap B)).buddyOrder = .num 0 ∨
      ∃ B' ∈ l, (s.heap.desc (descOf W s.heap B)).buddyOrder = .page (descOf W s.heap B') := by
    intro B hB
    rcases havail.prev hB with ⟨n, hn, hG⟩ | ⟨i, hi⟩
    · rw [hzero n hG] at hn
      exact .inl hn
    · right
      have hprev : prevSlabOf s.heap (descOf W s.heap B) = some i := by
        rw [prevSlabOf, hi]
        rfl
      obtain ⟨B', hB', rfl⟩ :=
        List.mem_map.1 (hlinked.mem_of_prev (List.mem_map_of_mem hB) hprev)
      exact ⟨B', hB', hi⟩
  refine ⟨l, hlinked, ?_, ?_, hword, havail.nodup.of_map _, ?_⟩
  · intro i hi
    cases l with
    | nil =>
      have hnone : (s.heap.slabs c).freeSlab = none := hlinked
      rw [hnone] at hi
      cases hi
    | cons B l =>
      have hhead : (s.heap.slabs c).freeSlab = some (descOf W s.heap B) := hlinked.1
      obtain rfl := Option.some.inj (hhead.symm.trans hi)
      rcases hword B List.mem_cons_self with hnull | ⟨B', -, hp⟩
      · exact hnull
      · have hprev : prevSlabOf s.heap (descOf W s.heap B) = none := hlinked.2.1
        rw [prevSlabOf, hp] at hprev
        cases hprev
  · intro B hB
    have hptr := havail.next hB
    cases hnext : nextSlabOf s.heap (descOf W s.heap B) with
    | none =>
      left
      rw [hptr, ← nextSlabOf, hnext]
      rfl
    | some i =>
      right
      obtain ⟨B', hB', rfl⟩ :=
        List.mem_map.1 (hlinked.mem_of_next (List.mem_map_of_mem hB) hnext)
      refine ⟨B', hB', ?_⟩
      rw [hptr, ← nextSlabOf, hnext]
      rfl
  · intro B
    rw [hmem, h.partlyUsed_iff]

/-- Slabs of one page are those of objects of at most 128 bytes. -/
theorem kmallocOrder_blockOrder : ∀ c < slabOrderCount,
    (kmallocOrder c).blockOrder = 0 ↔ c ≤ 3 := by
  decide +kernel

theorem kmallocOrder_sized {c : Nat} (hc : c < slabOrderCount) : Sized (kmallocOrder c) := by
  apply Made.sized (.inl ⟨c, hc, rfl⟩)
  apply Nat.pow_le_pow_right (by decide)
  unfold slabOrderCount slabExponMax slabExponMin at hc
  unfold slabExponMin
  omega

/-- What the first call on an order leaves in `prev_slab`. -/
theorem first_alloc {W : World ω} {A : Buddies W} {s : HeapVars ω} (hok : A.Ok s) {c : Nat}
    (hsized : Sized (s.slabs c)) (hfirst : (s.slabs c).freeSlab = none) {r : HeapVars ω × Nat}
    (halloc : A.alloc s (s.slabs c).slabSize = .ok r) :
    ∃ t i, allocSlab W A.alloc s c = .ok (t, r.2) ∧ (t.slabs c).freeSlab = some i ∧
      (t.desc i).buddyOrder = .num (s.slabs c).blockOrder := by
  obtain ⟨t, a⟩ := r
  have hrun : allocSlab W A.alloc s c = initSlab W t c a := by
    rw [allocSlab, hfirst]
    show A.alloc s (s.slabs c).slabSize >>= _ = _
    rw [halloc]
    rfl
  rw [hsized.slabSize] at halloc
  obtain ⟨hok', -, howned, hslabs, -, hvfree, hhead, hpages, horder⟩ := A.alloc_spec hok halloc
  have hown : A.owned t.world a = some (t.slabs c).slabSize := by
    rw [howned, hslabs, Function.update_self, ← hsized.slabSize]
  have hsized' : Sized (t.slabs c) := by
    rw [hslabs]
    exact hsized
  have heq := initSlab_eq hok' hown hsized' (by rw [hslabs]; exact hpages)
  obtain ⟨-, hprev⟩ := new_links hok' hown hsized'
  refine ⟨_, descOf W t a, hrun.trans heq, ?_, ?_⟩
  · rw [listSlab_slabs, setFreeSlab_self]
  · rw [hprev]
    exact horder

/-- The list of a `kmalloc` order is sound in every state that is reached, just where
the slabs of the order are single pages: of a larger block the order is left in
`prev_slab`. A block for the first slab can be had. -/
theorem slab_lists_sound_iff {W : World ω} (A : Buddies W) {s : HeapVars ω} (hok : A.Ok s)
    (hinit : ∀ c < slabOrderCount, s.slabs c = kmallocOrder c) {c : Nat}
    (hc : c < slabOrderCount) {r : HeapVars ω × Nat}
    (halloc : A.alloc s (s.slabs c).slabSize = .ok r) :
    (∀ (calls : List SlabCall) (u : SlabState ω) (outs : List Nat),
      Meets (slabStep A) (fun t call => call.Allowed (· < slabOrderCount) t) ⟨s, []⟩ calls →
      run (slabStep A) ⟨s, []⟩ calls = .ok (u, outs) → ∃ l, ListSound A u c l) ↔ c ≤ 3 := by
  constructor
  · intro hall
    obtain ⟨t, i, hrun, hi, hprev⟩ := first_alloc hok
      (by rw [hinit c hc]; exact kmallocOrder_sized hc) (by rw [hinit c hc]; rfl) halloc
    have hstep : slabStep A ⟨s, []⟩ (.alloc c) = .ok (⟨t, [(r.2, c)]⟩, r.2) := by
      rw [slabStep, hrun]
      rfl
    obtain ⟨l, hsound⟩ := hall [.alloc c] ⟨t, [(r.2, c)]⟩ [r.2] ⟨hc, fun _ _ _ => trivial⟩
      (run_cons_ok hstep rfl)
    have hnull := hsound.head hi
    rw [hprev, hinit c hc] at hnull
    exact (kmallocOrder_blockOrder c hc).1 (Word.num.inj hnull)
  · intro hle calls u outs hmeets hrun
    have hstart : Inv A (· < slabOrderCount) (fun d n => if d ≤ 3 then n = 0 else n ≤ buddyOrderMax)
        ⟨s, []⟩ fun _ => none := by
      apply inv_start hok
      · intro d hd
        rw [hinit d hd]
        exact ⟨kmallocOrder_sized hd, rfl⟩
      · intro d hd
        rw [hinit d hd]
        by_cases hd3 : d ≤ 3
        · rw [if_pos hd3, if_pos hd3]
          exact ⟨rfl, (kmallocOrder_blockOrder d hd).2 hd3⟩
        · have := (kmallocOrder_sized hd).order
          rw [if_neg hd3, if_neg hd3]
          unfold buddyOrderMax buddyExponMax buddyExponMin
          omega
      · intro d n hn
        split at hn
        · omega
        · exact hn
    obtain ⟨g, hinv⟩ := run_inv (fun hcall => hcall) ⟨_, hstart⟩ hmeets hrun
    exact hinv.listSound hc fun n hn => by rwa [if_pos hle] at hn

theorem someOrders_lists : (∃ r, bumpBuddies.alloc (bumpHeap someOrders)
      ((bumpHeap someOrders).slabs 4).slabSize = .ok r) ∧
    ((∀ (calls : List SlabCall) (u : SlabState Bump) (outs : List Nat),
      Meets (slabStep bumpBuddies) (fun t call => call.Allowed (· < slabOrderCount) t)
        ⟨bumpHeap someOrders, []⟩ calls →
      run (slabStep bumpBuddies) ⟨bumpHeap someOrders, []⟩ calls = .ok (u, outs) →
      ∃ l, ListSound bumpBuddies u 4 l) ↔ 4 ≤ 3) := by
  have halloc : ∃ r, bumpBuddies.alloc (bumpHeap someOrders)
      ((bumpHeap someOrders).slabs 4).slabSize = .ok r ∧ True := by
    decide +kernel
  obtain ⟨r, halloc, -⟩ := halloc
  have hinit : ∀ c < slabOrderCount, (bumpHeap someOrders).slabs c = kmallocOrder c :=
    fun c hc => if_pos hc
  exact ⟨⟨r, halloc⟩, slab_lists_sound_iff bumpBuddies (bumpHeap_ok someOrders) hinit (by decide)
    halloc⟩

/-- The first slab of 256-byte objects: `prev_slab` is 1. -/
theorem twoPageSlab_prev :
    Meets (slabStep bumpBuddies) (fun t call => call.Allowed (· < slabOrderCount) t)
      ⟨bumpHeap someOrders, []⟩ [.alloc 4] ∧
    ∃ r, run (slabStep bumpBuddies) ⟨bumpHeap someOrders, []⟩ [.alloc 4] = .ok r ∧
      (r.1.heap.desc 2).buddyOrder = .num 1 ∧ ∀ l, ¬ ListSound bumpBuddies r.1 4 l := by
  have hmeets : Meets (slabStep bumpBuddies) (fun t call => call.Allowed (· < slabOrderCount) t)
      ⟨bumpHeap someOrders, []⟩ [.alloc 4] := by
    decide +kernel
  have hrun : ∃ r, run (slabStep bumpBuddies) ⟨bumpHeap someOrders, []⟩ [.alloc 4] = .ok r ∧
      (r.1.heap.desc 2).buddyOrder = .num 1 ∧ (r.1.heap.slabs 4).freeSlab = some 2 := by
    decide +kernel
  obtain ⟨r, hrun, hprev, hhead⟩ := hrun
  refine ⟨hmeets, r, hrun, hprev, fun l hl => ?_⟩
  have hnull := hl.head hhead
  rw [hprev] at hnull
  cases hnull

end X86Kernel.Heap
