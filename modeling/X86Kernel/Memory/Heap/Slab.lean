import X86Kernel.Lib.Run
import X86Kernel.Memory.Heap.FreeLists
import X86Kernel.Memory.Heap.Buddy

/- Slabs: the objects of a slab order (`alloc_slab`, `free_slab`).

   The allocator of blocks under the slabs is a parameter (`Buddies`): it hands out
   blocks that are aligned to their sizes and overlap no block that is out, leaves
   the descriptors and the memory of blocks that are out alone, and keeps nothing of
   its own in them. Which blocks are out is a history variable of the world.

   The abstract state is one `Slab` for each block the slab code holds: the order it
   belongs to and its free objects, in the order of the list that is kept in the
   objects themselves. `Inv` relates it to the heap: every descriptor and every
   free object is as the code reads it, the slabs with free objects are the list of
   their order, and what is live is what is not free.

   What is proved here: a change inside one block keeps `Inv` where the block, the
   lists and the live objects agree again after it (`Inv.local_update`), and so does
   `alloc_slab` where the list of the order is not empty (`Inv.allocFromSlab`). -/
namespace X86Kernel.Heap
open X86Kernel.Lib

variable {ω : Type}

/-- The address is in the block. -/
def Inside (base size x : Nat) : Prop := base ≤ x ∧ x < base + size

/-- Descriptor and memory at the addresses of `P` are the same. -/
structure Keeps (W : World ω) (s s' : HeapVars ω) (P : Nat → Prop) : Prop where
  descOf : ∀ {x}, P x → descOf W s' x = descOf W s x
  desc : ∀ {x}, P x → s'.desc (Heap.descOf W s x) = s.desc (Heap.descOf W s x)
  mem : ∀ {x}, P x → s'.mem x = s.mem x

/-- An allocator of blocks, as the slab code relies on it. -/
structure Buddies (W : World ω) where
  alloc : HeapVars ω → Nat → Kernel (HeapVars ω × Nat)
  free : HeapVars ω → Nat → Kernel (HeapVars ω)
  /-- the blocks that are out, with their sizes -/
  owned : ω → Nat → Option Nat
  Ok : HeapVars ω → Prop
  block : ∀ {s a n}, Ok s → owned s.world a = some n →
    ∃ k ≤ buddyOrderMax, n = 2 ^ (buddyExponMin + k) ∧ n ∣ a ∧ a ≠ 0 ∧ a + n ≤ 2 ^ 32
  apart : ∀ {s a n b m x}, Ok s → owned s.world a = some n → owned s.world b = some m →
    Inside a n x → Inside b m x → a = b
  inj : ∀ {s a n b m x y}, Ok s → owned s.world a = some n → owned s.world b = some m →
    Inside a n x → Inside b m y → descOf W s x = descOf W s y → x / pageSize = y / pageSize
  alloc_spec : ∀ {s s' a k}, Ok s → alloc s (2 ^ (buddyExponMin + k)) = .ok (s', a) →
    Ok s' ∧ owned s.world a = none ∧
    owned s'.world = Function.update (owned s.world) a (some (2 ^ (buddyExponMin + k))) ∧
    s'.slabs = s.slabs ∧
    Keeps W s s' (fun x => ∃ b m, owned s.world b = some m ∧ Inside b m x) ∧
    (s'.desc (descOf W s' a)).flags.vfree = false ∧ (s'.desc (descOf W s' a)).flags.head = true ∧
    (s'.desc (descOf W s' a)).numPages = .num (2 ^ k) ∧
    (s'.desc (descOf W s' a)).buddyOrder = .num k
  free_spec : ∀ {s a k}, Ok s → owned s.world a = some (2 ^ (buddyExponMin + k)) →
    LiveHead (s.desc (descOf W s a)) k →
    ∃ s', free s a = .ok s' ∧ Ok s' ∧ owned s'.world = Function.update (owned s.world) a none ∧
      s'.slabs = s.slabs ∧
      Keeps W s s' fun x => ∃ b m, b ≠ a ∧ owned s.world b = some m ∧ Inside b m x
  ok_modify : ∀ {s a n x f}, Ok s → owned s.world a = some n → Inside a n x →
    (f (s.desc (descOf W s x))).flags ≠ ⟨true, true, true⟩ → Ok (s.modify (descOf W s x) f)
  ok_store : ∀ {s addr w}, Ok s → Ok (s.store addr w)
  ok_setFreeSlab : ∀ {s c p}, Ok s → Ok (s.setFreeSlab c p)

theorem Buddies.ok_at {W : World ω} (A : Buddies W) {s t : HeapVars ω} {a n x : Nat}
    {f : Desc → Desc} (hok : A.Ok t) (hworld : t.world = s.world) (ha : A.owned s.world a = some n)
    (hx : Inside a n x) (hf : (f (t.desc (descOf W s x))).flags ≠ ⟨true, true, true⟩) :
    A.Ok (t.modify (descOf W s x) f) := by
  have hd : descOf W t = descOf W s := descOf_congr hworld
  rw [← hd] at hf ⊢
  exact A.ok_modify hok (by rw [hworld]; exact ha) hx hf

theorem inside_of_page {B k x y : Nat} (hdvd : 2 ^ (buddyExponMin + k) ∣ B)
    (hy : Inside B (2 ^ (buddyExponMin + k)) y) (hpage : x / pageSize = y / pageSize) :
    Inside B (2 ^ (buddyExponMin + k)) x := by
  obtain ⟨q, rfl⟩ := hdvd
  obtain ⟨hlo, hhi⟩ := hy
  have hpow : 2 ^ (buddyExponMin + k) = pageSize * 2 ^ k := pow_add 2 12 k
  rw [hpow, Nat.mul_assoc] at hlo hhi ⊢
  have h1 : 2 ^ k * q ≤ x / pageSize := by
    rw [hpage, Nat.le_div_iff_mul_le (by decide), Nat.mul_comm]
    exact hlo
  have h2 : x / pageSize < 2 ^ k * q + 2 ^ k := by
    rw [hpage, Nat.div_lt_iff_lt_mul (by decide), Nat.mul_comm, Nat.mul_add]
    exact hhi
  rw [Nat.le_div_iff_mul_le (by decide), Nat.mul_comm] at h1
  rw [Nat.div_lt_iff_lt_mul (by decide), Nat.mul_comm, Nat.mul_add] at h2
  exact ⟨h1, h2⟩

theorem Buddies.block_of_desc {W : World ω} (A : Buddies W) {s : HeapVars ω} {a n b m x y : Nat}
    (hok : A.Ok s) (ha : A.owned s.world a = some n) (hb : A.owned s.world b = some m)
    (hx : Inside a n x) (hy : Inside b m y) (he : descOf W s x = descOf W s y) : a = b := by
  have hpage := A.inj hok ha hb hx hy he
  obtain ⟨k, -, rfl, hdvd, -⟩ := A.block hok hb
  exact A.apart hok ha hb hx (inside_of_page hdvd hy hpage)

/-! ## Slab orders and objects -/

/-- The order of the blocks of a slab order. -/
def SlabOrder.blockOrder (o : SlabOrder) : Nat := log2U32 o.slabSize - buddyExponMin

/-- The objects in a slab. -/
def SlabOrder.count (o : SlabOrder) : Nat := o.slabSize / o.objSize

/-- A slab order whose slabs have two objects at least. -/
structure Sized (o : SlabOrder) : Prop where
  slabSize : o.slabSize = 2 ^ (buddyExponMin + o.blockOrder)
  order : o.blockOrder ≤ 6
  objSize : 8 ≤ o.objSize
  two : 2 * o.objSize ≤ o.slabSize
  kind : o.slabOrder < slabOrderCount ∨ o.slabOrder = slabCustomOrder

/-- `x` is the address of an object of the slab at `base`. -/
def IsObj (o : SlabOrder) (base x : Nat) : Prop := ∃ i < o.count, x = base + i * o.objSize

theorem Sized.count_two {o : SlabOrder} (h : Sized o) : 2 ≤ o.count := by
  have hz := h.objSize
  rw [SlabOrder.count, Nat.le_div_iff_mul_le (by omega)]
  exact h.two

theorem Sized.count_mul {o : SlabOrder} (_ : Sized o) : o.count * o.objSize ≤ o.slabSize :=
  Nat.div_mul_le_self _ _

theorem Sized.slabSize_le {o : SlabOrder} (h : Sized o) : o.slabSize ≤ 2 ^ 18 := by
  rw [h.slabSize]
  exact Nat.pow_le_pow_right (by decide) (by have := h.order; unfold buddyExponMin; omega)

theorem Sized.count_lt {o : SlabOrder} (h : Sized o) : o.count < 2 ^ 16 := by
  have hz := h.objSize
  have hs := h.slabSize_le
  rw [SlabOrder.count, Nat.div_lt_iff_lt_mul (by omega)]
  omega

theorem Sized.obj_inside {o : SlabOrder} (h : Sized o) {base x : Nat} (hx : IsObj o base x) :
    base ≤ x ∧ x + o.objSize ≤ base + o.slabSize := by
  obtain ⟨i, hi, rfl⟩ := hx
  have hmul : (i + 1) * o.objSize ≤ o.count * o.objSize := Nat.mul_le_mul_right _ hi
  have hcount := h.count_mul
  rw [Nat.add_mul] at hmul
  omega

theorem obj_apart {o : SlabOrder} {base x y : Nat} (hx : IsObj o base x) (hy : IsObj o base y) :
    x = y ∨ x + o.objSize ≤ y ∨ y + o.objSize ≤ x := by
  obtain ⟨i, -, rfl⟩ := hx
  obtain ⟨j, -, rfl⟩ := hy
  rcases Nat.lt_trichotomy i j with h | h | h
  · have hmul := Nat.mul_le_mul_right o.objSize (show i + 1 ≤ j from h)
    rw [Nat.add_mul] at hmul
    omega
  · exact .inl (by rw [h])
  · have hmul := Nat.mul_le_mul_right o.objSize (show j + 1 ≤ i from h)
    rw [Nat.add_mul] at hmul
    omega

/-- The addresses of all objects, in order. -/
def objects (o : SlabOrder) (base : Nat) : List Nat :=
  (List.range o.count).map fun i => base + i * o.objSize

theorem mem_objects {o : SlabOrder} {base x : Nat} : x ∈ objects o base ↔ IsObj o base x := by
  simp only [objects, List.mem_map, List.mem_range, IsObj]
  constructor
  · rintro ⟨i, hi, rfl⟩
    exact ⟨i, hi, rfl⟩
  · rintro ⟨i, hi, rfl⟩
    exact ⟨i, hi, rfl⟩

theorem Sized.nodup_objects {o : SlabOrder} (h : Sized o) (base : Nat) : (objects o base).Nodup :=
    by
  apply List.Nodup.map _ (List.nodup_range)
  intro i j hij
  have hz := h.objSize
  have hij' : i * o.objSize = j * o.objSize := by
    simpa using hij
  exact Nat.eq_of_mul_eq_mul_right (by omega) hij'

/-! ## Slabs -/

/-- A slab: the order it belongs to and its free objects. -/
structure Slab where
  cache : Nat
  free : List Nat

/-- The list that is kept in the free objects. -/
def NodeChain (mem : Nat → Word) : List Nat → Prop
  | [] => True
  | a :: l => mem (a + 4) = .num (l.headD 0) ∧ NodeChain mem l

theorem NodeChain.congr {mem mem' : Nat → Word} : ∀ {l : List Nat}, NodeChain mem l →
    (∀ a ∈ l, mem' (a + 4) = mem (a + 4)) → NodeChain mem' l := by
  intro l
  induction l with
  | nil => intros; trivial
  | cons a l ih =>
    intro h hsame
    refine ⟨by rw [hsame a (by simp)]; exact h.1, ?_⟩
    exact ih h.2 fun b hb => hsame b (List.mem_cons_of_mem _ hb)

/-- The heap holds the slab `sl` at `base`; the links to other slabs apart. -/
structure SlabAt (W : World ω) (s : HeapVars ω) (base : Nat) (sl : Slab) : Prop where
  flags : (s.desc (descOf W s base)).flags = ⟨false, false, true⟩
  numPages : (s.desc (descOf W s base)).numPages = .num (2 ^ (s.slabs sl.cache).blockOrder)
  objCount : (s.desc (descOf W s base)).objCount = (s.slabs sl.cache).count
  usedCount : (s.desc (descOf W s base)).usedCount + sl.free.length = (s.slabs sl.cache).count
  orderCache : (s.desc (descOf W s base)).buddyCache = .slabs sl.cache
  freeNode : (s.desc (descOf W s base)).nextFree = .num (sl.free.headD 0)
  tail : ∀ {x}, Inside base (s.slabs sl.cache).slabSize x → descOf W s x ≠ descOf W s base →
    (s.desc (descOf W s x)).flags.buddy = false ∧ (s.desc (descOf W s x)).flags.head = false ∧
    (s.desc (descOf W s x)).numPages = .page (descOf W s base)
  objs : ∀ {x}, x ∈ sl.free → IsObj (s.slabs sl.cache) base x
  nodup : sl.free.Nodup
  chain : NodeChain s.mem sl.free
  used : sl.free.length < (s.slabs sl.cache).count

/-- The two descriptors differ in the links between slabs only. -/
def SameSlab (d d' : Desc) : Prop := ∃ p q, d' = { d with prevFree := p, buddyOrder := q }

theorem SameSlab.refl (d : Desc) : SameSlab d d := ⟨d.prevFree, d.buddyOrder, rfl⟩

theorem SlabAt.congr {W : World ω} {s s' : HeapVars ω} {base : Nat} {sl : Slab}
    (h : SlabAt W s base sl) (hsizes : (s'.slabs sl.cache).objSize = (s.slabs sl.cache).objSize ∧
      (s'.slabs sl.cache).slabSize = (s.slabs sl.cache).slabSize)
    (hd : ∀ {x}, Inside base (s.slabs sl.cache).slabSize x → descOf W s' x = descOf W s x ∧
      SameSlab (s.desc (descOf W s x)) (s'.desc (descOf W s x)))
    (hbase : Inside base (s.slabs sl.cache).slabSize base)
    (hmem : ∀ x ∈ sl.free, s'.mem (x + 4) = s.mem (x + 4)) : SlabAt W s' base sl := by
  obtain ⟨hz, hS⟩ := hsizes
  have hcount : (s'.slabs sl.cache).count = (s.slabs sl.cache).count := by
    rw [SlabOrder.count, SlabOrder.count, hz, hS]
  have hk : (s'.slabs sl.cache).blockOrder = (s.slabs sl.cache).blockOrder := by
    rw [SlabOrder.blockOrder, SlabOrder.blockOrder, hS]
  obtain ⟨hbase', p, q, hdesc⟩ := hd hbase
  constructor
  · rw [hbase', hdesc]; exact h.flags
  · rw [hbase', hdesc, hk]; exact h.numPages
  · rw [hbase', hdesc, hcount]; exact h.objCount
  · rw [hbase', hdesc, hcount]; exact h.usedCount
  · rw [hbase', hdesc]; exact h.orderCache
  · rw [hbase', hdesc]; exact h.freeNode
  · intro x hx hne
    rw [hS] at hx
    obtain ⟨hx', p', q', hdx⟩ := hd hx
    rw [hx', hbase'] at hne ⊢
    rw [hdx]
    exact h.tail hx hne
  · intro x hx
    obtain ⟨i, hi, hxi⟩ := h.objs hx
    exact ⟨i, by rw [hcount]; exact hi, by rw [hz]; exact hxi⟩
  · exact h.nodup
  · exact h.chain.congr hmem
  · rw [hcount]; exact h.used

/-! ## The invariant -/

def nextSlabOf (s : HeapVars ω) (i : Nat) : Option Nat := (s.desc i).prevFree.ptr?
def prevSlabOf (s : HeapVars ω) (i : Nat) : Option Nat := (s.desc i).buddyOrder.ptr?

/-- A word that can stand in `prev_slab`: a pointer to a descriptor, or a number that
a block had as its order. -/
def PrevWord (G : Nat → Prop) (w : Word) : Prop := (∃ n, w = .num n ∧ G n) ∨ ∃ i, w = .page i

/-- The list of a slab order holds the slabs at these addresses. -/
structure Avail (W : World ω) (G : Nat → Prop) (s : HeapVars ω) (c : Nat) (l : List Nat) :
    Prop where
  nodup : (l.map (descOf W s)).Nodup
  linked : Linked (nextSlabOf s) (prevSlabOf s) none (s.slabs c).freeSlab (l.map (descOf W s))
  next : ∀ {B}, B ∈ l → (s.desc (descOf W s B)).prevFree.IsPtr
  prev : ∀ {B}, B ∈ l → PrevWord G (s.desc (descOf W s B)).buddyOrder

/-- The heap, and the objects that are live with the orders they are of. -/
structure SlabState (ω : Type) where
  heap : HeapVars ω
  live : List (Nat × Nat)

/-- What holds between calls, for the slab orders of `C`; `G c n` says that `n` may
be left in `prev_slab` by the block allocator. -/
structure Inv {W : World ω} (A : Buddies W) (C : Nat → Prop) (G : Nat → Nat → Prop)
    (s : SlabState ω) (g : Nat → Option Slab) : Prop where
  ok : A.Ok s.heap
  sized : ∀ {c}, C c → Sized (s.heap.slabs c)
  garbage : ∀ {c}, C c → G c 0 ∧ G c (s.heap.slabs c).blockOrder
  low : ∀ {c n}, G c n → n ≤ buddyOrderMax
  cache : ∀ {B sl}, g B = some sl → C sl.cache
  owned : ∀ {B sl}, g B = some sl →
    A.owned s.heap.world B = some (s.heap.slabs sl.cache).slabSize
  slab : ∀ {B sl}, g B = some sl → SlabAt W s.heap B sl
  avail : ∀ {c}, C c → ∃ l, Avail W (G c) s.heap c l ∧
    ∀ B, B ∈ l ↔ ∃ sl, g B = some sl ∧ sl.cache = c ∧ sl.free ≠ []
  live : ∀ a c, (a, c) ∈ s.live ↔ ∃ B sl, g B = some sl ∧ sl.cache = c ∧
    IsObj (s.heap.slabs c) B a ∧ a ∉ sl.free
  nodup : s.live.Nodup

section Inv

variable {W : World ω} {A : Buddies W} {C : Nat → Prop} {G : Nat → Nat → Prop} {s : SlabState ω}
  {g : Nat → Option Slab} (h : Inv A C G s g)
include h

theorem Inv.size {B : Nat} {sl : Slab} (hB : g B = some sl) : Sized (s.heap.slabs sl.cache) :=
  h.sized (h.cache hB)

theorem Inv.base_inside {B : Nat} {sl : Slab} (hB : g B = some sl) :
    Inside B (s.heap.slabs sl.cache).slabSize B := by
  have hS := (h.size hB).slabSize
  have hpos := Nat.two_pow_pos (buddyExponMin + (s.heap.slabs sl.cache).blockOrder)
  exact ⟨Nat.le_refl _, by omega⟩

theorem Inv.obj_inside {B x : Nat} {sl : Slab} (hB : g B = some sl)
    (hx : IsObj (s.heap.slabs sl.cache) B x) : Inside B (s.heap.slabs sl.cache).slabSize x := by
  have hin := (h.size hB).obj_inside hx
  have hz := (h.size hB).objSize
  exact ⟨hin.1, by omega⟩

theorem Inv.slab_unique {B B' x : Nat} {sl sl' : Slab} (hB : g B = some sl) (hB' : g B' = some sl')
    (hx : Inside B (s.heap.slabs sl.cache).slabSize x)
    (hx' : Inside B' (s.heap.slabs sl'.cache).slabSize x) : B = B' :=
  A.apart h.ok (h.owned hB) (h.owned hB') hx hx'

theorem Inv.base_aligned {B : Nat} {sl : Slab} (hB : g B = some sl) :
    (s.heap.slabs sl.cache).slabSize ∣ B ∧ B ≠ 0 ∧
      B + (s.heap.slabs sl.cache).slabSize ≤ 2 ^ 32 := by
  obtain ⟨k, -, -, hdvd, hne, hend⟩ := A.block h.ok (h.owned hB)
  exact ⟨hdvd, hne, hend⟩

theorem Inv.page_le {B : Nat} {sl : Slab} (hB : g B = some sl) : pageSize ∣ B := by
  obtain ⟨hdvd, -⟩ := h.base_aligned hB
  rw [(h.size hB).slabSize] at hdvd
  exact Dvd.dvd.trans ⟨2 ^ _, pow_add 2 12 _⟩ hdvd

theorem Inv.low_free {B : Nat} {sl : Slab} (hB : g B = some sl) : pageSize ≤ B := by
  obtain ⟨q, hq⟩ := h.page_le hB
  have hne := (h.base_aligned hB).2.1
  cases q with
  | zero => exact absurd hq hne
  | succ q => rw [hq]; exact Nat.le_mul_of_pos_right _ (Nat.succ_pos q)

theorem Inv.slab_of_desc {B B' x y : Nat} {sl sl' : Slab} (hB : g B = some sl)
    (hB' : g B' = some sl') (hx : Inside B (s.heap.slabs sl.cache).slabSize x)
    (hy : Inside B' (s.heap.slabs sl'.cache).slabSize y)
    (he : descOf W s.heap x = descOf W s.heap y) : B = B' :=
  A.block_of_desc h.ok (h.owned hB) (h.owned hB') hx hy he

theorem Inv.base_ne {B B' : Nat} {sl sl' : Slab} (hB : g B = some sl) (hB' : g B' = some sl')
    (hne : B ≠ B') : descOf W s.heap B ≠ descOf W s.heap B' :=
  fun e => hne (h.slab_of_desc hB hB' (h.base_inside hB) (h.base_inside hB') e)

end Inv

/-! ## Changes inside one slab -/

theorem setFreeSlab_self (s : HeapVars ω) (c : Nat) (p : Option Nat) :
    ((s.setFreeSlab c p).slabs c).freeSlab = p := by
  simp [HeapVars.setFreeSlab]

theorem setFreeSlab_other (s : HeapVars ω) {c c' : Nat} (p : Option Nat) (hc : c' ≠ c) :
    (s.setFreeSlab c p).slabs c' = s.slabs c' := if_neg hc

/-- The heap changes in the block at `B` only, apart from the links between slabs
and the lowest page of the memory. -/
structure Local (W : World ω) (s t : HeapVars ω) (B n : Nat) : Prop where
  world : t.world = s.world
  sizes : ∀ c, (t.slabs c).objSize = (s.slabs c).objSize ∧
    (t.slabs c).slabSize = (s.slabs c).slabSize ∧ (t.slabs c).slabOrder = (s.slabs c).slabOrder
  desc : ∀ i, (∃ x, Inside B n x ∧ i = descOf W s x) ∨ SameSlab (s.desc i) (t.desc i)
  mem : ∀ x, ¬ Inside B n x → pageSize ≤ x → t.mem x = s.mem x

section Local

variable {W : World ω} {s t : HeapVars ω} {B n : Nat}

theorem Local.refl (s : HeapVars ω) (B n : Nat) : Local W s s B n :=
  ⟨rfl, fun _ => ⟨rfl, rfl, rfl⟩, fun _ => .inr (.refl _), fun _ _ _ => rfl⟩

theorem Local.trans {r : HeapVars ω} (h : Local W s t B n) (h' : Local W t r B n) :
    Local W s r B n := by
  have hd : descOf W t = descOf W s := descOf_congr h.world
  refine ⟨h'.world.trans h.world, ?_, ?_, ?_⟩
  · intro c
    obtain ⟨h₁, h₂, h₃⟩ := h.sizes c
    obtain ⟨h₁', h₂', h₃'⟩ := h'.sizes c
    exact ⟨h₁'.trans h₁, h₂'.trans h₂, h₃'.trans h₃⟩
  · intro i
    rcases h.desc i with hin | ⟨p, q, hpq⟩
    · exact .inl hin
    · rcases h'.desc i with hin | ⟨p', q', hpq'⟩
      · rw [hd] at hin
        exact .inl hin
      · exact .inr ⟨p', q', by rw [hpq', hpq]⟩
  · intro x hx hlow
    rw [h'.mem x hx hlow, h.mem x hx hlow]

theorem Local.modify {x : Nat} (hx : Inside B n x) (f : Desc → Desc) :
    Local W s (s.modify (descOf W s x) f) B n := by
  refine ⟨rfl, fun _ => ⟨rfl, rfl, rfl⟩, fun i => ?_, fun _ _ _ => rfl⟩
  by_cases hi : i = descOf W s x
  · exact .inl ⟨x, hx, hi⟩
  · right
    simp only [HeapVars.modify, if_neg hi]
    exact .refl _

theorem Local.andModify {x : Nat} (h : Local W s t B n) (hx : Inside B n x) (f : Desc → Desc) :
    Local W s (t.modify (descOf W s x) f) B n := by
  have h' : Local W t (t.modify (descOf W t x) f) B n := .modify hx f
  rw [descOf_congr h.world] at h'
  exact h.trans h'

theorem Local.links (i : Nat) (f : Desc → Desc) (hf : ∀ d, SameSlab d (f d)) :
    Local W s (s.modify i f) B n := by
  refine ⟨rfl, fun _ => ⟨rfl, rfl, rfl⟩, fun j => .inr ?_, fun _ _ _ => rfl⟩
  by_cases hj : j = i
  · subst hj
    simp only [HeapVars.modify, if_true]
    exact hf _
  · simp only [HeapVars.modify, if_neg hj]
    exact .refl _

theorem Local.store {addr : Nat} (ha : Inside B n addr ∨ addr < pageSize) (w : Word) :
    Local W s (s.store addr w) B n := by
  refine ⟨rfl, fun _ => ⟨rfl, rfl, rfl⟩, fun i => .inr (.refl _), ?_⟩
  intro x hx hlow
  apply if_neg
  intro e
  rcases ha with ha | ha
  · exact hx (e ▸ ha)
  · omega

theorem Local.setFreeSlab (c : Nat) (p : Option Nat) : Local W s (s.setFreeSlab c p) B n := by
  refine ⟨rfl, fun c' => ?_, fun i => .inr (.refl _), fun _ _ _ => rfl⟩
  by_cases hc : c' = c
  · simp [HeapVars.setFreeSlab, hc]
  · simp [HeapVars.setFreeSlab, hc]

theorem Local.count_eq (h : Local W s t B n) (c : Nat) :
    (t.slabs c).count = (s.slabs c).count := by
  obtain ⟨h₁, h₂, -⟩ := h.sizes c
  rw [SlabOrder.count, SlabOrder.count, h₁, h₂]

theorem Local.blockOrder_eq (h : Local W s t B n) (c : Nat) :
    (t.slabs c).blockOrder = (s.slabs c).blockOrder := by
  obtain ⟨-, h₂, -⟩ := h.sizes c
  rw [SlabOrder.blockOrder, SlabOrder.blockOrder, h₂]

theorem Local.isObj_iff (h : Local W s t B n) (c base x : Nat) :
    IsObj (t.slabs c) base x ↔ IsObj (s.slabs c) base x := by
  rw [IsObj, IsObj, h.count_eq, (h.sizes c).1]

theorem Local.sized (h : Local W s t B n) {c : Nat} (hc : Sized (s.slabs c)) :
    Sized (t.slabs c) := by
  obtain ⟨h₁, h₂, h₃⟩ := h.sizes c
  constructor
  · rw [h₂, h.blockOrder_eq]; exact hc.slabSize
  · rw [h.blockOrder_eq]; exact hc.order
  · rw [h₁]; exact hc.objSize
  · rw [h₁, h₂]; exact hc.two
  · rw [h₃]; exact hc.kind

end Local

/-- One block changes: it is a slab before or becomes one, and stays one or ceases
to be one. -/
theorem Inv.local_update {W : World ω} {A : Buddies W} {C : Nat → Prop} {G : Nat → Nat → Prop}
    {s : SlabState ω} {g : Nat → Option Slab} (h : Inv A C G s g) {t : HeapVars ω} {B n : Nat}
    {live' : List (Nat × Nat)} {new : Option Slab} (hlocal : Local W s.heap t B n) (hok : A.Ok t)
    (hB : A.owned s.heap.world B = some n)
    (hnew : ∀ sl, new = some sl → C sl.cache ∧ (t.slabs sl.cache).slabSize = n ∧ SlabAt W t B sl)
    (havail : ∀ {c}, C c → ∃ l, Avail W (G c) t c l ∧
      ∀ B', B' ∈ l ↔ ∃ sl, Function.update g B new B' = some sl ∧ sl.cache = c ∧ sl.free ≠ [])
    (hlive : ∀ a c, (a, c) ∈ live' ↔ (∃ B' sl, B' ≠ B ∧ g B' = some sl ∧ sl.cache = c ∧
        IsObj (s.heap.slabs c) B' a ∧ a ∉ sl.free) ∨
      ∃ sl, new = some sl ∧ sl.cache = c ∧ IsObj (s.heap.slabs c) B a ∧ a ∉ sl.free)
    (hnodup : live'.Nodup) : Inv A C G ⟨t, live'⟩ (Function.update g B new) := by
  have hd : descOf W t = descOf W s.heap := descOf_congr hlocal.world
  -- slabs elsewhere
  have hother : ∀ {B' sl}, B' ≠ B → g B' = some sl → SlabAt W t B' sl := by
    intro B' sl hne hB'
    have howned := h.owned hB'
    have hapart : ∀ {x}, Inside B' (s.heap.slabs sl.cache).slabSize x → ¬ Inside B n x :=
      fun hx hx' => hne (A.apart h.ok howned hB hx hx')
    apply (h.slab hB').congr ⟨(hlocal.sizes _).1, (hlocal.sizes _).2.1⟩ _ (h.base_inside hB')
    · intro x hx
      have hin := h.obj_inside hB' ((h.slab hB').objs hx)
      have hobj := (h.size hB').obj_inside ((h.slab hB').objs hx)
      have hz := (h.size hB').objSize
      apply hlocal.mem
      · exact hapart ⟨by omega, by omega⟩
      · have := h.low_free hB'
        omega
    · intro x hx
      refine ⟨by rw [hd], ?_⟩
      rcases hlocal.desc (descOf W s.heap x) with ⟨y, hy, he⟩ | hsame
      · exact absurd (A.block_of_desc h.ok howned hB hx hy he) hne
      · exact hsame
  have hcases : ∀ {B' sl}, Function.update g B new B' = some sl →
      (B' = B ∧ new = some sl) ∨ (B' ≠ B ∧ g B' = some sl) := by
    intro B' sl hB'
    by_cases he : B' = B
    · subst he
      rw [Function.update_self] at hB'
      exact .inl ⟨rfl, hB'⟩
    · rw [Function.update_of_ne he] at hB'
      exact .inr ⟨he, hB'⟩
  constructor
  · exact hok
  · intro c hc
    exact hlocal.sized (h.sized hc)
  · intro c hc
    show G c 0 ∧ G c (t.slabs c).blockOrder
    rw [hlocal.blockOrder_eq]
    exact h.garbage hc
  · exact h.low
  · intro B' sl hB'
    rcases hcases hB' with ⟨-, he⟩ | ⟨-, hg⟩
    · exact (hnew sl he).1
    · exact h.cache hg
  · intro B' sl hB'
    show A.owned t.world B' = some (t.slabs sl.cache).slabSize
    rw [hlocal.world]
    rcases hcases hB' with ⟨rfl, he⟩ | ⟨-, hg⟩
    · rw [(hnew sl he).2.1]
      exact hB
    · rw [(hlocal.sizes _).2.1]
      exact h.owned hg
  · intro B' sl hB'
    rcases hcases hB' with ⟨rfl, he⟩ | ⟨hne, hg⟩
    · exact (hnew sl he).2.2
    · exact hother hne hg
  · exact havail
  · intro a c
    rw [hlive]
    simp only [hlocal.isObj_iff]
    constructor
    · rintro (⟨B', sl, hne, hg, hrest⟩ | ⟨sl, he, hrest⟩)
      · exact ⟨B', sl, by rw [Function.update_of_ne hne]; exact hg, hrest⟩
      · exact ⟨B, sl, by rw [Function.update_self]; exact he, hrest⟩
    · rintro ⟨B', sl, hB', hrest⟩
      rcases hcases hB' with ⟨rfl, he⟩ | ⟨hne, hg⟩
      · exact .inr ⟨sl, he, hrest⟩
      · exact .inl ⟨B', sl, hne, hg, hrest⟩
  · exact hnodup

/-! ## The list of a slab order -/

section Avail

variable {W : World ω} {G : Nat → Prop} {s t : HeapVars ω} {c B : Nat} {l : List Nat}

theorem Avail.congr (h : Avail W G s c l) (hd : ∀ B ∈ l, descOf W t B = descOf W s B)
    (hhead : (t.slabs c).freeSlab = (s.slabs c).freeSlab)
    (hlinks : ∀ B ∈ l, (t.desc (descOf W s B)).prevFree = (s.desc (descOf W s B)).prevFree ∧
      (t.desc (descOf W s B)).buddyOrder = (s.desc (descOf W s B)).buddyOrder) :
    Avail W G t c l := by
  have hmap : l.map (descOf W t) = l.map (descOf W s) := List.map_congr_left hd
  constructor
  · rw [hmap]; exact h.nodup
  · rw [hmap, hhead]
    apply h.linked.congr
    intro i hi
    obtain ⟨B, hB, rfl⟩ := List.mem_map.1 hi
    exact ⟨congrArg Word.ptr? (hlinks B hB).1, congrArg Word.ptr? (hlinks B hB).2⟩
  · intro B hB
    rw [hd B hB, (hlinks B hB).1]
    exact h.next hB
  · intro B hB
    rw [hd B hB, (hlinks B hB).2]
    exact h.prev hB

theorem Avail.push (h : Avail W G s c l) (hzero : G 0) (hd : descOf W t = descOf W s)
    (hB : descOf W s B ∉ l.map (descOf W s))
    (hhead : (t.slabs c).freeSlab = some (descOf W s B))
    (hnext : (t.desc (descOf W s B)).prevFree = .ofPtr (s.slabs c).freeSlab)
    (hprev : (t.desc (descOf W s B)).buddyOrder = .num 0)
    (hlinks : ∀ B' ∈ l, (t.desc (descOf W s B')).prevFree = (s.desc (descOf W s B')).prevFree ∧
      (t.desc (descOf W s B')).buddyOrder =
        if (s.slabs c).freeSlab = some (descOf W s B') then .page (descOf W s B)
        else (s.desc (descOf W s B')).buddyOrder) : Avail W G t c (B :: l) := by
  constructor
  · rw [hd, List.map_cons]
    exact List.nodup_cons.2 ⟨hB, h.nodup⟩
  · rw [hd, List.map_cons, hhead]
    apply h.linked.push hB h.nodup
    · rw [nextSlabOf, hnext, ptr?_ofPtr]
    · rw [prevSlabOf, hprev]
      rfl
    · intro i hi
      obtain ⟨B', hB', rfl⟩ := List.mem_map.1 hi
      exact congrArg Word.ptr? (hlinks B' hB').1
    · intro i hi
      obtain ⟨B', hB', rfl⟩ := List.mem_map.1 hi
      rw [prevSlabOf, (hlinks B' hB').2]
      split <;> rfl
  · intro B' hB'
    rw [hd]
    rcases List.mem_cons.1 hB' with rfl | hB'
    · rw [hnext]
      exact isPtr_ofPtr _
    · rw [(hlinks B' hB').1]
      exact h.next hB'
  · intro B' hB'
    rw [hd]
    rcases List.mem_cons.1 hB' with rfl | hB'
    · exact .inl ⟨0, hprev, hzero⟩
    · rw [(hlinks B' hB').2]
      split
      · exact .inr ⟨_, rfl⟩
      · exact h.prev hB'

/-- A slab leaves the list. `w` is what the slab after it gets as the one before. -/
theorem Avail.remove {w : Word} (h : Avail W G s c l) (hd : descOf W t = descOf W s) (hB : B ∈ l)
    (hw : PrevWord G w) (hwp : w.ptr? = prevSlabOf s (descOf W s B))
    (hhead : (t.slabs c).freeSlab = if (s.slabs c).freeSlab = some (descOf W s B) then
      nextSlabOf s (descOf W s B) else (s.slabs c).freeSlab)
    (hlinks : ∀ B' ∈ l, descOf W s B' ≠ descOf W s B →
      (t.desc (descOf W s B')).prevFree =
      (if prevSlabOf s (descOf W s B) = some (descOf W s B') then
        (s.desc (descOf W s B)).prevFree else (s.desc (descOf W s B')).prevFree) ∧
      (t.desc (descOf W s B')).buddyOrder =
        if nextSlabOf s (descOf W s B) = some (descOf W s B') then w
        else (s.desc (descOf W s B')).buddyOrder) : Avail W G t c (l.erase B) := by
  have hmem : descOf W s B ∈ l.map (descOf W s) := List.mem_map_of_mem hB
  have hnodup : l.Nodup := h.nodup.of_map _
  have hinj : ∀ x ∈ l, descOf W s x = descOf W s B → x = B :=
    fun x hx e => List.inj_on_of_nodup_map h.nodup hx hB e
  have hmap : (l.map (descOf W s)).erase (descOf W s B) = (l.erase B).map (descOf W s) :=
    map_erase_of_inj hinj
  have hne : ∀ B' ∈ l.erase B, B' ∈ l ∧ descOf W s B' ≠ descOf W s B := by
    intro B' hB'
    obtain ⟨hne, hB'⟩ := hnodup.mem_erase_iff.1 hB'
    exact ⟨hB', fun e => hne (hinj B' hB' e)⟩
  constructor
  · rw [hd, ← hmap]
    exact h.nodup.erase _
  · have hlist : Linked (nextSlabOf t) (prevSlabOf t) none
        (if prevSlabOf s (descOf W s B) = none then nextSlabOf s (descOf W s B)
          else (s.slabs c).freeSlab) ((l.map (descOf W s)).erase (descOf W s B)) := by
      apply h.linked.unlink hmem h.nodup
      · intro i hi hine
        obtain ⟨B', hB', rfl⟩ := List.mem_map.1 hi
        rw [nextSlabOf, (hlinks B' hB' hine).1]
        split <;> rfl
      · intro i hi hine
        obtain ⟨B', hB', rfl⟩ := List.mem_map.1 hi
        rw [prevSlabOf, (hlinks B' hB' hine).2]
        split
        · exact hwp
        · rfl
    rw [hd, ← hmap, hhead]
    simpa only [h.linked.prev_eq_none_iff hmem h.nodup] using hlist
  · intro B' hB'
    obtain ⟨hB', hne⟩ := hne B' hB'
    rw [hd, (hlinks B' hB' hne).1]
    split
    · exact h.next hB
    · exact h.next hB'
  · intro B' hB'
    obtain ⟨hB', hne⟩ := hne B' hB'
    rw [hd, (hlinks B' hB' hne).2]
    split
    · exact hw
    · exact h.prev hB'

end Avail

/-! ## An object is handed out -/

theorem objCount_setCounts (d : Desc) (n u : Nat) : (d.setCounts n u).objCount = n % 2 ^ 16 := by
  simp only [Desc.setCounts, Desc.objCount]
  omega

theorem usedCount_setCounts (d : Desc) (n u : Nat) : (d.setCounts n u).usedCount = u % 2 ^ 16 := by
  simp only [Desc.setCounts, Desc.usedCount]
  omega

theorem setNodePrev_desc (s : HeapVars ω) (node prev : Nat) :
    (setNodePrev s node prev).desc = s.desc := by
  unfold setNodePrev
  split <;> rfl

theorem setNodePrev_world (s : HeapVars ω) (node prev : Nat) :
    (setNodePrev s node prev).world = s.world := by
  unfold setNodePrev
  split <;> rfl

theorem Buddies.ok_setNodePrev {W : World ω} (A : Buddies W) {s : HeapVars ω} (node prev : Nat)
    (hok : A.Ok s) : A.Ok (setNodePrev s node prev) := by
  unfold setNodePrev
  split
  · exact hok
  · exact A.ok_store hok

/-- The first free object of the slab is taken; `next` is the one after it. -/
def takeObj (s : HeapVars ω) (i next : Nat) : HeapVars ω :=
  (setNodePrev (s.modify i fun d => { d with nextFree := .num next }) next 0).modify i
    fun d => d.setCounts d.objCount (d.usedCount + 1)

theorem takeObj_desc (s : HeapVars ω) (i next j : Nat) :
    (takeObj s i next).desc j = if j = i then
      { (s.desc i).setCounts (s.desc i).objCount ((s.desc i).usedCount + 1) with
        nextFree := .num next } else s.desc j := by
  by_cases hn : next = 0 <;> by_cases hj : j = i <;>
    simp [takeObj, setNodePrev, HeapVars.modify, HeapVars.store, Desc.setCounts, Desc.objCount,
      Desc.usedCount, hn, hj]

theorem takeObj_links (s : HeapVars ω) (i next j : Nat) :
    ((takeObj s i next).desc j).prevFree = (s.desc j).prevFree ∧
    ((takeObj s i next).desc j).buddyOrder = (s.desc j).buddyOrder := by
  rw [takeObj_desc]
  split
  · next hj =>
    subst hj
    exact ⟨rfl, rfl⟩
  · exact ⟨rfl, rfl⟩

theorem takeObj_mem (s : HeapVars ω) (i next x : Nat) (hx : x ≠ next ∨ next = 0) :
    (takeObj s i next).mem x = s.mem x := by
  by_cases hn : next = 0
  · simp [takeObj, setNodePrev, HeapVars.modify, hn]
  · have hx' : x ≠ next := hx.resolve_right hn
    simp [takeObj, setNodePrev, HeapVars.modify, HeapVars.store, hn, hx']

theorem takeObj_world (s : HeapVars ω) (i next : Nat) : (takeObj s i next).world = s.world := by
  by_cases hn : next = 0 <;> simp [takeObj, setNodePrev, HeapVars.modify, HeapVars.store, hn]

theorem takeObj_slabs (s : HeapVars ω) (i next : Nat) : (takeObj s i next).slabs = s.slabs := by
  by_cases hn : next = 0 <;> simp [takeObj, setNodePrev, HeapVars.modify, HeapVars.store, hn]

theorem Local.setNodePrev {W : World ω} {s : HeapVars ω} {B n node : Nat} (prev : Nat)
    (hn : node = 0 ∨ Inside B n node) : Local W s (setNodePrev s node prev) B n := by
  unfold Heap.setNodePrev
  split
  · exact .refl s B n
  · next hne => exact .store (.inl (hn.resolve_left hne)) _

theorem Local.takeObj {W : World ω} {s : HeapVars ω} {B n next : Nat} (hB : Inside B n B)
    (hn : next = 0 ∨ Inside B n next) : Local W s (takeObj s (descOf W s B) next) B n := by
  have h₁ : Local W s (s.modify (descOf W s B) fun d => { d with nextFree := .num next }) B n :=
    .modify hB _
  exact (h₁.trans (Local.setNodePrev 0 hn)).andModify hB _

theorem SlabAt.takeObj {W : World ω} {s : HeapVars ω} {B c a : Nat} {F : List Nat}
    (hsized : Sized (s.slabs c)) (h : SlabAt W s B ⟨c, a :: F⟩) :
    SlabAt W (takeObj s (descOf W s B) (F.headD 0)) B ⟨c, F⟩ := by
  have hd : descOf W (Heap.takeObj s (descOf W s B) (F.headD 0)) = descOf W s :=
    descOf_congr (takeObj_world _ _ _)
  have hslabs := takeObj_slabs s (descOf W s B) (F.headD 0)
  have hused : (s.desc (descOf W s B)).usedCount + (F.length + 1) = (s.slabs c).count := h.usedCount
  have hcount := hsized.count_lt
  have hz := hsized.objSize
  constructor
  · rw [hd, takeObj_desc, if_pos rfl]; exact h.flags
  · rw [hd, takeObj_desc, if_pos rfl, hslabs]; exact h.numPages
  · rw [hd, takeObj_desc, if_pos rfl, hslabs]
    show ((s.desc (descOf W s B)).setCounts _ _).objCount = _
    rw [objCount_setCounts, h.objCount, Nat.mod_eq_of_lt hcount]
  · rw [hd, takeObj_desc, if_pos rfl, hslabs]
    show ((s.desc (descOf W s B)).setCounts _ _).usedCount + _ = _
    rw [usedCount_setCounts, Nat.mod_eq_of_lt (by omega)]
    show (s.desc (descOf W s B)).usedCount + 1 + F.length = (s.slabs c).count
    omega
  · rw [hd, takeObj_desc, if_pos rfl]; exact h.orderCache
  · rw [hd, takeObj_desc, if_pos rfl]
  · intro x hx hne
    rw [hd] at hne ⊢
    rw [hslabs] at hx
    rw [takeObj_desc, if_neg hne]
    exact h.tail hx hne
  · intro x hx
    rw [hslabs]
    exact h.objs (List.mem_cons_of_mem _ hx)
  · exact (List.nodup_cons.1 h.nodup).2
  · apply h.chain.2.congr
    intro x hx
    apply takeObj_mem
    cases F with
    | nil => exact .inr rfl
    | cons b F =>
      left
      -- an object begins at the next node, so no link of another one is there
      show x + 4 ≠ b
      have hxo : IsObj (s.slabs c) B x := h.objs (List.mem_cons_of_mem _ hx)
      have hbo : IsObj (s.slabs c) B b := h.objs (show b ∈ a :: b :: F by simp)
      have := obj_apart hxo hbo
      omega
  · rw [hslabs]
    show F.length < (s.slabs c).count
    omega

theorem Inv.live_split {W : World ω} {A : Buddies W} {C : Nat → Prop} {G : Nat → Nat → Prop}
    {s : SlabState ω} {g : Nat → Option Slab} (h : Inv A C G s g) {B : Nat} {sl : Slab}
    (hB : g B = some sl) (x c : Nat) :
    (x, c) ∈ s.live ↔ (∃ B' sl', B' ≠ B ∧ g B' = some sl' ∧ sl'.cache = c ∧
        IsObj (s.heap.slabs c) B' x ∧ x ∉ sl'.free) ∨
      (sl.cache = c ∧ IsObj (s.heap.slabs c) B x ∧ x ∉ sl.free) := by
  rw [h.live]
  constructor
  · rintro ⟨B', sl', hB', hrest⟩
    by_cases he : B' = B
    · subst he
      obtain rfl : sl' = sl := Option.some.inj (hB'.symm.trans hB)
      exact .inr hrest
    · exact .inl ⟨B', sl', he, hB', hrest⟩
  · rintro (⟨B', sl', -, hB', hrest⟩ | hrest)
    · exact ⟨B', sl', hB', hrest⟩
    · exact ⟨B, sl, hB, hrest⟩

theorem Inv.free_not_live {W : World ω} {A : Buddies W} {C : Nat → Prop} {G : Nat → Nat → Prop}
    {s : SlabState ω} {g : Nat → Option Slab} (h : Inv A C G s g) {B a c : Nat} {sl : Slab}
    (hB : g B = some sl) (ha : a ∈ sl.free) : (a, c) ∉ s.live := by
  intro hlive
  obtain ⟨B', sl', hB', rfl, hobj, hfree⟩ := (h.live a c).1 hlive
  have hin := h.obj_inside hB ((h.slab hB).objs ha)
  have hin' := h.obj_inside hB' hobj
  obtain rfl := h.slab_unique hB hB' hin hin'
  obtain rfl : sl' = sl := Option.some.inj (hB'.symm.trans hB)
  exact hfree ha

/-- `if (p) p->prev_slab = w;` for a pointer to a descriptor. -/
def linkPrev (s : HeapVars ω) (p : Option Nat) (w : Word) : HeapVars ω :=
  match p with
  | none => s
  | some j => s.modify j fun d => { d with buddyOrder := w }

theorem setPrevSlab_ofPtr (s : HeapVars ω) (p : Option Nat) (w : Word) :
    setPrevSlab s (.ofPtr p) w = .ok (linkPrev s p w) := by
  cases p <;> rfl

theorem linkPrev_desc (s : HeapVars ω) (p : Option Nat) (w : Word) (j : Nat) :
    (linkPrev s p w).desc j =
      { s.desc j with buddyOrder := if p = some j then w else (s.desc j).buddyOrder } := by
  cases p with
  | none => rfl
  | some i =>
    by_cases hj : j = i
    · simp [linkPrev, HeapVars.modify, hj]
    · simp [linkPrev, HeapVars.modify, hj, Ne.symm hj]

@[simp] theorem linkPrev_slabs (s : HeapVars ω) (p : Option Nat) (w : Word) :
    (linkPrev s p w).slabs = s.slabs := by
  cases p <;> rfl

@[simp] theorem linkPrev_world (s : HeapVars ω) (p : Option Nat) (w : Word) :
    (linkPrev s p w).world = s.world := by
  cases p <;> rfl

@[simp] theorem linkPrev_mem (s : HeapVars ω) (p : Option Nat) (w : Word) :
    (linkPrev s p w).mem = s.mem := by
  cases p <;> rfl

theorem Local.linkPrev {W : World ω} {s : HeapVars ω} {B n : Nat} (p : Option Nat) (w : Word) :
    Local W s (linkPrev s p w) B n := by
  cases p with
  | none => exact .refl s B n
  | some j => exact .links j _ fun d => ⟨d.prevFree, w, rfl⟩

section AllocFromSlab

variable {W : World ω} {A : Buddies W} {C : Nat → Prop} {G : Nat → Nat → Prop} {s : SlabState ω}
  {g : Nat → Option Slab} (h : Inv A C G s g)
include h

theorem Inv.first_slab {c i : Nat} (hc : C c) (hi : (s.heap.slabs c).freeSlab = some i) :
    ∃ B a F l, g B = some ⟨c, a :: F⟩ ∧ descOf W s.heap B = i ∧ Avail W (G c) s.heap c (B :: l) ∧
      ∀ B', B' ∈ B :: l ↔ ∃ sl, g B' = some sl ∧ sl.cache = c ∧ sl.free ≠ [] := by
  obtain ⟨l, havail, hmem⟩ := h.avail hc
  cases l with
  | nil =>
    have hnone : (s.heap.slabs c).freeSlab = none := havail.linked
    rw [hnone] at hi
    cases hi
  | cons B l =>
    obtain ⟨sl, hB, hsc, hfree⟩ := (hmem B).1 List.mem_cons_self
    have hhead : (s.heap.slabs c).freeSlab = some (descOf W s.heap B) := havail.linked.1
    obtain ⟨cache, free⟩ := sl
    obtain rfl : cache = c := hsc
    cases free with
    | nil => exact absurd rfl hfree
    | cons a F =>
      rw [hi] at hhead
      exact ⟨B, a, F, l, hB, (Option.some.inj hhead).symm, havail, hmem⟩

theorem Inv.ok_takeObj {B : Nat} {sl : Slab} (hB : g B = some sl) (next : Nat) :
    A.Ok (takeObj s.heap (descOf W s.heap B) next) := by
  have hflags := (h.slab hB).flags
  have howned := h.owned hB
  have hin := h.base_inside hB
  have h₁ := A.ok_at (f := fun d => { d with nextFree := .num next }) h.ok rfl howned hin
    (by simp [hflags])
  apply A.ok_at (s := s.heap) (A.ok_setNodePrev next 0 h₁) (setNodePrev_world _ _ _) howned hin
  simp [setNodePrev_desc, Desc.setCounts, HeapVars.modify, hflags]

theorem Inv.ok_linkPrev {t : HeapVars ω} {B j : Nat} {sl : Slab} (hok : A.Ok t)
    (hworld : t.world = s.heap.world) (hB : g B = some sl) (hj : descOf W s.heap B = j) (w : Word)
    (hflags : (t.desc j).flags ≠ ⟨true, true, true⟩) : A.Ok (linkPrev t (some j) w) := by
  rw [← hj] at hflags ⊢
  exact A.ok_at (f := fun d => { d with buddyOrder := w }) hok hworld (h.owned hB)
    (h.base_inside hB) hflags

omit h in
theorem Avail.next_slab {c : Nat} {l : List Nat} (havail : Avail W (G c) s.heap c l)
    (hmem : ∀ B', B' ∈ l ↔ ∃ sl, g B' = some sl ∧ sl.cache = c ∧ sl.free ≠ []) {B j : Nat}
    (hB : B ∈ l) (hj : nextSlabOf s.heap (descOf W s.heap B) = some j) :
    ∃ B' sl, B' ∈ l ∧ g B' = some sl ∧ sl.cache = c ∧ descOf W s.heap B' = j := by
  have hjl := havail.linked.mem_of_next (List.mem_map_of_mem hB) hj
  obtain ⟨B', hB', he⟩ := List.mem_map.1 hjl
  obtain ⟨sl, hg, hsc, -⟩ := (hmem B').1 hB'
  exact ⟨B', sl, hB', hg, hsc, he⟩

theorem Inv.live_take {B a c : Nat} {F : List Nat} (hB : g B = some ⟨c, a :: F⟩) (x c' : Nat) :
    (x, c') ∈ (a, c) :: s.live ↔ (∃ B' sl, B' ≠ B ∧ g B' = some sl ∧ sl.cache = c' ∧
        IsObj (s.heap.slabs c') B' x ∧ x ∉ sl.free) ∨
      ∃ sl, some (⟨c, F⟩ : Slab) = some sl ∧ sl.cache = c' ∧ IsObj (s.heap.slabs c') B x ∧
        x ∉ sl.free := by
  have haF : a ∉ F := (List.nodup_cons.1 (h.slab hB).nodup).1
  have hobj : IsObj (s.heap.slabs c) B a := (h.slab hB).objs (by simp)
  rw [List.mem_cons, h.live_split hB]
  constructor
  · rintro (he | hother | ⟨rfl, hx, hfree⟩)
    · obtain ⟨rfl, rfl⟩ := Prod.mk.inj he
      exact .inr ⟨_, rfl, rfl, hobj, haF⟩
    · exact .inl hother
    · exact .inr ⟨_, rfl, rfl, hx, fun hxF => hfree (List.mem_cons_of_mem _ hxF)⟩
  · rintro (hother | ⟨sl, he, rfl, hx, hfree⟩)
    · exact .inr (.inl hother)
    · obtain rfl := Option.some.inj he
      by_cases hxa : x = a
      · exact .inl (by rw [hxa])
      · exact .inr (.inr ⟨rfl, hx, fun hxF => hfree ((List.mem_cons.1 hxF).resolve_left hxa)⟩)

theorem Inv.allocFromSlab_eq {c B a : Nat} {F : List Nat} (hB : g B = some ⟨c, a :: F⟩)
    (hptr : (s.heap.desc (descOf W s.heap B)).prevFree.IsPtr) :
    Heap.allocFromSlab s.heap c (descOf W s.heap B) =
      if F = [] then
        .ok ((linkPrev (takeObj s.heap (descOf W s.heap B) (F.headD 0))
          (nextSlabOf s.heap (descOf W s.heap B)) (.num 0)).setFreeSlab c
          (nextSlabOf s.heap (descOf W s.heap B)), a)
      else .ok (takeObj s.heap (descOf W s.heap B) (F.headD 0), a) := by
  have hslab := h.slab hB
  have hsized : Sized (s.heap.slabs c) := h.size hB
  have hobj : IsObj (s.heap.slabs c) B a := hslab.objs (show a ∈ a :: F by simp)
  have ha : a ≠ 0 := by
    have hlow := h.low_free hB
    have hge := (hsized.obj_inside hobj).1
    unfold pageSize at hlow
    omega
  have hnode : (s.heap.desc (descOf W s.heap B)).nextFree.nat = .ok a := by
    rw [hslab.freeNode]
    rfl
  have hnext : nodeNext s.heap a = .ok (F.headD 0) := by
    rw [nodeNext, if_neg ha, hslab.chain.1]
    rfl
  have hat := SlabAt.takeObj hsized hslab
  have hd := descOf_congr (W := W) (takeObj_world s.heap (descOf W s.heap B) (F.headD 0))
  have hslabs := takeObj_slabs s.heap (descOf W s.heap B) (F.headD 0)
  have hused := hat.usedCount
  have hcount := hat.objCount
  rw [hd] at hused hcount
  rw [hslabs] at hused hcount
  have hfull :
    ((takeObj s.heap (descOf W s.heap B) (F.headD 0)).desc (descOf W s.heap B)).usedCount =
      ((takeObj s.heap (descOf W s.heap B) (F.headD 0)).desc (descOf W s.heap B)).objCount ↔
      F = [] := by
    rw [hcount]
    show _ = (s.heap.slabs c).count ↔ _
    rw [← List.length_eq_zero_iff]
    have : _ + F.length = (s.heap.slabs c).count := hused
    omega
  have htake : (setNodePrev (s.heap.modify (descOf W s.heap B) fun d => { d with
      nextFree := .num (F.headD 0) }) (F.headD 0) 0).modify (descOf W s.heap B)
      (fun d => d.setCounts d.objCount (d.usedCount + 1)) =
      takeObj s.heap (descOf W s.heap B) (F.headD 0) := rfl
  simp only [Heap.allocFromSlab, hnode, ok_bind, hnext, htake, hfull]
  split
  · have hword : (s.heap.desc (descOf W s.heap B)).prevFree =
        .ofPtr (nextSlabOf s.heap (descOf W s.heap B)) := hptr
    rw [(takeObj_links _ _ _ _).1, hword, setPrevSlab_ofPtr, ok_bind]
    have hself : ((linkPrev (takeObj s.heap (descOf W s.heap B) (F.headD 0))
        (nextSlabOf s.heap (descOf W s.heap B)) (.num 0)).desc (descOf W s.heap B)).prevFree =
        .ofPtr (nextSlabOf s.heap (descOf W s.heap B)) := by
      rw [linkPrev_desc]
      show ((takeObj s.heap (descOf W s.heap B) (F.headD 0)).desc _).prevFree = _
      rw [(takeObj_links _ _ _ _).1, hword]
    rw [hself, (isPtr_ofPtr _).ptr, ptr?_ofPtr]
    rfl
  · rfl

theorem Inv.allocFromSlab {c i : Nat} (hc : C c) (hi : (s.heap.slabs c).freeSlab = some i) :
    ∃ t B a F, allocFromSlab s.heap c i = .ok (t, a) ∧ g B = some ⟨c, a :: F⟩ ∧
      t.world = s.heap.world ∧
      Inv A C G ⟨t, (a, c) :: s.live⟩ (Function.update g B (some ⟨c, F⟩)) := by
  obtain ⟨B, a, F, l, hB, rfl, havail, hmem⟩ := h.first_slab hc hi
  have hslab := h.slab hB
  have hsized := h.sized hc
  have hin := h.base_inside hB
  have hmemB : B ∈ B :: l := List.mem_cons_self
  -- the object and the next one
  have hnextIn : F.headD 0 = 0 ∨ Inside B (s.heap.slabs c).slabSize (F.headD 0) := by
    cases F with
    | nil => exact .inl rfl
    | cons b F => exact .inr (h.obj_inside hB (hslab.objs (show b ∈ a :: b :: F by simp)))
  have hlocal : Local W s.heap (takeObj s.heap (descOf W s.heap B) (F.headD 0)) B
      (s.heap.slabs c).slabSize := .takeObj hin hnextIn
  have hok := h.ok_takeObj hB (F.headD 0)
  have hat := SlabAt.takeObj hsized hslab
  have hdesc := takeObj_desc s.heap (descOf W s.heap B) (F.headD 0)
  have hworld := takeObj_world s.heap (descOf W s.heap B) (F.headD 0)
  have hd := descOf_congr (W := W) hworld
  have hslabs := takeObj_slabs s.heap (descOf W s.heap B) (F.headD 0)
  have hnodup : ((a, c) :: s.live).Nodup :=
    List.nodup_cons.2 ⟨h.free_not_live hB (by simp), h.nodup⟩
  have hlinks := takeObj_links s.heap (descOf W s.heap B) (F.headD 0)
  have hrun := h.allocFromSlab_eq hB (havail.next hmemB)
  by_cases hF : F = []
  · -- the slab is full now and leaves the list
    rw [if_pos hF] at hrun
    refine ⟨_, B, a, F, hrun, hB, ?_, ?_⟩
    · show (linkPrev _ _ _).world = _
      rw [linkPrev_world, hworld]
    have hlocal' := (hlocal.trans (Local.linkPrev (nextSlabOf s.heap (descOf W s.heap B))
      (.num 0))).trans (Local.setFreeSlab c (nextSlabOf s.heap (descOf W s.heap B)))
    have hd' := descOf_congr (W := W) hlocal'.world
    have hne : ∀ {B' j}, nextSlabOf s.heap (descOf W s.heap B) = some j → g B' ≠ none →
        descOf W s.heap B' = j → ∃ sl, g B' = some sl ∧ sl.cache = c := by
      intro B' j hj hB' he
      obtain ⟨B'', sl, -, hg, hsc, he'⟩ := havail.next_slab hmem hmemB hj
      obtain ⟨sl', hg'⟩ := Option.ne_none_iff_exists'.1 hB'
      have : B'' = B' := by
        by_contra hcon
        exact h.base_ne hg hg' hcon (he'.trans he.symm)
      subst this
      exact ⟨sl, hg, hsc⟩
    apply h.local_update hlocal'
    · apply A.ok_setFreeSlab
      cases hj : nextSlabOf s.heap (descOf W s.heap B) with
      | none => exact hok
      | some j =>
        obtain ⟨B', sl, -, hg, -, he⟩ := havail.next_slab hmem hmemB hj
        apply h.ok_linkPrev hok hworld hg he
        rw [hdesc]
        split
        · show (s.heap.desc (descOf W s.heap B)).flags ≠ _
          rw [hslab.flags]
          simp
        · rw [← he, (h.slab hg).flags]
          simp
    · exact h.owned hB
    · intro sl he
      obtain rfl := Option.some.inj he
      refine ⟨hc, (hlocal'.sizes c).2.1, ?_⟩
      apply hat.congr
      · exact ⟨(hlocal'.sizes c).1.trans (hlocal.sizes c).1.symm,
          (hlocal'.sizes c).2.1.trans (hlocal.sizes c).2.1.symm⟩
      · intro x _
        refine ⟨by rw [hd', hd], ?_⟩
        show SameSlab _ ((linkPrev _ _ _).desc _)
        rw [linkPrev_desc]
        exact ⟨_, _, rfl⟩
      · rw [hslabs]; exact hin
      · intro x _
        show (linkPrev _ _ _).mem _ = _
        rw [linkPrev_mem]
    · intro c' hc'
      by_cases hcc : c' = c
      · subst hcc
        refine ⟨l, ?_, ?_⟩
        · have hrem : Avail W (G c') ((linkPrev (takeObj s.heap (descOf W s.heap B) (F.headD 0))
              (nextSlabOf s.heap (descOf W s.heap B)) (.num 0)).setFreeSlab c'
              (nextSlabOf s.heap (descOf W s.heap B))) c' ((B :: l).erase B) := by
            apply havail.remove hd' hmemB (.inl ⟨0, rfl, (h.garbage hc').1⟩)
            · have hprev : prevSlabOf s.heap (descOf W s.heap B) = none := havail.linked.2.1
              rw [hprev]
              rfl
            · rw [hi, if_pos rfl, setFreeSlab_self]
            · intro B' hB' hne'
              have hprev : prevSlabOf s.heap (descOf W s.heap B) = none := havail.linked.2.1
              rw [hprev, if_neg (by simp)]
              show ((linkPrev _ _ _).desc _).prevFree = _ ∧ ((linkPrev _ _ _).desc _).buddyOrder = _
              rw [linkPrev_desc]
              refine ⟨(hlinks _).1, ?_⟩
              show (if _ then _ else _) = _
              rw [(hlinks _).2]
          rwa [List.erase_cons_head] at hrem
        · intro B'
          have hnd : B ∉ l := by
            have := havail.nodup.of_map
            exact (List.nodup_cons.1 this).1
          by_cases hBB : B' = B
          · subst hBB
            rw [Function.update_self]
            constructor
            · exact fun hl => absurd hl hnd
            · rintro ⟨sl, he, -, hfree⟩
              obtain rfl := Option.some.inj he
              exact absurd hF hfree
          · rw [Function.update_of_ne hBB, ← hmem, List.mem_cons]
            exact (or_iff_right hBB).symm
      · obtain ⟨l', havail', hmem'⟩ := h.avail hc'
        refine ⟨l', ?_, ?_⟩
        · apply havail'.congr
          · intro B' _
            rw [hd']
          · rw [setFreeSlab_other _ _ hcc, linkPrev_slabs, hslabs]
          · intro B' hB'
            obtain ⟨sl, hg, hsc, -⟩ := (hmem' B').1 hB'
            show ((linkPrev _ _ _).desc _).prevFree = _ ∧ ((linkPrev _ _ _).desc _).buddyOrder = _
            rw [linkPrev_desc]
            refine ⟨(hlinks _).1, ?_⟩
            show (if _ then _ else _) = _
            rw [(hlinks _).2, if_neg]
            intro e
            obtain ⟨sl', hg', hsc'⟩ := hne e (by rw [hg]; simp) rfl
            rw [hg] at hg'
            obtain rfl := Option.some.inj hg'
            exact hcc (hsc.symm.trans hsc')
        · intro B'
          rw [hmem']
          by_cases hBB : B' = B
          · subst hBB
            rw [Function.update_self, hB]
            constructor
            · rintro ⟨sl, he, hsc, -⟩
              obtain rfl := Option.some.inj he
              exact absurd hsc.symm hcc
            · rintro ⟨sl, he, hsc, -⟩
              obtain rfl := Option.some.inj he
              exact absurd hsc.symm hcc
          · rw [Function.update_of_ne hBB]
    · exact h.live_take hB
    · exact hnodup
  · rw [if_neg hF] at hrun
    refine ⟨_, B, a, F, hrun, hB, hworld, ?_⟩
    apply h.local_update hlocal hok (h.owned hB)
    · intro sl he
      obtain rfl := Option.some.inj he
      exact ⟨hc, (hlocal.sizes c).2.1, hat⟩
    · intro c' hc'
      obtain ⟨l', havail', hmem'⟩ := h.avail hc'
      refine ⟨l', havail'.congr (fun B' _ => by rw [hd]) (by rw [hslabs]) fun B' _ => hlinks _, ?_⟩
      intro B'
      rw [hmem']
      by_cases hBB : B' = B
      · subst hBB
        rw [Function.update_self, hB]
        simp [hF]
      · rw [Function.update_of_ne hBB]
    · exact h.live_take hB
    · exact hnodup

end AllocFromSlab

end X86Kernel.Heap
