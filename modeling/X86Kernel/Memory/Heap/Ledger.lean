import X86Kernel.Memory.Heap.FreeSlab
import X86Kernel.Memory.Heap.Outline
import X86Kernel.Memory.Heap.Tally

/- The slab code on the block allocator of the kernel.

   The slab code is proved for every allocator of blocks that meets a contract (`Buddies`), and
   the contract speaks of the blocks that are out as a part of the world. The kernel does not
   keep them, so the world is given a note of them (`World.noted`). `accounts` is `alloc_buddy`
   and `free_buddy` with that note, where `alloc_buddy` does not grow the heap.

   What is proved: the contract holds, in all heaps with an account of their blocks (`Account`),
   and the code never looks at the note: what `alloc_slab` and `free_slab` do with it they do
   without it (`allocSlab_bare`, `freeSlab_bare`). -/
namespace X86Kernel.Heap
open X86Kernel.Lib

variable {ω : Type}

/-! ## The note -/

/-- The world, and the blocks that are out with their sizes. -/
abbrev Noted (ω : Type) := ω × (Nat → Option Nat)

/-- The heap without the note. -/
def HeapVars.bare (s : HeapVars (Noted ω)) : HeapVars ω where
  world := s.world.1
  desc := s.desc
  mem := s.mem
  freeBuddies := s.freeBuddies
  slabs := s.slabs
  intervalCache := s.intervalCache
  minAddr := s.minAddr
  curMaxAddr := s.curMaxAddr
  reservedMaxAddr := s.reservedMaxAddr
  curSize := s.curSize
  reservedMaxSize := s.reservedMaxSize

/-- The heap with a note. -/
def HeapVars.note (s : HeapVars ω) (o : Nat → Option Nat) : HeapVars (Noted ω) where
  world := (s.world, o)
  desc := s.desc
  mem := s.mem
  freeBuddies := s.freeBuddies
  slabs := s.slabs
  intervalCache := s.intervalCache
  minAddr := s.minAddr
  curMaxAddr := s.curMaxAddr
  reservedMaxAddr := s.reservedMaxAddr
  curSize := s.curSize
  reservedMaxSize := s.reservedMaxSize

@[simp] theorem bare_note (s : HeapVars ω) (o : Nat → Option Nat) : (s.note o).bare = s := rfl

/-- The calls of the world leave the note alone. -/
def World.noted (W : World ω) : World (Noted ω) where
  descOf w page := W.descOf w.1 page
  mmAllocPages w n := do
    let (v, page) ← W.mmAllocPages w.1 n
    return ((v, w.2), page)
  pfnToPa w p := W.pfnToPa w.1 p
  pagingMapPages w pa va count flags := do
    let v ← W.pagingMapPages w.1 pa va count flags
    return (v, w.2)
  markRegion w interval va count := do
    let v ← W.markRegion w.1 interval va count
    return (v, w.2)

theorem descOf_noted (W : World ω) (s : HeapVars (Noted ω)) (x : Nat) :
    descOf W.noted s x = descOf W s.bare x := rfl

/-- A result without the note. -/
def bareResult (x : Kernel (HeapVars (Noted ω) × Nat)) : Kernel (HeapVars ω × Nat) :=
  x.map fun r => (r.1.bare, r.2)

/-! ## What the account does not depend on -/

theorem Account.congr {F : HeapFlags → Prop} {W : World ω} {s s' : HeapVars ω}
    {L : Nat → List Nat} {o : Nat → Option Nat}
    (h : Account F W s L o) (hworld : s'.world = s.world) (hdesc : s'.desc = s.desc)
    (hheads : s'.freeBuddies = s.freeBuddies) (hmin : s'.minAddr = s.minAddr)
    (hmax : s'.curMaxAddr = s.curMaxAddr) : Account F W s' L o := by
  have hd := descOf_congr (W := W) hworld
  refine h.update ⟨h.toFreeBlocks.update hworld hmin hmax ?_ ?_ h.packing h.order, ?_, ?_, ?_⟩
    hworld hmin hmax ?_ h.blocks h.out h.listed
  · exact h.lists.congr (fun k => by rw [hheads]) fun _ => by rw [hdesc]; exact ⟨rfl, rfl⟩
  · intro a k ha
    rw [hdesc]
    exact h.head ha
  · intro a k ha
    rw [hd, hdesc]
    exact h.flags ha
  · intro a k ha
    rw [hd, hdesc]
    exact h.cache ha
  · intro i hi
    rw [hdesc] at hi
    rw [hd]
    exact h.only i hi
  · intro a k ha
    rw [hdesc]
    exact h.orders ha

theorem Account.modify {F : HeapFlags → Prop} {W : World ω} {s : HeapVars ω}
    {L : Nat → List Nat} {o : Nat → Option Nat}
    (h : Account F W s L o) {i : Nat} (hi : OutDesc W s o i) {f : Desc → Desc}
    (hf : (f (s.desc i)).flags ≠ ⟨true, true, true⟩) : Account F W (s.modify i f) L o := by
  have hne : ∀ {a k}, a ∈ L k → descOf W s a ≠ i := by
    rintro a k ha rfl
    exact h.head_not_out k a ha hi
  have hsame : ∀ {a k}, a ∈ L k →
      (s.modify i f).desc (descOf W s a) = s.desc (descOf W s a) := fun ha => if_neg (hne ha)
  refine h.update ⟨h.toFreeBlocks.update rfl rfl rfl ?_ ?_ h.packing h.order, ?_, ?_, ?_⟩
    rfl rfl rfl ?_ h.blocks h.out h.listed
  · apply h.lists.modify i f
    left
    intro k hk
    obtain ⟨a, ha, he⟩ := List.mem_map.1 hk
    exact hne ha he
  · intro a k ha
    rw [hsame ha]
    exact h.head ha
  · intro a k ha
    show F ((s.modify i f).desc (descOf W s a)).flags
    rw [hsame ha]
    exact h.flags ha
  · intro a k ha
    show ((s.modify i f).desc (descOf W s a)).buddyCache = _
    rw [hsame ha]
    exact h.cache ha
  · intro j hj
    apply h.only
    by_cases hji : j = i
    · subst hji
      simp only [HeapVars.modify, if_true] at hj
      exact absurd hj hf
    · simpa only [HeapVars.modify, if_neg hji] using hj
  · intro a k ha
    rw [hsame ha]
    exact h.orders ha

theorem served_of_allocBuddy {W : World ω} {s : HeapVars ω} {size : Nat} {r : HeapVars ω × Nat}
    (hrun : allocBuddy W 1 s size = .ok r) : Served s (orderOf size) := by
  by_contra hno
  have hgrow := (findOrder_gt_iff s (orderOf size)).2 hno
  unfold allocBuddy at hrun
  obtain ⟨_, -, hrun⟩ := exists_of_bind_eq_ok hrun
  obtain ⟨_, -, hrun⟩ := exists_of_bind_eq_ok hrun
  simp only [orderOf] at hgrow
  simp only [hgrow, if_true] at hrun
  obtain ⟨t, -, hrun⟩ := exists_of_bind_eq_ok hrun
  cases hrun

theorem allocBuddy_fuel {W : World ω} {s : HeapVars ω} {size : Nat}
    (hserved : Served s (orderOf size)) (fuel : Nat) :
    allocBuddy W (fuel + 1) s size = allocBuddy W 1 s size := by
  have hgrow := mt (findOrder_gt_iff s (orderOf size)).1 (not_not.2 hserved)
  unfold orderOf at hgrow
  simp only [allocBuddy, if_neg hgrow]

theorem allocSlab_fuel {W : World ω} {s : HeapVars ω} {c : Nat}
    (hno : (s.slabs c).freeSlab ≠ none ∨ Served s (orderOf (s.slabs c).slabSize)) (fuel : Nat) :
    allocSlab W (allocBuddy W (fuel + 1)) s c = allocSlab W (allocBuddy W 1) s c := by
  unfold allocSlab
  split
  · rfl
  · next hnone => rw [allocBuddy_fuel (hno.resolve_left (not_not.2 hnone))]

theorem orderOf_two_pow (k : Nat) : orderOf (2 ^ (buddyExponMin + k)) = k := by
  rw [orderOf, log2U32, Nat.log2_two_pow, Nat.add_sub_cancel_left]

/-! ## The contract -/

/-- `alloc_buddy` without growth, and `free_buddy`. -/
def ledgerAlloc (W : World ω) (s : HeapVars (Noted ω)) (size : Nat) :
    Kernel (HeapVars (Noted ω) × Nat) := do
  let (t, a) ← allocBuddy W 1 s.bare size
  return (t.note (Function.update s.world.2 a (some size)), a)

def ledgerFree (W : World ω) (s : HeapVars (Noted ω)) (a : Nat) : Kernel (HeapVars (Noted ω)) := do
  let t ← freeBuddy W s.bare a
  return t.note (Function.update s.world.2 a none)

/-- The blocks that are out are those of the note. -/
def Balanced (F : HeapFlags → Prop) (W : World ω) (s : HeapVars (Noted ω)) : Prop :=
  ∃ L, Account F W s.bare L s.world.2

theorem Account.is_block {F : HeapFlags → Prop} {W : World ω} {s : HeapVars ω}
    {L : Nat → List Nat} {o : Nat → Option Nat}
    (h : Account F W s L o) {a n : Nat} (ha : o a = some n) :
    ∃ k ≤ buddyOrderMax, n = 2 ^ (buddyExponMin + k) ∧ n ∣ a ∧ a ≠ 0 ∧ a + n ≤ 2 ^ 32 := by
  obtain ⟨k, hk, rfl⟩ := h.out ha
  obtain ⟨hlo, hhi⟩ := h.blocks.inside (.inr ha)
  have hlow := h.low
  have hbound := h.bound
  exact ⟨k, hk, rfl, h.blocks.aligned (.inr ha), by omega, by omega⟩

/-- A change of the heap at free pages keeps what is in the blocks that are out. -/
theorem OnlyAt.keeps {W : World ω} {s t : HeapVars ω} {o o' : Nat → Option Nat}
    (h : OnlyAt (fun i => ¬ OutDesc W s o i) s t) :
    Keeps W.noted (s.note o) (t.note o') fun x => ∃ b m, o b = some m ∧ Inside b m x where
  descOf {x} _ := by
    rw [descOf_noted, descOf_noted, bare_note, bare_note, descOf_congr h.world]
  desc := by
    rintro x ⟨b, m, hb, hx⟩
    exact h.desc _ (not_not.2 ⟨b, m, x, hb, hx, rfl⟩)
  mem {x} _ := congrFun h.mem x

theorem ledgerAlloc_spec {F : HeapFlags → Prop} [ListedFlags F] {W : World ω}
    {s s' : HeapVars (Noted ω)} {a k : Nat} (hok : Balanced F W s)
    (hrun : ledgerAlloc W s (2 ^ (buddyExponMin + k)) = .ok (s', a)) :
    Balanced F W s' ∧ s.world.2 a = none ∧
    s'.world.2 = Function.update s.world.2 a (some (2 ^ (buddyExponMin + k))) ∧
    s'.slabs = s.slabs ∧
    Keeps W.noted s s' (fun x => ∃ b m, s.world.2 b = some m ∧ Inside b m x) ∧
    (s'.desc (descOf W.noted s' a)).flags.vfree = false ∧
    (s'.desc (descOf W.noted s' a)).flags.head = true ∧
    (s'.desc (descOf W.noted s' a)).numPages = .num (2 ^ k) ∧
    (s'.desc (descOf W.noted s' a)).buddyOrder = .num k := by
  obtain ⟨L, htally⟩ := hok
  obtain ⟨r, halloc, hrun⟩ := exists_of_bind_eq_ok hrun
  cases hrun
  have hserved := served_of_allocBuddy halloc
  rw [orderOf_two_pow] at hserved
  obtain ⟨t, L', a', halloc', hnone, htally', htaken, horder, honly⟩ :=
    htally.allocBuddy hserved 0
  obtain rfl := Except.ok.inj (halloc'.symm.trans halloc)
  rw [← descOf_congr honly.world] at htaken horder
  obtain ⟨f, hf, hflags⟩ := htaken.flags
  refine ⟨⟨L', htally'⟩, hnone, rfl, honly.slabs, honly.keeps, ?_, ?_, ?_, ?_⟩
  · show (t.desc (descOf W t a')).flags.vfree = false
    rw [hflags]
  · show (t.desc (descOf W t a')).flags.head = true
    rw [hflags]
    exact (ListedFlags.head hf : f.head = true)
  · exact htaken.numPages
  · exact horder

theorem ledgerFree_spec {F : HeapFlags → Prop} [ListedFlags F] {W : World ω}
    {s : HeapVars (Noted ω)} {a k : Nat} (hok : Balanced F W s)
    (ha : s.world.2 a = some (2 ^ (buddyExponMin + k)))
    (hlive : LiveHead (s.desc (descOf W.noted s a)) k) :
    ∃ s', ledgerFree W s a = .ok s' ∧ Balanced F W s' ∧
      s'.world.2 = Function.update s.world.2 a none ∧ s'.slabs = s.slabs ∧
      Keeps W.noted s s' fun x => ∃ b m, b ≠ a ∧ s.world.2 b = some m ∧ Inside b m x := by
  obtain ⟨L, htally⟩ := hok
  obtain ⟨t, L', hfree, htally', honly⟩ := htally.freeBuddy ha hlive
  refine ⟨t.note (Function.update s.world.2 a none), ?_, ⟨L', htally'⟩, rfl, honly.slabs, ?_⟩
  · rw [ledgerFree, hfree]
    rfl
  · refine ⟨fun _ => ?_, ?_, fun _ => congrFun honly.mem _⟩
    · rw [descOf_noted, descOf_noted, bare_note, descOf_congr honly.world]
    · rintro x ⟨b, m, hba, hb, hx⟩
      refine honly.desc _ (not_not.2 ⟨b, m, x, ?_, hx, rfl⟩)
      rwa [Function.update_of_ne hba]

/-- The block allocator of the kernel meets the contract of the slab code. -/
def accounts (F : HeapFlags → Prop) [ListedFlags F] (W : World ω) : Buddies W.noted where
  alloc := ledgerAlloc W
  free := ledgerFree W
  owned w := w.2
  Ok := Balanced F W
  block := by
    rintro s a n ⟨L, h⟩ ha
    exact h.is_block ha
  apart := by
    rintro s a n b m x ⟨L, h⟩ ha hb hx hy
    obtain ⟨k, -, rfl⟩ := h.out ha
    obtain ⟨l, -, rfl⟩ := h.out hb
    exact (h.block_eq (.inr ha) (.inr hb) hx hy rfl).1
  inj := by
    rintro s a n b m x y ⟨L, h⟩ ha hb hx hy he
    obtain ⟨k, -, rfl⟩ := h.out ha
    exact h.page_eq (.inr ha) hx he
  alloc_spec := ledgerAlloc_spec
  free_spec := ledgerFree_spec
  ok_modify := by
    rintro s a n x f ⟨L, h⟩ ha hx hf
    exact ⟨L, h.modify ⟨a, n, x, ha, hx, rfl⟩ hf⟩
  ok_store := by
    rintro s addr w ⟨L, h⟩
    exact ⟨L, h.congr rfl rfl rfl rfl rfl⟩
  ok_setFreeSlab := by
    rintro s c p ⟨L, h⟩
    exact ⟨L, h.congr rfl rfl rfl rfl rfl⟩

/-- The block allocator where all three flags show a listed block. -/
abbrev ledger (W : World ω) : Buddies W.noted := accounts HeapFlags.IsFree W

/-! ## The code does not look at the note -/

theorem map_bind {α β γ : Type} (x : Kernel α) (f : α → Kernel β) (k : β → γ) :
    (x >>= f).map k = x >>= fun a => (f a).map k := by
  cases x <;> rfl

theorem bind_map {α β γ : Type} (x : Kernel α) (f : β → Kernel γ) (k : α → β) :
    x.map k >>= f = x >>= fun a => f (k a) := by
  cases x <;> rfl

section Bare

variable (s : HeapVars (Noted ω))

theorem bare_desc : s.bare.desc = s.desc := rfl
theorem bare_slabs : s.bare.slabs = s.slabs := rfl
theorem descOf_bare (W : World ω) (x : Nat) : descOf W s.bare x = descOf W.noted s x := rfl
theorem modify_bare (i : Nat) (f : Desc → Desc) : s.bare.modify i f = (s.modify i f).bare := rfl
theorem store_bare (addr : Nat) (w : Word) : s.bare.store addr w = (s.store addr w).bare := rfl
theorem setFreeSlab_bare (c : Nat) (p : Option Nat) :
    s.bare.setFreeSlab c p = (s.setFreeSlab c p).bare := rfl

theorem setPrevSlab_bare (p w : Word) :
    setPrevSlab s.bare p w = (setPrevSlab s p w).map HeapVars.bare := by
  cases p with
  | num n => cases n <;> rfl
  | _ => rfl

theorem setNextSlab_bare (p w : Word) :
    setNextSlab s.bare p w = (setNextSlab s p w).map HeapVars.bare := by
  cases p with
  | num n => cases n <;> rfl
  | _ => rfl

theorem setNodePrev_bare (node prev : Nat) :
    setNodePrev s.bare node prev = (setNodePrev s node prev).bare := by
  unfold setNodePrev
  split <;> rfl

theorem nodeNext_bare (node : Nat) : nodeNext s.bare node = nodeNext s node := rfl

theorem allocFromSlab_bare (c i : Nat) :
    allocFromSlab s.bare c i = bareResult (allocFromSlab s c i) := by
  unfold allocFromSlab bareResult
  simp only [map_bind, bare_desc, nodeNext_bare, modify_bare, setNodePrev_bare]
  refine congrArg _ (funext fun node => congrArg _ (funext fun next => ?_))
  split
  · simp only [map_bind, setPrevSlab_bare, bind_map, bare_desc]
    rfl
  · rfl

theorem linkObjects_bare (z : Nat) : ∀ (n : Nat) (s : HeapVars (Noted ω)) (p : Nat),
    linkObjects z n s.bare p = (linkObjects z n s p).bare
  | 0, _, _ => rfl
  | n + 1, s, p => linkObjects_bare z n
      ((s.store (p + 4) (.num (u32 (p + z)))).store (u32 (p + z)) (.num p)) (u32 (p + z))

theorem touchPages_bare (W : World ω) (f : Desc → Desc) : ∀ (n : Nat) (s : HeapVars (Noted ω))
    (va : Nat), touchPages W f n s.bare va = (touchPages W.noted f n s va).bare
  | 0, _, _ => rfl
  | n + 1, s, va => touchPages_bare W f n (s.modify (descOf W.noted s va) f) (u32 (va + pageSize))

theorem initSlabFreeList_bare (base z n : Nat) :
    initSlabFreeList s.bare base z n = (initSlabFreeList s base z n).bare :=
  linkObjects_bare z (n - 1) (s.store base (.num 0)) base

theorem initSlab_bare (W : World ω) (c a : Nat) :
    initSlab W s.bare c a = bareResult (initSlab W.noted s c a) := by
  unfold initSlab bareResult
  simp only [markTails_eq, descOf_bare, modify_bare, bare_slabs]
  split
  · rfl
  · simp only [map_bind, bare_desc, nodeNext_bare, modify_bare, setNodePrev_bare,
      initSlabFreeList_bare, touchPages_bare, setFreeSlab_bare]
    rfl

theorem pushSlab_bare (c i : Nat) (head : Option Nat) :
    pushSlab s.bare c i head = (pushSlab s c i head).bare := by
  cases head <;> rfl

theorem relinkFull_bare (c i : Nat) : relinkFull s.bare c i = (relinkFull s c i).bare := by
  rw [relinkFull_eq, relinkFull_eq, apply_ite HeapVars.bare, pushSlab_bare]
  rfl

theorem ledgerFree_bare (W : World ω) (a : Nat) :
    freeBuddy W s.bare a = (ledgerFree W s a).map HeapVars.bare := by
  unfold ledgerFree
  cases freeBuddy W s.bare a <;> rfl

theorem slabOf_bare (desc : Nat) : slabOf s.bare desc = slabOf s desc := rfl

theorem allocSlab_bare (W : World ω) (c : Nat) :
    allocSlab W (allocBuddy W 1) s.bare c =
      bareResult (allocSlab W.noted (ledgerAlloc W) s c) := by
  unfold allocSlab
  simp only [bare_slabs]
  split
  · exact allocFromSlab_bare s c _
  · unfold ledgerAlloc bareResult
    rw [map_bind, bind_assoc]
    refine congrArg _ (funext fun r => ?_)
    exact initSlab_bare (r.1.note _) W c r.2

theorem returnSlab_bare (W : World ω) (c i addr : Nat) :
    returnSlab W (freeBuddy W) s.bare c i addr =
      (returnSlab W.noted (ledgerFree W) s c i addr).map HeapVars.bare := by
  unfold returnSlab
  simp only [map_bind, bare_desc, unmarkTails_eq, touchPages_bare, modify_bare, setNextSlab_bare,
    bind_map, setPrevSlab_bare, bare_slabs]
  refine congrArg _ (funext fun pages => congrArg _ (funext fun t => congrArg _
    (funext fun u => ?_)))
  by_cases hfirst : (u.slabs c).freeSlab = some i
  · rw [if_pos hfirst, map_bind]
    refine (if_pos hfirst).trans (congrArg _ (funext fun next => ?_))
    exact ledgerFree_bare (u.setFreeSlab c next) W _
  · rw [if_neg hfirst]
    exact (if_neg hfirst).trans (ledgerFree_bare u W _)

theorem freeSlab_bare (W : World ω) (addr : Nat) :
    freeSlab W (freeBuddy W) s.bare addr =
      (freeSlab W.noted (ledgerFree W) s addr).map HeapVars.bare := by
  unfold freeSlab
  simp only [map_bind, descOf_bare, bare_desc, slabOf_bare, bare_slabs, store_bare,
    setNodePrev_bare, modify_bare, relinkFull_bare]
  refine congrArg _ (funext fun _ => congrArg _ (funext fun i => congrArg _ (funext fun c =>
    congrArg _ (funext fun _ => congrArg _ (funext fun node => ?_)))))
  split
  · rfl
  · exact returnSlab_bare _ W c i addr

end Bare

end X86Kernel.Heap
