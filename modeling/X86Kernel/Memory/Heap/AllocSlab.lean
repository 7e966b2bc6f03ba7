import X86Kernel.Memory.Heap.Slab

/- A new slab (`alloc_slab`, the branch in which the list of the order is empty).

   The block allocator hands out a block; its first descriptor becomes the head of
   the slab, the others point to it, and the objects are linked in the memory of
   the block. `layOut` is the block after that, `listSlab` makes it the list of its
   order and takes the first object.

   What is proved: the call keeps the invariant of the slabs whichever branch it
   takes, and fails only where the block allocator does (`Inv.allocSlab`).

   Correspondence (C ↔ Lean):
     the loop over the tail pages ↔ `touchPages` (`markTails`, `unmarkTails`)
     `init_slab_free_list`        ↔ `linkObjects`
     the block after both         ↔ `layOut`
     `slab_order->free_slab = slab_metadata` and what follows ↔ `listSlab` -/
namespace X86Kernel.Heap
open X86Kernel.Lib

variable {ω : Type}

/-! ## The descriptors of a block -/

/-- `f` on the descriptors of `n` pages, from `va` on. -/
def touchPages (W : World ω) (f : Desc → Desc) : Nat → HeapVars ω → Nat → HeapVars ω
  | 0, s, _ => s
  | n + 1, s, va => touchPages W f n (s.modify (descOf W s va) f) (u32 (va + pageSize))

/-- The descriptor of a tail page of the slab at `head`. -/
def tailDesc (head : Nat) (d : Desc) : Desc :=
  { d with flags := { d.flags with buddy := false, head := false }, numPages := .page head }

/-- The descriptor of a tail page of a slab that is given back. -/
def looseDesc (d : Desc) : Desc :=
  { d with flags := { d.flags with buddy := true }, numPages := .num 0 }

theorem markTails_eq (W : World ω) (head : Nat) : ∀ (n : Nat) (s : HeapVars ω) (va : Nat),
    markTails W head n s va = touchPages W (tailDesc head) n s va
  | 0, _, _ => rfl
  | n + 1, _, _ => markTails_eq W head n _ _

theorem unmarkTails_eq (W : World ω) : ∀ (n : Nat) (s : HeapVars ω) (va : Nat),
    unmarkTails W n s va = touchPages W looseDesc n s va
  | 0, _, _ => rfl
  | n + 1, _, _ => unmarkTails_eq W n _ _

theorem touchPages_same (W : World ω) (f : Desc → Desc) : ∀ (n : Nat) (s : HeapVars ω) (va : Nat),
    ∃ d, touchPages W f n s va = { s with desc := d }
  | 0, s, _ => ⟨s.desc, rfl⟩
  | n + 1, s, va => by
    obtain ⟨d, hd⟩ := touchPages_same W f n (s.modify (descOf W s va) f) (u32 (va + pageSize))
    exact ⟨d, by rw [touchPages, hd]; rfl⟩

theorem touchPages_slabs {W : World ω} {f : Desc → Desc} {n : Nat} {s : HeapVars ω} {va : Nat} :
    (touchPages W f n s va).slabs = s.slabs := by
  obtain ⟨d, hd⟩ := touchPages_same W f n s va
  rw [hd]

theorem u32_next_page {va n : Nat} (h : va + (n + 1) * pageSize ≤ 2 ^ 32) :
    n = 0 ∨ u32 (va + pageSize) = va + pageSize := by
  unfold pageSize at h ⊢
  by_cases hn : n = 0
  · exact .inl hn
  · exact .inr (u32_of_lt (by omega))

theorem touchPages_desc_of_ne {W : World ω} {f : Desc → Desc} : ∀ {n : Nat} {s : HeapVars ω}
    {va j : Nat},
    va + n * pageSize ≤ 2 ^ 32 → (∀ m < n, j ≠ descOf W s (va + m * pageSize)) →
    (touchPages W f n s va).desc j = s.desc j := by
  intro n
  induction n with
  | zero => intros; rfl
  | succ n ih =>
    intro s va j hend hne
    have hj : j ≠ descOf W s va := by simpa using hne 0 (Nat.succ_pos n)
    have hfirst : (s.modify (descOf W s va) f).desc j = s.desc j := if_neg hj
    rw [touchPages, ← hfirst]
    rcases u32_next_page hend with rfl | hu
    · rfl
    · rw [hu]
      rw [Nat.add_mul] at hend
      apply ih (by omega)
      intro m hm
      have := hne (m + 1) (by omega)
      rwa [Nat.add_mul, Nat.one_mul, Nat.add_comm (m * pageSize), ← Nat.add_assoc] at this

/-- A descriptor of one of the pages is changed, once or more than once. -/
theorem touchPages_desc_of_page {W : World ω} {f : Desc → Desc} (hf : ∀ d, f (f d) = f d) :
    ∀ {n : Nat} {s : HeapVars ω} {va j : Nat}, va + n * pageSize ≤ 2 ^ 32 →
    (∃ m < n, j = descOf W s (va + m * pageSize)) →
    (touchPages W f n s va).desc j = f (s.desc j) := by
  intro n
  induction n with
  | zero =>
    rintro s va j - ⟨m, hm, -⟩
    omega
  | succ n ih =>
    intro s va j hend hpage
    rw [touchPages]
    by_cases hlater : ∃ m < n, j = descOf W s (va + pageSize + m * pageSize)
    · obtain ⟨m, hm, hj⟩ := hlater
      have hu : u32 (va + pageSize) = va + pageSize := by
        rcases u32_next_page hend with rfl | hu
        · omega
        · exact hu
      rw [hu, ih (s := s.modify (descOf W s va) f) (by rw [Nat.add_mul] at hend; omega) ⟨m, hm, hj⟩]
      by_cases hfirst : j = descOf W s va
      · simp only [HeapVars.modify, hfirst, if_true, hf]
      · simp only [HeapVars.modify, if_neg hfirst]
    · have hj : j = descOf W s va := by
        obtain ⟨m, hm, hj⟩ := hpage
        cases m with
        | zero => simpa using hj
        | succ m =>
          refine absurd ⟨m, by omega, ?_⟩ hlater
          rw [hj, Nat.add_mul, Nat.one_mul, Nat.add_comm (m * pageSize), ← Nat.add_assoc]
      have hstep : (s.modify (descOf W s va) f).desc j = f (s.desc j) := by
        simp only [HeapVars.modify, hj, if_true]
      rw [← hstep]
      rcases u32_next_page hend with rfl | hu
      · rfl
      · rw [hu]
        apply touchPages_desc_of_ne (by rw [Nat.add_mul] at hend; omega)
        intro m hm he
        exact hlater ⟨m, hm, he⟩

theorem Local.touchPages {W : World ω} {f : Desc → Desc} {B size : Nat} : ∀ {n : Nat}
    {s : HeapVars ω} {va : Nat}, va + n * pageSize ≤ 2 ^ 32 →
    (∀ m < n, Inside B size (va + m * pageSize)) →
    Local W s (touchPages W f n s va) B size := by
  intro n
  induction n with
  | zero => intro s _ _ _; exact .refl s B size
  | succ n ih =>
    intro s va hend hin
    have hfirst : Local W s (s.modify (descOf W s va) f) B size :=
      .modify (by simpa using hin 0 (Nat.succ_pos n)) f
    rw [Heap.touchPages]
    rcases u32_next_page hend with rfl | hu
    · exact hfirst
    · rw [hu]
      apply hfirst.trans
      apply ih (by rw [Nat.add_mul] at hend; omega)
      intro m hm
      have := hin (m + 1) (by omega)
      rwa [Nat.add_mul, Nat.one_mul, Nat.add_comm (m * pageSize), ← Nat.add_assoc] at this

/-- The block allocator does not mind, where `P` keeps the descriptors from looking
like those of free blocks. -/
theorem Buddies.ok_touchPages {W : World ω} (A : Buddies W) {f : Desc → Desc} {P : Desc → Prop}
    {B size : Nat} (hP : ∀ d, P d → P (f d) ∧ (f d).flags ≠ ⟨true, true, true⟩) :
    ∀ {n : Nat} {s : HeapVars ω} {va : Nat}, A.Ok s → A.owned s.world B = some size →
    va + n * pageSize ≤ 2 ^ 32 →
    (∀ m < n, Inside B size (va + m * pageSize) ∧ P (s.desc (descOf W s (va + m * pageSize)))) →
    A.Ok (touchPages W f n s va) := by
  intro n
  induction n with
  | zero => intro s _ hok _ _ _; exact hok
  | succ n ih =>
    intro s va hok howned hend hin
    obtain ⟨hin₀, hP₀⟩ := hin 0 (Nat.succ_pos n)
    rw [Nat.zero_mul, Nat.add_zero] at hin₀ hP₀
    have hok' : A.Ok (s.modify (descOf W s va) f) := A.ok_modify hok howned hin₀ (hP _ hP₀).2
    rw [touchPages]
    rcases u32_next_page hend with rfl | hu
    · exact hok'
    · rw [hu]
      apply ih hok' howned (by rw [Nat.add_mul] at hend; omega)
      intro m hm
      obtain ⟨hinm, hPm⟩ := hin (m + 1) (by omega)
      rw [Nat.add_mul, Nat.one_mul, Nat.add_comm (m * pageSize), ← Nat.add_assoc] at hinm hPm
      refine ⟨hinm, ?_⟩
      show P ((s.modify (descOf W s va) f).desc (descOf W s (va + pageSize + m * pageSize)))
      by_cases he : descOf W s (va + pageSize + m * pageSize) = descOf W s va
      · simp only [HeapVars.modify, he, if_true]
        exact (hP _ hP₀).1
      · simp only [HeapVars.modify, if_neg he]
        exact hPm

/-! ## The list of the objects of a new slab -/

theorem linkObjects_same (z : Nat) : ∀ (n : Nat) (s : HeapVars ω) (p : Nat),
    ∃ m, linkObjects z n s p = { s with mem := m }
  | 0, s, p => ⟨_, rfl⟩
  | n + 1, s, p => by
    obtain ⟨m, hm⟩ := linkObjects_same z n
      ((s.store (p + 4) (.num (u32 (p + z)))).store (u32 (p + z)) (.num p)) (u32 (p + z))
    exact ⟨m, by rw [linkObjects, hm]; rfl⟩

theorem linkObjects_mem {z : Nat} (hz : 8 ≤ z) : ∀ {n : Nat} {s : HeapVars ω} {p x : Nat},
    p + n * z < 2 ^ 32 → x < p ∨ p + n * z + 8 ≤ x → (linkObjects z n s p).mem x = s.mem x := by
  intro n
  induction n with
  | zero =>
    intro s p x _ hx
    apply if_neg
    omega
  | succ n ih =>
    intro s p x hend hx
    rw [Nat.add_mul, Nat.one_mul] at hend hx
    rw [linkObjects, u32_of_lt (by omega), ih (by omega) (by omega)]
    simp only [HeapVars.store]
    rw [if_neg (by omega), if_neg (by omega)]

theorem linkObjects_chain {z : Nat} (hz : 8 ≤ z) : ∀ (n : Nat) (s : HeapVars ω) (p : Nat),
    p + n * z < 2 ^ 32 →
    NodeChain (linkObjects z n s p).mem ((List.range (n + 1)).map fun i => p + i * z) := by
  intro n
  induction n with
  | zero =>
    intro s p _
    have hlast : (linkObjects z 0 s p).mem (p + 4) = .num 0 := if_pos rfl
    simpa [NodeChain] using hlast
  | succ n ih =>
    intro s p hend
    rw [Nat.add_mul, Nat.one_mul] at hend
    have hrest := ih ((s.store (p + 4) (.num (p + z))).store (p + z) (.num p)) (p + z) (by omega)
    have hfirst : (linkObjects z n ((s.store (p + 4) (.num (p + z))).store (p + z) (.num p))
        (p + z)).mem (p + 4) = .num (p + z) := by
      rw [linkObjects_mem hz (by omega) (.inl (by omega))]
      simp only [HeapVars.store]
      rw [if_neg (by omega), if_pos trivial]
    have hlist : (List.range (n + 1 + 1)).map (fun i => p + i * z) =
        p :: (List.range (n + 1)).map fun i => p + z + i * z := by
      rw [List.range_succ_eq_map, List.map_cons, List.map_map, Nat.zero_mul, Nat.add_zero]
      congr 1
      apply List.map_congr_left
      intro i _
      show p + (i + 1) * z = p + z + i * z
      rw [Nat.add_mul, Nat.one_mul]
      omega
    rw [linkObjects, u32_of_lt (by omega), hlist]
    refine ⟨?_, hrest⟩
    rw [hfirst, List.range_succ_eq_map]
    simp

theorem Buddies.ok_linkObjects {W : World ω} (A : Buddies W) (z : Nat) : ∀ {n : Nat}
    {s : HeapVars ω} {p : Nat}, A.Ok s → A.Ok (linkObjects z n s p)
  | 0, _, _, h => A.ok_store h
  | n + 1, _, _, h => A.ok_linkObjects z (n := n) (A.ok_store (A.ok_store h))

/-! ## Calls of the block allocator -/

theorem Inv.keeps {W : World ω} {A : Buddies W} {C : Nat → Prop} {G : Nat → Nat → Prop}
    {s : SlabState ω} {g : Nat → Option Slab} (h : Inv A C G s g) {t : HeapVars ω} (hok : A.Ok t)
    (howned : ∀ {B sl}, g B = some sl → A.owned t.world B = A.owned s.heap.world B)
    (hslabs : t.slabs = s.heap.slabs)
    (hkeeps : Keeps W s.heap t fun x =>
      ∃ B sl, g B = some sl ∧ Inside B (s.heap.slabs sl.cache).slabSize x) :
    Inv A C G ⟨t, s.live⟩ g := by
  have hbase : ∀ {B sl}, g B = some sl → ∃ B' sl', g B' = some sl' ∧
      Inside B' (s.heap.slabs sl'.cache).slabSize B := fun hB => ⟨_, _, hB, h.base_inside hB⟩
  constructor
  · exact hok
  · intro c hc
    show Sized (t.slabs c)
    rw [hslabs]
    exact h.sized hc
  · intro c hc
    show G c 0 ∧ G c (t.slabs c).blockOrder
    rw [hslabs]
    exact h.garbage hc
  · exact h.low
  · exact h.cache
  · intro B sl hB
    show A.owned t.world B = some (t.slabs sl.cache).slabSize
    rw [hslabs, howned hB]
    exact h.owned hB
  · intro B sl hB
    apply (h.slab hB).congr (by rw [hslabs]; exact ⟨rfl, rfl⟩) _ (h.base_inside hB)
    · intro x hx
      have hobj := (h.size hB).obj_inside ((h.slab hB).objs hx)
      have hz := (h.size hB).objSize
      exact hkeeps.mem ⟨B, sl, hB, by omega, by omega⟩
    · intro x hx
      refine ⟨hkeeps.descOf ⟨B, sl, hB, hx⟩, ?_⟩
      rw [hkeeps.desc ⟨B, sl, hB, hx⟩]
      exact .refl _
  · intro c hc
    obtain ⟨l, havail, hmem⟩ := h.avail hc
    refine ⟨l, havail.congr ?_ (by rw [hslabs]) ?_, hmem⟩
    · intro B hB
      obtain ⟨sl, hg, -⟩ := (hmem B).1 hB
      exact hkeeps.descOf (hbase hg)
    · intro B hB
      obtain ⟨sl, hg, -⟩ := (hmem B).1 hB
      rw [hkeeps.desc (hbase hg)]
      exact ⟨rfl, rfl⟩
  · intro a c
    show (a, c) ∈ s.live ↔ ∃ B sl, g B = some sl ∧ sl.cache = c ∧ IsObj (t.slabs c) B a ∧
      a ∉ sl.free
    rw [hslabs]
    exact h.live a c
  · exact h.nodup

theorem Inv.fresh {W : World ω} {A : Buddies W} {C : Nat → Prop} {G : Nat → Nat → Prop}
    {s : SlabState ω} {g : Nat → Option Slab} (h : Inv A C G s g) {B : Nat}
    (hB : A.owned s.heap.world B = none) : g B = none := by
  cases hg : g B with
  | none => rfl
  | some sl =>
    rw [h.owned hg] at hB
    cases hB

/-! ## A new slab -/

theorem page_of_inside {a k x : Nat} (hdvd : 2 ^ (buddyExponMin + k) ∣ a)
    (hx : Inside a (2 ^ (buddyExponMin + k)) x) (hne : x / pageSize ≠ a / pageSize) :
    ∃ m < 2 ^ k - 1, x / pageSize = (a + pageSize + m * pageSize) / pageSize := by
  have hpow : 2 ^ (buddyExponMin + k) = 2 ^ k * pageSize := by
    rw [Nat.add_comm, pow_add]
    rfl
  obtain ⟨hlo, hhi⟩ := hx
  obtain ⟨q, rfl⟩ := hdvd
  rw [hpow] at hlo hhi hne ⊢
  rw [show 2 ^ k * pageSize * q = 2 ^ k * q * pageSize by
    rw [Nat.mul_assoc, Nat.mul_comm pageSize, ← Nat.mul_assoc]] at hlo hhi hne ⊢
  have hpos : 0 < pageSize := by decide
  rw [Nat.mul_div_cancel _ hpos] at hne
  have h₁ : 2 ^ k * q ≤ x / pageSize := (Nat.le_div_iff_mul_le hpos).2 hlo
  have h₂ : x / pageSize < 2 ^ k * q + 2 ^ k := by
    rw [Nat.div_lt_iff_lt_mul hpos, Nat.add_mul]
    exact hhi
  refine ⟨x / pageSize - 2 ^ k * q - 1, by omega, ?_⟩
  have hsum : 2 ^ k * q * pageSize + pageSize + (x / pageSize - 2 ^ k * q - 1) * pageSize =
      (2 ^ k * q + 1 + (x / pageSize - 2 ^ k * q - 1)) * pageSize := by
    rw [Nat.add_mul, Nat.add_mul, Nat.one_mul]
  rw [hsum, Nat.mul_div_cancel _ hpos]
  omega

theorem tail_inside {a k m : Nat} (hm : m < 2 ^ k - 1) :
    Inside a (2 ^ (buddyExponMin + k)) (a + pageSize + m * pageSize) ∧
      (a + pageSize + m * pageSize) / pageSize ≠ a / pageSize := by
  have hpow : 2 ^ (buddyExponMin + k) = 2 ^ k * pageSize := by
    rw [Nat.add_comm, pow_add]
    rfl
  have hmul : (m + 2) * pageSize ≤ 2 ^ k * pageSize := Nat.mul_le_mul_right _ (by omega)
  rw [Nat.add_mul] at hmul
  refine ⟨⟨by omega, ?_⟩, ?_⟩
  · rw [hpow]
    unfold pageSize at hmul ⊢
    omega
  · unfold pageSize
    omega

/-- The first descriptor of the block becomes one of a slab. -/
def headSlab (s : HeapVars ω) (i c : Nat) : HeapVars ω :=
  (s.modify i fun d => { d with flags := { d.flags with buddy := false } }).modify i
    fun d => { d.setCounts (s.slabs c).count 0 with buddyCache := .slabs c }

/-- The descriptors and the objects of a new slab. -/
def layOut (W : World ω) (s : HeapVars ω) (c a : Nat) : HeapVars ω :=
  linkObjects (s.slabs c).objSize ((s.slabs c).count - 1)
    ((touchPages W (tailDesc (descOf W s a)) (2 ^ (s.slabs c).blockOrder - 1)
      (headSlab s (descOf W s a) c) (a + pageSize)).store a (.num 0)) a

/-- The new slab is the list of its order, and its first object is taken. -/
def listSlab (s : HeapVars ω) (i c next : Nat) : HeapVars ω :=
  (setNodePrev (((s.modify i fun d => { d with prevFree := .num 0 }).setFreeSlab c (some i)).modify
    i fun d => { d with nextFree := .num next }) next 0).modify i
    fun d => d.setCounts d.objCount 1

theorem headSlab_desc (s : HeapVars ω) (i c j : Nat) : (headSlab s i c).desc j =
    if j = i then { (s.desc i).setCounts (s.slabs c).count 0 with
      flags := { (s.desc i).flags with buddy := false }, buddyCache := .slabs c }
    else s.desc j := by
  by_cases hj : j = i
  · simp [headSlab, HeapVars.modify, hj, Desc.setCounts]
  · simp [headSlab, HeapVars.modify, hj]

theorem listSlab_desc (s : HeapVars ω) (i c next j : Nat) : (listSlab s i c next).desc j =
    if j = i then { (s.desc i).setCounts (s.desc i).objCount 1 with
      prevFree := .num 0, nextFree := .num next } else s.desc j := by
  by_cases hn : next = 0 <;> by_cases hj : j = i <;>
    simp [listSlab, setNodePrev, HeapVars.modify, HeapVars.store, HeapVars.setFreeSlab,
      Desc.setCounts, Desc.objCount, hn, hj]

theorem listSlab_slabs (s : HeapVars ω) (i c next : Nat) :
    (listSlab s i c next).slabs = (s.setFreeSlab c (some i)).slabs := by
  by_cases hn : next = 0 <;>
    simp [listSlab, setNodePrev, HeapVars.modify, HeapVars.store, HeapVars.setFreeSlab, hn]

theorem listSlab_mem (s : HeapVars ω) (i c next x : Nat) (hx : x ≠ next) :
    (listSlab s i c next).mem x = s.mem x := by
  by_cases hn : next = 0
  · simp [listSlab, setNodePrev, HeapVars.modify, HeapVars.setFreeSlab, hn]
  · simp [listSlab, setNodePrev, HeapVars.modify, HeapVars.store, HeapVars.setFreeSlab, hn, hx]

theorem Local.listSlab {W : World ω} {s : HeapVars ω} {B n next : Nat} (c : Nat) (hB : Inside B n B)
    (hn : Inside B n next) : Local W s (listSlab s (descOf W s B) c next) B n := by
  have h₁ : Local W s (s.modify (descOf W s B) fun d => { d with prevFree := .num 0 }) B n :=
    .modify hB _
  have h₂ := h₁.trans (Local.setFreeSlab c (some (descOf W s B)))
  exact ((h₂.andModify hB _).trans (Local.setNodePrev 0 (.inr hn))).andModify hB _

section NewSlab

variable {W : World ω} {A : Buddies W} {s : HeapVars ω} {c a : Nat} (hok : A.Ok s)
  (howned : A.owned s.world a = some (s.slabs c).slabSize)
include hok howned

theorem new_block : (s.slabs c).slabSize ∣ a ∧ a ≠ 0 ∧ a + (s.slabs c).slabSize ≤ 2 ^ 32 ∧
    Inside a (s.slabs c).slabSize a := by
  obtain ⟨k, -, hn, hdvd, hne, hend⟩ := A.block hok howned
  have hpos := Nat.two_pow_pos (buddyExponMin + k)
  exact ⟨hdvd, hne, hend, Nat.le_refl _, by omega⟩

variable (hsized : Sized (s.slabs c))
include hsized

theorem new_tail {m : Nat} (hm : m < 2 ^ (s.slabs c).blockOrder - 1) :
    Inside a (s.slabs c).slabSize (a + pageSize + m * pageSize) ∧
      descOf W s a ≠ descOf W s (a + pageSize + m * pageSize) := by
  obtain ⟨hin, hne⟩ := tail_inside (a := a) hm
  rw [← hsized.slabSize] at hin
  refine ⟨hin, fun e => hne ?_⟩
  obtain ⟨-, -, -, hbase⟩ := new_block hok howned
  exact (A.inj hok howned howned hbase hin e).symm

theorem new_end : (2 ^ (s.slabs c).blockOrder - 1 = 0 ∨
      u32 (a + pageSize) = a + pageSize) ∧
    a + pageSize + (2 ^ (s.slabs c).blockOrder - 1) * pageSize ≤ 2 ^ 32 := by
  obtain ⟨-, -, hend, -⟩ := new_block hok howned
  have hpow : (s.slabs c).slabSize = 2 ^ (s.slabs c).blockOrder * pageSize := by
    rw [hsized.slabSize, Nat.add_comm, pow_add]
    rfl
  have hpos := Nat.two_pow_pos (s.slabs c).blockOrder
  rw [hpow] at hend
  have hsum : a + pageSize + (2 ^ (s.slabs c).blockOrder - 1) * pageSize =
      a + 2 ^ (s.slabs c).blockOrder * pageSize := by
    have hle : pageSize ≤ 2 ^ (s.slabs c).blockOrder * pageSize := Nat.le_mul_of_pos_left _ hpos
    rw [Nat.sub_mul, Nat.one_mul]
    omega
  refine ⟨?_, by omega⟩
  by_cases hone : 2 ^ (s.slabs c).blockOrder - 1 = 0
  · exact .inl hone
  · right
    apply u32_of_lt
    have : 2 * pageSize ≤ 2 ^ (s.slabs c).blockOrder * pageSize := Nat.mul_le_mul_right _ (by omega)
    unfold pageSize at *
    omega

theorem layOut_mem_desc : Local W s (layOut W s c a) a (s.slabs c).slabSize ∧
    (layOut W s c a).slabs = s.slabs ∧
    NodeChain (layOut W s c a).mem (objects (s.slabs c) a) ∧
    ∀ j, (layOut W s c a).desc j = (touchPages W (tailDesc (descOf W s a))
      (2 ^ (s.slabs c).blockOrder - 1) (headSlab s (descOf W s a) c) (a + pageSize)).desc j := by
  obtain ⟨-, -, hend, hbase⟩ := new_block hok howned
  obtain ⟨-, hpages⟩ := new_end hok howned hsized
  have hz := hsized.objSize
  have htwo := hsized.count_two
  have hlast : ((s.slabs c).count - 1) * (s.slabs c).objSize + (s.slabs c).objSize ≤
      (s.slabs c).slabSize := by
    have hmul := hsized.count_mul
    rw [← Nat.succ_pred_eq_of_pos (show 0 < (s.slabs c).count by omega), Nat.succ_mul] at hmul
    exact hmul
  have hhead : Local W s (headSlab s (descOf W s a) c) a (s.slabs c).slabSize :=
    (Local.modify hbase _).andModify hbase _
  have htouch := hhead.trans (Local.touchPages (W := W) (f := tailDesc (descOf W s a))
    (s := headSlab s (descOf W s a) c) hpages fun m hm => (new_tail hok howned hsized hm).1)
  have hstore := htouch.trans (Local.store (.inl hbase) (.num 0))
  obtain ⟨mem, hmem⟩ := linkObjects_same (s.slabs c).objSize ((s.slabs c).count - 1)
    ((touchPages W (tailDesc (descOf W s a)) (2 ^ (s.slabs c).blockOrder - 1)
      (headSlab s (descOf W s a) c) (a + pageSize)).store a (.num 0)) a
  refine ⟨?_, ?_, ?_, ?_⟩
  · refine ⟨?_, ?_, ?_, ?_⟩
    · rw [layOut, hmem]
      exact hstore.world
    · rw [layOut, hmem]
      exact hstore.sizes
    · rw [layOut, hmem]
      exact hstore.desc
    · intro x hx hlow
      rw [layOut, linkObjects_mem hz (by omega), hstore.mem x hx hlow]
      by_contra hcon
      exact hx ⟨by omega, by omega⟩
  · rw [layOut, hmem]
    exact touchPages_slabs
  · have hchain := linkObjects_chain hz ((s.slabs c).count - 1)
      ((touchPages W (tailDesc (descOf W s a)) (2 ^ (s.slabs c).blockOrder - 1)
        (headSlab s (descOf W s a) c) (a + pageSize)).store a (.num 0)) a (by omega)
    rw [Nat.sub_add_cancel (by omega)] at hchain
    exact hchain
  · intro j
    rw [layOut, hmem]
    rfl

theorem ok_layOut : A.Ok (layOut W s c a) := by
  obtain ⟨-, -, -, hbase⟩ := new_block hok howned
  obtain ⟨-, hpages⟩ := new_end hok howned hsized
  have h₁ : A.Ok (s.modify (descOf W s a) fun d =>
      { d with flags := { d.flags with buddy := false } }) :=
    A.ok_modify hok howned hbase (by simp)
  have h₂ : A.Ok (headSlab s (descOf W s a) c) :=
    A.ok_modify (x := a) h₁ howned hbase
      (f := fun d => { d.setCounts (s.slabs c).count 0 with buddyCache := .slabs c })
      (by simp [HeapVars.modify, descOf, Desc.setCounts])
  apply A.ok_linkObjects
  apply A.ok_store
  apply A.ok_touchPages (P := fun _ => True) _ h₂ howned hpages
  · exact fun m hm => ⟨(new_tail hok howned hsized hm).1, trivial⟩
  · exact fun d _ => ⟨trivial, by simp [tailDesc]⟩

end NewSlab

theorem Sized.objects_eq {o : SlabOrder} (h : Sized o) (a : Nat) :
    ∃ rest, objects o a = a :: (a + o.objSize) :: rest := by
  obtain ⟨n, hn⟩ : ∃ n, o.count = n + 1 + 1 := ⟨o.count - 2, by have := h.count_two; omega⟩
  refine ⟨(List.range n).map fun i => a + (i + 1 + 1) * o.objSize, ?_⟩
  rw [objects, hn, List.range_succ_eq_map, List.range_succ_eq_map]
  simp [Function.comp_def]

theorem length_objects (o : SlabOrder) (a : Nat) : (objects o a).length = o.count := by
  simp [objects]

section InitSlab

variable {W : World ω} {A : Buddies W} {s : HeapVars ω} {c a : Nat} (hok : A.Ok s)
  (howned : A.owned s.world a = some (s.slabs c).slabSize) (hsized : Sized (s.slabs c))
include hok howned hsized

/-- What `alloc_slab` makes of a new block. -/
theorem initSlab_eq
    (hpages : (s.desc (descOf W s a)).numPages = .num (2 ^ (s.slabs c).blockOrder)) :
    initSlab W s c a =
    .ok (listSlab (layOut W s c a) (descOf W s a) c (a + (s.slabs c).objSize), a) := by
  obtain ⟨-, hne, -⟩ := new_block hok howned
  obtain ⟨hva, -⟩ := new_end hok howned hsized
  obtain ⟨-, -, hchain, -⟩ := layOut_mem_desc hok howned hsized
  obtain ⟨rest, hobjs⟩ := hsized.objects_eq a
  have hz := hsized.objSize
  have htwo := hsized.count_two
  have hcount := hsized.count_lt
  have horder := hsized.order
  -- the head still has the number of pages of the block
  have hhead : ((headSlab s (descOf W s a) c).desc (descOf W s a)).numPages.nat =
      .ok (2 ^ (s.slabs c).blockOrder) := by
    rw [headSlab_desc, if_pos rfl]
    show (s.desc (descOf W s a)).numPages.nat = _
    rw [hpages]
    rfl
  have hturns : (u32 (2 ^ (s.slabs c).blockOrder * pageSize) + pageSize - 1) / pageSize - 1 =
      2 ^ (s.slabs c).blockOrder - 1 := by
    have hle : 2 ^ (s.slabs c).blockOrder ≤ 2 ^ 6 := Nat.pow_le_pow_right (by decide) horder
    unfold pageSize
    rw [u32_of_lt (by omega)]
    omega
  have htouch : touchPages W (tailDesc (descOf W s a)) (2 ^ (s.slabs c).blockOrder - 1)
      (headSlab s (descOf W s a) c) (u32 (a + pageSize)) =
      touchPages W (tailDesc (descOf W s a)) (2 ^ (s.slabs c).blockOrder - 1)
      (headSlab s (descOf W s a) c) (a + pageSize) := by
    rcases hva with h0 | hu
    · rw [h0, touchPages, touchPages]
    · rw [hu]
  have hlay : initSlabFreeList (touchPages W (tailDesc (descOf W s a))
      (2 ^ (s.slabs c).blockOrder - 1) (headSlab s (descOf W s a) c) (a + pageSize)) a
      (s.slabs c).objSize ((s.slabs c).slabSize / (s.slabs c).objSize % 2 ^ 16) =
      layOut W s c a := by
    rw [← SlabOrder.count, Nat.mod_eq_of_lt hcount]
    rfl
  have hnext : nodeNext (((layOut W s c a).modify (descOf W s a) fun d =>
      { d with prevFree := .num 0 }).setFreeSlab c (some (descOf W s a))) a =
      .ok (a + (s.slabs c).objSize) := by
    rw [hobjs] at hchain
    rw [nodeNext, if_neg hne]
    show ((layOut W s c a).mem (a + 4)).nat = _
    rw [hchain.1]
    rfl
  have hcountpos : (s.slabs c).slabSize / (s.slabs c).objSize ≠ 0 := by
    show (s.slabs c).count ≠ 0
    omega
  have hobj : (s.slabs c).objSize ≠ 0 := by omega
  have hassert : assert (decide ((s.slabs c).slabSize / (s.slabs c).objSize ≠ 0)) = .ok () := by
    rw [assert, if_pos (decide_eq_true hcountpos)]
  have hfold : (s.modify (descOf W s a) fun d =>
      { d with flags := { d.flags with buddy := false } }).modify (descOf W s a) (fun d =>
      { d.setCounts ((s.slabs c).slabSize / (s.slabs c).objSize) 0 with buddyCache := .slabs c }) =
      headSlab s (descOf W s a) c := rfl
  have hslabs : (s.modify (descOf W s a) fun d =>
      { d with flags := { d.flags with buddy := false } }).slabs = s.slabs := rfl
  unfold initSlab
  simp only [hslabs, if_neg hobj, hassert, ok_bind]
  simp only [hfold, hhead, ok_bind, hturns, markTails_eq, htouch, hlay, hnext]
  rfl

theorem layOut_head : (layOut W s c a).desc (descOf W s a) =
    { (s.desc (descOf W s a)).setCounts (s.slabs c).count 0 with
      flags := { (s.desc (descOf W s a)).flags with buddy := false }, buddyCache := .slabs c } := by
  obtain ⟨-, -, -, hdesc⟩ := layOut_mem_desc hok howned hsized
  obtain ⟨-, hend⟩ := new_end hok howned hsized
  rw [hdesc, touchPages_desc_of_ne hend, headSlab_desc, if_pos rfl]
  exact fun m hm => (new_tail hok howned hsized hm).2

theorem layOut_tail {x : Nat} (hx : Inside a (s.slabs c).slabSize x)
    (hne : descOf W s x ≠ descOf W s a) : (layOut W s c a).desc (descOf W s x) =
      tailDesc (descOf W s a) (s.desc (descOf W s x)) := by
  obtain ⟨-, -, -, hdesc⟩ := layOut_mem_desc hok howned hsized
  obtain ⟨-, hend⟩ := new_end hok howned hsized
  obtain ⟨hdvd, -⟩ := new_block hok howned
  have hpage : x / pageSize ≠ a / pageSize := fun e => hne (congrArg (W.descOf s.world) e)
  rw [hsized.slabSize] at hdvd hx
  obtain ⟨m, hm, he⟩ := page_of_inside hdvd hx hpage
  rw [hdesc, touchPages_desc_of_page (f := tailDesc _) (fun _ => rfl) hend, headSlab_desc,
    if_neg hne]
  exact ⟨m, hm, congrArg (W.descOf s.world) he⟩

theorem new_local : Local W s (listSlab (layOut W s c a) (descOf W s a) c
    (a + (s.slabs c).objSize)) a (s.slabs c).slabSize := by
  obtain ⟨hlocal, -⟩ := layOut_mem_desc hok howned hsized
  obtain ⟨-, -, -, hbase⟩ := new_block hok howned
  have hz := hsized.objSize
  have htwo := hsized.two
  have hnext : Inside a (s.slabs c).slabSize (a + (s.slabs c).objSize) := ⟨by omega, by omega⟩
  have hlist := Local.listSlab (W := W) (s := layOut W s c a) c hbase hnext
  rw [descOf_congr hlocal.world] at hlist
  exact hlocal.trans hlist

variable (hpages : (s.desc (descOf W s a)).numPages = .num (2 ^ (s.slabs c).blockOrder))
variable (hflags : (s.desc (descOf W s a)).flags.vfree = false ∧
  (s.desc (descOf W s a)).flags.head = true)
include hpages hflags

theorem slabAt_new : SlabAt W (listSlab (layOut W s c a) (descOf W s a) c
    (a + (s.slabs c).objSize)) a ⟨c, (objects (s.slabs c) a).tail⟩ := by
  obtain ⟨hlocal, hslabs, hchain, -⟩ := layOut_mem_desc hok howned hsized
  have hhead := layOut_head hok howned hsized
  have hz := hsized.objSize
  have htwo := hsized.count_two
  have hcount := hsized.count_lt
  obtain ⟨-, -, -, hbase⟩ := new_block hok howned
  have hlocal' := new_local hok howned hsized
  have hd := descOf_congr (W := W) hlocal'.world
  obtain ⟨rest, hobjs⟩ := hsized.objects_eq a
  have hlen := length_objects (s.slabs c) a
  have hnodup := hsized.nodup_objects a
  rw [hobjs] at hlen hnodup hchain
  have hmem : ∀ x ∈ (a + (s.slabs c).objSize) :: rest, IsObj (s.slabs c) a x := by
    intro x hx
    rw [← mem_objects, hobjs]
    exact List.mem_cons_of_mem _ hx
  rw [hobjs, List.tail_cons]
  simp only [List.length_cons] at hlen
  constructor
  · rw [hd, listSlab_desc, if_pos rfl, hhead]
    simp [Desc.setCounts, hflags]
  · rw [hd, listSlab_desc, if_pos rfl, hhead, hlocal'.blockOrder_eq]
    exact hpages
  · rw [hd, listSlab_desc, if_pos rfl, hhead, hlocal'.count_eq]
    simp only [Desc.setCounts, Desc.objCount]
    omega
  · rw [hd, listSlab_desc, if_pos rfl, hlocal'.count_eq]
    simp only [Desc.setCounts, Desc.usedCount, List.length_cons]
    omega
  · rw [hd, listSlab_desc, if_pos rfl, hhead]
    rfl
  · rw [hd, listSlab_desc, if_pos rfl]
    rfl
  · intro x hx hne
    rw [hd] at hne ⊢
    rw [(hlocal'.sizes c).2.1] at hx
    rw [listSlab_desc, if_neg hne, layOut_tail hok howned hsized hx hne]
    exact ⟨rfl, rfl, rfl⟩
  · intro x hx
    rw [hlocal'.isObj_iff]
    exact hmem x hx
  · exact (List.nodup_cons.1 hnodup).2
  · apply hchain.2.congr
    intro x hx
    apply listSlab_mem
    -- the store of the taken object goes to the first word of the next one
    have := obj_apart (hmem x hx) (hmem _ List.mem_cons_self)
    omega
  · rw [hlocal'.count_eq]
    show rest.length + 1 < (s.slabs c).count
    omega

omit hpages hflags in
theorem ok_new : A.Ok (listSlab (layOut W s c a) (descOf W s a) c (a + (s.slabs c).objSize)) := by
  obtain ⟨hlocal, -⟩ := layOut_mem_desc hok howned hsized
  obtain ⟨-, -, -, hbase⟩ := new_block hok howned
  have hhead := layOut_head hok howned hsized
  have hslab : ((layOut W s c a).desc (descOf W s a)).flags ≠ ⟨true, true, true⟩ := by
    rw [hhead]
    simp
  have h₁ := A.ok_at (s := s) (f := fun d => { d with prevFree := .num 0 })
    (ok_layOut hok howned hsized) hlocal.world howned hbase (by simp [hslab])
  have h₂ := A.ok_setFreeSlab (c := c) (p := some (descOf W s a)) h₁
  have h₃ := A.ok_at (s := s)
    (f := fun d => { d with nextFree := .num (a + (s.slabs c).objSize) }) h₂
    hlocal.world howned hbase (by simp [HeapVars.setFreeSlab, HeapVars.modify, hslab])
  have h₄ := A.ok_setNodePrev (a + (s.slabs c).objSize) 0 h₃
  apply A.ok_at (s := s) h₄ ((setNodePrev_world _ _ _).trans hlocal.world) howned hbase
  simp [setNodePrev_desc, HeapVars.setFreeSlab, HeapVars.modify, Desc.setCounts, hslab]

end InitSlab

section NewSlabDesc

variable {W : World ω} {A : Buddies W} {s : HeapVars ω} {c a : Nat} (hok : A.Ok s)
  (howned : A.owned s.world a = some (s.slabs c).slabSize) (hsized : Sized (s.slabs c))
include hok howned hsized

theorem new_other {j : Nat} (hj : ∀ x, Inside a (s.slabs c).slabSize x → j ≠ descOf W s x) :
    (listSlab (layOut W s c a) (descOf W s a) c (a + (s.slabs c).objSize)).desc j = s.desc j := by
  obtain ⟨-, -, -, hdesc⟩ := layOut_mem_desc hok howned hsized
  obtain ⟨-, -, -, hbase⟩ := new_block hok howned
  obtain ⟨-, hend⟩ := new_end hok howned hsized
  rw [listSlab_desc, if_neg (hj a hbase), hdesc, touchPages_desc_of_ne hend, headSlab_desc,
    if_neg (hj a hbase)]
  exact fun m hm => hj _ (new_tail hok howned hsized hm).1

theorem new_links : ((listSlab (layOut W s c a) (descOf W s a) c
      (a + (s.slabs c).objSize)).desc (descOf W s a)).prevFree = .num 0 ∧
    ((listSlab (layOut W s c a) (descOf W s a) c
      (a + (s.slabs c).objSize)).desc (descOf W s a)).buddyOrder =
      (s.desc (descOf W s a)).buddyOrder := by
  rw [listSlab_desc, if_pos rfl, layOut_head hok howned hsized]
  exact ⟨rfl, rfl⟩

end NewSlabDesc

section AllocSlab

variable {W : World ω} {A : Buddies W} {C : Nat → Prop} {G : Nat → Nat → Prop} {s : SlabState ω}
  {g : Nat → Option Slab} (h : Inv A C G s g)
include h

theorem Inv.initSlab {c a : Nat} (hc : C c) (hnone : (s.heap.slabs c).freeSlab = none)
    (hfresh : g a = none) (howned : A.owned s.heap.world a = some (s.heap.slabs c).slabSize)
    (hflags : (s.heap.desc (descOf W s.heap a)).flags.vfree = false ∧
      (s.heap.desc (descOf W s.heap a)).flags.head = true)
    (hpages : (s.heap.desc (descOf W s.heap a)).numPages =
      .num (2 ^ (s.heap.slabs c).blockOrder))
    (horder : (s.heap.desc (descOf W s.heap a)).buddyOrder = .num (s.heap.slabs c).blockOrder) :
    Inv A C G ⟨listSlab (layOut W s.heap c a) (descOf W s.heap a) c
        (a + (s.heap.slabs c).objSize), (a, c) :: s.live⟩
      (Function.update g a (some ⟨c, (objects (s.heap.slabs c) a).tail⟩)) := by
  have hsized := h.sized hc
  have hlocal := new_local h.ok howned hsized
  have hd := descOf_congr (W := W) hlocal.world
  obtain ⟨-, hslabs, -, -⟩ := layOut_mem_desc h.ok howned hsized
  obtain ⟨-, -, -, hbase⟩ := new_block h.ok howned
  obtain ⟨rest, hobjs⟩ := hsized.objects_eq a
  have hnd := hsized.nodup_objects a
  have hne : ∀ {B sl}, g B = some sl → B ≠ a := by
    rintro B sl hB rfl
    rw [hfresh] at hB
    cases hB
  have hother : ∀ {B sl}, g B = some sl → ∀ x, Inside a (s.heap.slabs c).slabSize x →
      descOf W s.heap B ≠ descOf W s.heap x := fun hB x hx e =>
    hne hB (A.block_of_desc h.ok (h.owned hB) howned (h.base_inside hB) hx e)
  have hnotlive : ∀ c', (a, c') ∉ s.live := by
    intro c' hlive
    obtain ⟨B, sl, hB, rfl, hobj, -⟩ := (h.live a c').1 hlive
    exact hne hB (A.apart h.ok (h.owned hB) howned (h.obj_inside hB hobj) hbase)
  apply h.local_update hlocal (ok_new h.ok howned hsized) howned
  · intro sl he
    obtain rfl := Option.some.inj he
    exact ⟨hc, (hlocal.sizes c).2.1, slabAt_new h.ok howned hsized hpages hflags⟩
  · intro c' hc'
    obtain ⟨l, havail, hmem⟩ := h.avail hc'
    by_cases hcc : c' = c
    · -- the list was empty and has the new slab now
      subst hcc
      have hl : l = [] := by
        cases l with
        | nil => rfl
        | cons B l =>
          have hhead : (s.heap.slabs c').freeSlab = some (descOf W s.heap B) := havail.linked.1
          rw [hnone] at hhead
          cases hhead
      subst hl
      obtain ⟨hnext, hprev⟩ := new_links h.ok howned hsized
      rw [horder] at hprev
      refine ⟨[a], ⟨by simp, ?_, ?_, ?_⟩, ?_⟩
      · rw [hd, listSlab_slabs, setFreeSlab_self]
        refine ⟨rfl, ?_, ?_⟩
        · rw [prevSlabOf, hprev]
          rfl
        · rw [nextSlabOf, hnext]
          rfl
      · intro B hB
        obtain rfl := List.mem_singleton.1 hB
        rw [hd, hnext]
        exact isPtr_null
      · intro B hB
        obtain rfl := List.mem_singleton.1 hB
        rw [hd, hprev]
        exact .inl ⟨_, rfl, (h.garbage hc').2⟩
      · intro B
        rw [List.mem_singleton]
        constructor
        · rintro rfl
          exact ⟨_, Function.update_self .., rfl, by simp [hobjs]⟩
        · rintro ⟨sl, hB, hrest⟩
          by_contra hBa
          rw [Function.update_of_ne hBa] at hB
          exact absurd ((hmem B).2 ⟨sl, hB, hrest⟩) List.not_mem_nil
    · refine ⟨l, havail.congr (fun B _ => by rw [hd]) ?_ ?_, ?_⟩
      · rw [listSlab_slabs, setFreeSlab_other _ _ hcc, hslabs]
      · intro B hB
        obtain ⟨sl, hg, -⟩ := (hmem B).1 hB
        rw [new_other h.ok howned hsized (hother hg)]
        exact ⟨rfl, rfl⟩
      · intro B
        rw [hmem]
        by_cases hBa : B = a
        · subst hBa
          rw [Function.update_self, hfresh]
          constructor
          · rintro ⟨sl, hB, -⟩
            cases hB
          · rintro ⟨sl, hB, hsc, -⟩
            obtain rfl := Option.some.inj hB
            exact absurd hsc.symm hcc
        · rw [Function.update_of_ne hBa]
  · intro x c'
    rw [List.mem_cons, h.live]
    rw [hobjs] at hnd ⊢
    constructor
    · rintro (he | ⟨B, sl, hB, hrest⟩)
      · obtain ⟨rfl, rfl⟩ := Prod.mk.inj he
        refine .inr ⟨_, rfl, rfl, ?_, (List.nodup_cons.1 hnd).1⟩
        rw [← mem_objects, hobjs]
        exact List.mem_cons_self
      · exact .inl ⟨B, sl, hne hB, hB, hrest⟩
    · rintro (⟨B, sl, -, hB, hrest⟩ | ⟨sl, he, rfl, hobj, hfree⟩)
      · exact .inr ⟨B, sl, hB, hrest⟩
      · obtain rfl := Option.some.inj he
        left
        rw [← mem_objects, hobjs] at hobj
        rw [(List.mem_cons.1 hobj).resolve_right hfree]
  · exact List.nodup_cons.2 ⟨hnotlive c, h.nodup⟩

/-- `alloc_slab`, where the block allocator has a block if it is asked for one. -/
theorem Inv.allocSlab {c : Nat} (hc : C c) :
    (∃ t B a F, Heap.allocSlab W A.alloc s.heap c = .ok (t, a) ∧ g B = some ⟨c, a :: F⟩ ∧
      A.owned t.world = A.owned s.heap.world ∧
      Inv A C G ⟨t, (a, c) :: s.live⟩ (Function.update g B (some ⟨c, F⟩))) ∨
    (∃ t a, Heap.allocSlab W A.alloc s.heap c = .ok (t, a) ∧ A.owned s.heap.world a = none ∧
      A.owned t.world = Function.update (A.owned s.heap.world) a (some (s.heap.slabs c).slabSize) ∧
      g a = none ∧ Inv A C G ⟨t, (a, c) :: s.live⟩
        (Function.update g a (some ⟨c, (objects (s.heap.slabs c) a).tail⟩))) ∨
    ∃ e, A.alloc s.heap (s.heap.slabs c).slabSize = .error e ∧
      Heap.allocSlab W A.alloc s.heap c = .error e := by
  cases hfirst : (s.heap.slabs c).freeSlab with
  | some i =>
    obtain ⟨t, B, a, F, hrun, hB, hworld, hinv⟩ := h.allocFromSlab hc hfirst
    refine .inl ⟨t, B, a, F, ?_, hB, by rw [hworld], hinv⟩
    rw [Heap.allocSlab, hfirst]
    exact hrun
  | none =>
    right
    have hrun : Heap.allocSlab W A.alloc s.heap c =
        A.alloc s.heap (s.heap.slabs c).slabSize >>= fun r => Heap.initSlab W r.1 c r.2 := by
      rw [Heap.allocSlab, hfirst]
    cases halloc : A.alloc s.heap (s.heap.slabs c).slabSize with
    | error e =>
      rw [halloc] at hrun
      exact .inr ⟨e, rfl, hrun⟩
    | ok r =>
      obtain ⟨t, a⟩ := r
      have hsize := (h.sized hc).slabSize
      rw [hsize] at halloc
      obtain ⟨hok, hnone, howned, hslabs, hkeeps, hvfree, hhead, hpages, horder⟩ :=
        A.alloc_spec h.ok halloc
      rw [← hsize] at halloc howned
      have hfresh := h.fresh hnone
      have hinv : Inv A C G ⟨t, s.live⟩ g := by
        apply h.keeps hok _ hslabs
        · refine ⟨fun hx => ?_, fun hx => ?_, fun hx => ?_⟩
          · obtain ⟨B, sl, hB, hx⟩ := hx
            exact hkeeps.descOf ⟨B, _, h.owned hB, hx⟩
          · obtain ⟨B, sl, hB, hx⟩ := hx
            exact hkeeps.desc ⟨B, _, h.owned hB, hx⟩
          · obtain ⟨B, sl, hB, hx⟩ := hx
            exact hkeeps.mem ⟨B, _, h.owned hB, hx⟩
        · intro B sl hB
          rw [howned, Function.update_of_ne]
          rintro rfl
          rw [hfresh] at hB
          cases hB
      have hown : A.owned t.world a = some (t.slabs c).slabSize := by
        rw [howned, hslabs, Function.update_self]
      have hnew := hinv.initSlab hc (by rw [hslabs]; exact hfirst) hfresh hown ⟨hvfree, hhead⟩
        (by rw [hslabs]; exact hpages) (by rw [hslabs]; exact horder)
      have heq := initSlab_eq hok hown (hinv.sized hc) (by rw [hslabs]; exact hpages)
      left
      refine ⟨listSlab (layOut W t c a) (descOf W t a) c (a + (t.slabs c).objSize), a, ?_, hnone,
        ?_, hfresh, ?_⟩
      · rw [hrun, halloc]
        exact heq
      · rw [(new_local hok hown (hinv.sized hc)).world]
        exact howned
      · rw [← hslabs]
        exact hnew

end AllocSlab

end X86Kernel.Heap
