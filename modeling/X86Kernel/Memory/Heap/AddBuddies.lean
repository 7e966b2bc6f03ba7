import X86Kernel.Memory.Heap.FreeBlocks
import X86Kernel.Memory.Heap.Outline

/- `add_buddies` cuts a range into blocks, when the heap begins.

   From the start of the range on, each turn takes the largest block for what is left and
   for the address that it is at: the blocks grow as long as the alignment of the address is
   the limit, and shrink towards the end. A block that could be joined with its buddy would
   have been taken twice as large, at the address of the lower one. What is proved: the
   blocks on the lists tile the range, and none of them is another one's buddy
   (`addBuddies_tiles`). -/
namespace X86Kernel.Heap
open X86Kernel.Lib

variable {ω : Type}

/-- The lists hold the blocks at the addresses `L order`, which tile `[lo, hi)` and are no
buddies of each other. -/
structure BlocksTile (W : World ω) (s : HeapVars ω) (L : Nat → List Nat) (lo hi : Nat) : Prop where
  lists : FreeLists s fun k => (L k).map (descOf W s)
  head : ∀ {a k}, a ∈ L k → BlockHead (s.desc (descOf W s a)) a k
  tiling : Tiling buddyExponMin (fun a k => a ∈ L k) lo hi
  order : ∀ {a k}, a ∈ L k → k ≤ buddyOrderMax
  apart : ∀ {a k}, a ∈ L k → buddy buddyExponMin a k ∉ L k

/-- The pages of a range have descriptors of their own: `init_heap` maps them to as many
frames before it calls `add_buddies`. -/
def OwnFrames (W : World ω) (s : HeapVars ω) (lo hi : Nat) : Prop :=
  ∀ p q, lo ≤ p * pageSize → p * pageSize < hi → lo ≤ q * pageSize → q * pageSize < hi →
    W.descOf s.world p = W.descOf s.world q → p = q

/-- The blocks up to `x`, none of which could be larger in a range that ends at `hi`. -/
structure BlocksUpTo (W : World ω) (s : HeapVars ω) (L : Nat → List Nat) (lo x hi : Nat) :
    Prop where
  lists : FreeLists s fun k => (L k).map (descOf W s)
  head : ∀ {a k}, a ∈ L k → BlockHead (s.desc (descOf W s a)) a k
  tiling : Tiling buddyExponMin (fun a k => a ∈ L k) lo x
  order : ∀ {a k}, a ∈ L k → k ≤ buddyOrderMax
  largest : ∀ {a k}, a ∈ L k → 2 ^ (buddyExponMin + k + 1) ∣ a →
    hi < a + 2 ^ (buddyExponMin + k + 1)

/-! ## The order of a block -/

theorem dvd_fitOrder {heapAddr : Nat} (h : 2 ^ buddyExponMin ∣ heapAddr) (order : Nat) :
    2 ^ (buddyExponMin + fitOrder heapAddr order) ∣ heapAddr := by
  induction order with
  | zero => exact h
  | succ order ih =>
    unfold fitOrder
    split_ifs with hfit
    · rw [Nat.add_comm]
      exact Nat.dvd_of_mod_eq_zero hfit
    · exact ih

theorem fitOrder_largest (heapAddr order : Nat) :
    fitOrder heapAddr order = order ∨
      ¬ 2 ^ (buddyExponMin + fitOrder heapAddr order + 1) ∣ heapAddr := by
  induction order with
  | zero => exact .inl rfl
  | succ order ih =>
    unfold fitOrder
    split_ifs with hfit
    · exact .inl rfl
    · refine .inr fun hdvd => ?_
      rcases ih with hsame | hnot
      · rw [hsame] at hdvd
        apply hfit
        rw [Nat.add_comm, ← Nat.add_assoc]
        exact Nat.mod_eq_zero_of_dvd hdvd
      · exact hnot hdvd

/-- The order of the next block, for what is left of the range. -/
def nextOrder (heapAddr remainingSize : Nat) : Nat :=
  fitOrder heapAddr (min (sub32 (log2U32 remainingSize) buddyExponMin) buddyOrderMax)

/-- What one turn takes: a block that is aligned and fits. -/
theorem nextOrder_fits {heapAddr size : Nat} (haligned : heapAddr % pageSize = 0)
    (hpos : size ≠ 0) (hpage : size % pageSize = 0) (hlt : size < 2 ^ 32) :
    2 ^ (buddyExponMin + nextOrder heapAddr size) ∣ heapAddr ∧
      2 ^ (buddyExponMin + nextOrder heapAddr size) ≤ size ∧
      nextOrder heapAddr size ≤ buddyOrderMax := by
  refine ⟨dvd_fitOrder (Nat.dvd_of_mod_eq_zero haligned) _, ?_,
    (fitOrder_le _ _).trans (Nat.min_le_right _ _)⟩
  rw [Nat.add_comm]
  exact fitOrder_size heapAddr hpos hpage hlt

theorem nextOrder_spec {heapAddr size : Nat} (haligned : heapAddr % pageSize = 0)
    (hpos : size ≠ 0) (hpage : size % pageSize = 0) (hlt : size < 2 ^ 31) :
    2 ^ (buddyExponMin + nextOrder heapAddr size) ∣ heapAddr ∧
      2 ^ (buddyExponMin + nextOrder heapAddr size) ≤ size ∧
      nextOrder heapAddr size ≤ buddyOrderMax ∧
      (2 ^ (buddyExponMin + nextOrder heapAddr size + 1) ∣ heapAddr →
        size < 2 ^ (buddyExponMin + nextOrder heapAddr size + 1)) := by
  have hlog : log2U32 size < 31 := (Nat.log2_lt hpos).2 hlt
  have hge : buddyExponMin ≤ log2U32 size := by
    apply (Nat.le_log2 hpos).2
    unfold pageSize at hpage
    show 2 ^ 12 ≤ size
    omega
  have hleast : min (sub32 (log2U32 size) buddyExponMin) buddyOrderMax =
      log2U32 size - buddyExponMin := by
    rw [sub32_of_le (by omega) hge]
    unfold buddyOrderMax buddyExponMax buddyExponMin at *
    omega
  obtain ⟨haddr, hfits, horder⟩ := nextOrder_fits haligned hpos hpage (by omega)
  refine ⟨haddr, hfits, horder, fun hdvd => ?_⟩
  have hwhole : nextOrder heapAddr size =
      min (sub32 (log2U32 size) buddyExponMin) buddyOrderMax :=
    (fitOrder_largest heapAddr _).resolve_right fun hnot => hnot hdvd
  have hexpon : buddyExponMin + nextOrder heapAddr size = log2U32 size := by
    rw [hwhole, hleast]
    exact Nat.add_sub_of_le hge
  rw [hexpon]
  exact Nat.lt_log2_self

/-! ## The loop -/

theorem addBuddies_succ (W : World ω) (fuel : Nat) (s : HeapVars ω) {heapAddr size : Nat}
    (hsize : size ≠ 0) (haligned : heapAddr % pageSize = 0) :
    addBuddies W true (fuel + 1) s heapAddr size =
      addBuddies W true fuel (placeBuddy W s heapAddr (nextOrder heapAddr size))
        (u32 (heapAddr + 2 ^ (nextOrder heapAddr size + buddyExponMin)))
        (sub32 size (2 ^ (nextOrder heapAddr size + buddyExponMin))) := by
  rw [addBuddies, if_neg hsize]
  simp only [haligned, or_true, assert, decide_true, if_true, ok_bind]
  rfl

variable {W : World ω} {s : HeapVars ω} {L : Nat → List Nat} {lo x hi : Nat}

/-- The descriptor of a new block. -/
def addDesc (s : HeapVars ω) (i a k : Nat) : HeapVars ω :=
  s.modify i fun d => { d with
    flags := { d.flags with head := true }, numPages := .num (2 ^ k), virtAddr := a,
    buddyOrder := .num k, buddyCache := .buddies k }

theorem desc_addDesc (s : HeapVars ω) (i a k j : Nat) : (addDesc s i a k).desc j =
    if j = i then { s.desc i with
      flags := { (s.desc i).flags with head := true }, numPages := .num (2 ^ k), virtAddr := a,
      buddyOrder := .num k, buddyCache := .buddies k }
    else s.desc j := rfl

theorem sameData_placeBuddy (W : World ω) (s : HeapVars ω) (a k : Nat) :
    SameData (addDesc s (descOf W s a) a k) (placeBuddy W s a k) := by
  have hpush := sameData_pushFree (s.modify (descOf W s a) fun d => { d with
    flags := { d.flags with head := true }, buddyCache := .buddies k,
    buddyOrder := .num k, virtAddr := a }) k (descOf W s a)
  refine ⟨hpush.world, hpush.minAddr, hpush.curMaxAddr, fun j => ?_⟩
  obtain ⟨p, q, hpq⟩ := hpush.data j
  refine ⟨p, q, ?_⟩
  by_cases hj : j = descOf W s a
  · rw [desc_addDesc, if_pos hj]
    simp only [placeBuddy, HeapVars.modify, hj, if_true] at hpq ⊢
    rw [hpq, Nat.pow_add, show 2 ^ buddyExponMin = pageSize from rfl,
      Nat.mul_div_cancel _ (by decide)]
  · rw [desc_addDesc, if_neg hj]
    simp only [placeBuddy, HeapVars.modify, hj, if_false] at hpq ⊢
    exact hpq

theorem placeBuddy_world (s : HeapVars ω) (heapAddr order : Nat) :
    (placeBuddy W s heapAddr order).world = s.world :=
  (sameData_placeBuddy W s heapAddr order).world

theorem placeBuddy_head (W : World ω) (s : HeapVars ω) (x order : Nat) :
    BlockHead ((placeBuddy W s x order).desc (descOf W s x)) x order := by
  have hsame := sameData_placeBuddy W s x order
  constructor
  · rw [hsame.numPages, desc_addDesc, if_pos rfl]
  · rw [hsame.virtAddr, desc_addDesc, if_pos rfl]

theorem placeBuddy_head_of_ne {i a k : Nat} (h : BlockHead (s.desc i) a k) (order : Nat)
    (hne : i ≠ descOf W s x) : BlockHead ((placeBuddy W s x order).desc i) a k := by
  have hsame := sameData_placeBuddy W s x order
  constructor
  · rw [hsame.numPages, desc_addDesc, if_neg hne]
    exact h.numPages
  · rw [hsame.virtAddr, desc_addDesc, if_neg hne]
    exact h.virtAddr

theorem placeBuddy_lists
    (h : FreeLists s fun k => (L k).map (descOf W s))
    (hfree : ∀ k, descOf W s x ∉ (L k).map (descOf W s)) (order : Nat) :
    FreeLists (placeBuddy W s x order)
      fun k => (Function.update L order (x :: L order) k).map (descOf W s) := by
  have hmarked := h.modify (descOf W s x) (fun d => { d with
    flags := { d.flags with head := true }, buddyCache := .buddies order,
    buddyOrder := .num order, virtAddr := x }) (.inl hfree)
  have hpush : FreeLists (placeBuddy W s x order) (Function.update
      (fun k => (L k).map (descOf W s)) order (descOf W s x :: (L order).map (descOf W s))) :=
    (hmarked.push hfree order).modify _ _ (.inr ⟨rfl, rfl⟩)
  convert hpush using 1
  funext k
  by_cases hk : k = order
  · subst hk
    simp
  · simp [hk]

theorem BlocksUpTo.descOf_ne (h : BlocksUpTo W s L lo x hi) (hframes : OwnFrames W s lo hi)
    (hlo : lo ≤ x) (hlt : x < hi) {order : Nat} (hdvd : 2 ^ (buddyExponMin + order) ∣ x)
    {a k : Nat} (ha : a ∈ L k) : descOf W s a ≠ descOf W s x := by
  intro he
  obtain ⟨halo, hahi⟩ := h.tiling.inside ha
  have hapos := Nat.two_pow_pos (buddyExponMin + k)
  have hapage := page_of_dvd (h.tiling.aligned ha)
  have hxpage := page_of_dvd hdvd
  have hpage := hframes (a / pageSize) (x / pageSize) (by omega) (by omega) (by omega)
    (by omega) he
  rw [hpage, hxpage] at hapage
  omega

theorem BlocksUpTo.place (h : BlocksUpTo W s L lo x hi) (hframes : OwnFrames W s lo hi)
    (hlo : lo ≤ x) (hlt : x < hi) {order : Nat} (horder : order ≤ buddyOrderMax)
    (hdvd : 2 ^ (buddyExponMin + order) ∣ x)
    (hlargest : 2 ^ (buddyExponMin + order + 1) ∣ x → hi < x + 2 ^ (buddyExponMin + order + 1)) :
    BlocksUpTo W (placeBuddy W s x order) (Function.update L order (x :: L order)) lo
      (x + 2 ^ (buddyExponMin + order)) hi := by
  have hd : descOf W (placeBuddy W s x order) = descOf W s :=
    descOf_congr (placeBuddy_world s x order)
  have hfree : ∀ k, descOf W s x ∉ (L k).map (descOf W s) := by
    intro k hk
    obtain ⟨a, ha, he⟩ := List.mem_map.1 hk
    exact h.descOf_ne hframes hlo hlt hdvd ha he
  constructor
  · rw [hd]
    exact placeBuddy_lists h.lists hfree order
  · intro a k ha
    rw [hd]
    rcases (mem_push a k).1 ha with ha | ⟨rfl, rfl⟩
    · exact placeBuddy_head_of_ne (h.head ha) order (h.descOf_ne hframes hlo hlt hdvd ha)
    · exact placeBuddy_head W s a k
  · exact h.tiling.append hlo hdvd fun a k => mem_push a k
  · intro a k ha
    rcases (mem_push a k).1 ha with ha | ⟨rfl, rfl⟩
    · exact h.order ha
    · exact horder
  · intro a k ha
    rcases (mem_push a k).1 ha with ha | ⟨rfl, rfl⟩
    · exact h.largest ha
    · exact hlargest

theorem addBuddies_upTo (hpages : hi % pageSize = 0) (hhi : hi ≤ 2 ^ 32)
    (hrange : hi < lo + 2 ^ 31) :
    ∀ (fuel : Nat) {s : HeapVars ω} {L : Nat → List Nat} {x : Nat}, BlocksUpTo W s L lo x hi →
      OwnFrames W s lo hi → lo ≤ x → x ≤ hi → x % pageSize = 0 → (hi - x) / pageSize < fuel →
        ∃ t L', addBuddies W true fuel s (u32 x) (hi - x) = .ok t ∧ BlocksUpTo W t L' lo hi hi := by
  intro fuel
  induction fuel with
  | zero =>
    intro s L x _ _ _ _ _ hfuel
    exact absurd hfuel (Nat.not_lt_zero _)
  | succ fuel ih =>
    intro s L x h hframes hlo hx haligned hfuel
    by_cases hend : x = hi
    · subst hend
      refine ⟨s, L, ?_, h⟩
      rw [Nat.sub_self, addBuddies, if_pos rfl]
    · have hpos : hi - x ≠ 0 := by omega
      have hleft : (hi - x) % pageSize = 0 := by
        unfold pageSize at *
        omega
      obtain ⟨hdvd, hfits, horder, hlargest⟩ := nextOrder_spec haligned hpos hleft (by omega)
      rw [u32_of_lt (by omega), addBuddies_succ W fuel s (by omega) haligned]
      generalize nextOrder x (hi - x) = order at *
      rw [Nat.add_comm order] at *
      have hplaced := h.place hframes hlo (by omega) horder hdvd fun hdvd => by
        have := hlargest hdvd
        omega
      have hblock : 2 ^ (buddyExponMin + order) = pageSize * 2 ^ order := Nat.pow_add ..
      have hblock_pos := Nat.two_pow_pos order
      rw [sub32_of_le (by omega) hfits, Nat.sub_sub]
      refine ih hplaced ?_ (by omega) (by omega) ?_ ?_
      · unfold OwnFrames
        rw [placeBuddy_world]
        exact hframes
      · rw [hblock, Nat.add_mul_mod_self_left]
        exact haligned
      · rw [hblock] at hfits ⊢
        have hpages_left : 2 ^ order ≤ (hi - x) / pageSize :=
          (Nat.le_div_iff_mul_le (by decide)).2 (by rwa [Nat.mul_comm])
        rw [← Nat.sub_sub, Nat.sub_mul_div]
        omega

/-- From empty lists on, `add_buddies` returns, and its blocks tile the range: each is
aligned and has the size of its list, and no two of them are buddies. -/
theorem addBuddies_tiles (W : World ω) (s : HeapVars ω) {heapAddr initSize : Nat}
    (haligned : heapAddr % pageSize = 0) (hsize : initSize ≠ 0) (hpages : initSize % pageSize = 0)
    (hlt : initSize < 2 ^ 31) (hend : heapAddr + initSize ≤ 2 ^ 32)
    (hempty : ∀ k, s.freeBuddies k = none)
    (hframes : OwnFrames W s heapAddr (heapAddr + initSize)) :
    ∃ t L, addBuddies W true (initSize / pageSize + 1) s heapAddr initSize = .ok t ∧
      BlocksTile W t L heapAddr (heapAddr + initSize) := by
  have hstart : BlocksUpTo W s (fun _ => []) heapAddr heapAddr (heapAddr + initSize) := by
    refine ⟨⟨fun k => ?_, fun _ => List.nodup_nil, nofun, nofun⟩, nofun,
      Tiling.empty nofun heapAddr, nofun, nofun⟩
    rw [hempty k]
    exact rfl
  have hhi : (heapAddr + initSize) % pageSize = 0 := by
    unfold pageSize at *
    omega
  obtain ⟨t, L, hrun, h⟩ := addBuddies_upTo hhi hend (by omega) (initSize / pageSize + 1) hstart
    hframes (Nat.le_refl _) (Nat.le_add_right _ _) haligned (by
      rw [Nat.add_sub_cancel_left]
      exact Nat.lt_succ_self _)
  rw [u32_of_lt (by omega), Nat.add_sub_cancel_left] at hrun
  exact ⟨t, L, hrun, h.lists, h.head, h.tiling, h.order, h.tiling.no_buddies h.largest⟩

/-- 20 KiB from 0x3000 on: a page, and 16 KiB. -/
theorem addBuddies_tiles_twenty : ∃ t L,
    addBuddies flatWorld true (0x5000 / pageSize + 1) emptyHeap 0x3000 0x5000 = .ok t ∧
      BlocksTile flatWorld t L 0x3000 (0x3000 + 0x5000) :=
  addBuddies_tiles flatWorld emptyHeap (by decide) (by decide) (by decide) (by decide) (by decide)
    (fun _ => rfl) fun _ _ _ _ _ _ h => h

end X86Kernel.Heap
