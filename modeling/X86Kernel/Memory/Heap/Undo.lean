import X86Kernel.Memory.Heap.Buddy

/- Allocating a block and giving it back leaves the lists of free blocks as they were.

   A request may cut a block through any number of orders, each time the first block of the
   next list; the block it hands out is the upper half of the last cut. When that block
   comes back, the merge finds the lower half of each cut first in the list, in the reverse
   order of the cuts, and each join undoes the cut (`joinList_cutList`), the order of the
   lists included. `Marked.splitDown` carries this through the loop: its last part says what
   a merge from any heap with the lists after the cuts comes to.

   The merge ends at the block the request started from, where the test of `resolve_merge`
   fails as it did before the call: both heaps show the same free blocks. The test may look
   at a page outside the heap there, of which nothing is assumed but that no free block
   passes the test in the beginning. -/
namespace X86Kernel.Heap
open X86Kernel.Lib

variable {ω : Type} {W : World ω}

theorem Marked.mergeable_congr {s t : HeapVars ω} {L : Nat → List Nat} (h : Marked W s L)
    (ht : Marked W t L) (hworld : t.world = s.world) {a k : Nat} (ha : a ∈ L k)
    (hmerge : Mergeable W t a k) : Mergeable W s a k := by
  obtain ⟨hflags, hsize⟩ := hmerge
  obtain ⟨x, l, hx, hxi⟩ := ht.only _ hflags
  rw [← hxi, (ht.head hx).numPages, (ht.head ha).numPages] at hsize
  rw [descOf_congr hworld] at hxi
  constructor
  · rw [← hxi, h.flags hx]
  · rw [← hxi, (h.head hx).numPages, (h.head ha).numPages, hsize]

/-- One turn of the merge joins the halves of the last cut. -/
theorem Marked.resolveMerge_cut {t : HeapVars ω} {L : Nat → List Nat} {k a : Nat} {rest : List Nat}
    (ht : Marked W t (cutList L k a rest)) (hfirst : L (k + 1) = a :: rest)
    (haligned : 2 ^ (buddyExponMin + k + 1) ∣ a) :
    ∃ t', resolveMerge W t (descOf W t (a + 2 ^ (buddyExponMin + k))) k =
        .ok (t', some (descOf W t a)) ∧ Marked W t' L ∧ t'.world = t.world := by
  have hcut : cutList L k a rest k = (a + 2 ^ (buddyExponMin + k)) :: a :: L k := by
    simp [cutList]
  have hhigh : a + 2 ^ (buddyExponMin + k) ∈ cutList L k a rest k := mem_first hcut
  have hbuddy : buddy buddyExponMin (a + 2 ^ (buddyExponMin + k)) k = a := by
    rw [← buddy_low haligned, buddy_buddy]
  have hlow : buddy buddyExponMin (a + 2 ^ (buddyExponMin + k)) k ∈ cutList L k a rest k := by
    rw [hbuddy, hcut]
    exact List.mem_cons_of_mem _ List.mem_cons_self
  obtain ⟨t', low, hcase, -, -, hdvd, hrun, ht', hsame⟩ :=
    ht.resolveMerge_some hhigh hlow (ht.mergeable hhigh hlow)
  -- the upper half is not aligned to the next order, so the joined block is at `a`
  have hlow : low = a := by
    rcases hcase with hcase | hcase
    · exfalso
      rw [← hcase] at hdvd
      have hhalf := (Nat.dvd_add_right haligned).1 hdvd
      have hle := Nat.le_of_dvd (Nat.two_pow_pos _) hhalf
      have hpos := Nat.two_pow_pos (buddyExponMin + k)
      rw [pow_succ] at hle
      omega
    · omega
  subst hlow
  rw [joinList_cutList hfirst] at ht'
  exact ⟨t', hrun, ht', hsame.world⟩

/-- The loop that splits, and the merge that retraces it: from every heap with the lists
after the cuts, `merge_upwards` at the block that was cut out comes to the block
the loop started with, and to the lists of before. -/
theorem Marked.splitDown {k : Nat} : ∀ (n : Nat) {s : HeapVars ω} {L : Nat → List Nat} {a : Nat}
    {rest : List Nat}, Marked W s L → L (k + n) = a :: rest →
    ∃ s' L' a' rest', splitDown W n s (k + n) = .ok s' ∧ Marked W s' L' ∧
      L' k = a' :: rest' ∧ s'.world = s.world ∧
      ∀ t fuel, Marked W t L' → t.world = s.world →
        ∃ t', mergeUpwards W (fuel + n) t (descOf W s a') k =
            mergeUpwards W fuel t' (descOf W s a) (k + n) ∧
          Marked W t' L ∧ t'.world = s.world := by
  apply splitDown_rule (F := fun L => L) (I := fun s L _ => Marked W s L)
    (R := fun n s L a s' L' a' => s'.world = s.world ∧
      ∀ t fuel, Marked W t L' → t.world = s.world →
        ∃ t', mergeUpwards W (fuel + n) t (descOf W s a') k =
            mergeUpwards W fuel t' (descOf W s a) (k + n) ∧
          Marked W t' L ∧ t'.world = s.world)
  · intro s L a _
    exact ⟨rfl, fun t _ ht hworld => ⟨t, rfl, ht, hworld⟩⟩
  · intro n s L a rest h hfirst
    have haligned := h.packing.aligned (mem_first hfirst)
    obtain ⟨s₁, hrun₁, h₁, hsame₁⟩ := h.splitFirst hfirst
    have hworld₁ : s₁.world = s.world := hsame₁.world
    refine ⟨s₁, _, _, _, hrun₁, h₁, cutList_first L (k + n) a rest, ?_⟩
    rintro s₂ L₂ a₂ ⟨hworld₂, hback⟩
    refine ⟨hworld₂.trans hworld₁, fun t fuel ht hworld => ?_⟩
    obtain ⟨t₁, hmerge₁, ht₁, hworld₃⟩ := hback t (fuel + 1) ht (hworld.trans hworld₁.symm)
    obtain ⟨t₂, hmerge₂, ht₂, hworld₄⟩ := ht₁.resolveMerge_cut hfirst haligned
    have hworld₅ : t₁.world = s.world := hworld₃.trans hworld₁
    refine ⟨t₂, ?_, ht₂, hworld₄.trans hworld₅⟩
    rw [descOf_congr hworld₁] at hmerge₁
    rw [descOf_congr hworld₅] at hmerge₂
    have hfuel : fuel + (n + 1) = fuel + 1 + n := by omega
    rw [hfuel, hmerge₁, Heap.mergeUpwards, hmerge₂]
    rfl

theorem Marked.takeFirst_putBack {s : HeapVars ω} {L : Nat → List Nat} (h : Marked W s L)
    {k a : Nat} {rest : List Nat} (hfirst : L k = a :: rest) :
    ∃ s', Heap.takeFirst W s k = .ok (s', a) ∧
      freeBuddy W s' a =
        mergeUpwards W (buddyOrderMax + 2) (Heap.putBack W s' a k) (descOf W s a) k ∧
      Marked W (Heap.putBack W s' a k) L ∧ (Heap.putBack W s' a k).world = s.world := by
  have hmem := mem_first hfirst
  have htail := mem_tail hfirst (h.nodup k)
  obtain ⟨s', hrun, h', hsame⟩ := h.takeFirst hfirst
  have hd : descOf W s' = descOf W s := descOf_congr hsame.world
  have hlive : LiveHead (s'.desc (descOf W s' a)) k := by
    rw [hd]
    exact h.takeFirst_live hmem hsame
  have hnew : ∀ l, a ∉ Function.update L k rest l := by
    intro l hl
    obtain ⟨hl, hne⟩ := (htail a l).1 hl
    exact hne ⟨rfl, h.packing.order_eq hl hmem⟩
  have hpacking : Packing buddyExponMin (fun x l => x ∈ Function.update L k rest l ∨
      x = a ∧ l = k) s'.minAddr s'.curMaxAddr := by
    rw [hsame.minAddr, hsame.curMaxAddr]
    refine h.packing.mono fun x l hx => ?_
    rcases hx with hx | ⟨rfl, rfl⟩
    · exact ((htail x l).1 hx).1
    · exact hmem
  have hput := h'.putBack hlive hnew hpacking (h.order hmem)
  rw [Function.update_self, Function.update_idem, ← hfirst, Function.update_eq_self] at hput
  refine ⟨s', hrun, ?_, hput, (sameData_putBack W s' a k).world.trans hsame.world⟩
  rw [hlive.freeBuddy_eq (h.page_aligned hmem) (h.order hmem), hd]

/-- `free_buddy` undoes `alloc_buddy`: on a heap where the heads of the free blocks and no
other descriptors carry all three flags and no free block can be merged, a request that needs
no growth, given back at once, leaves every list with the same blocks in the same order. -/
theorem freeBuddy_allocBuddy {s : HeapVars ω} {L : Nat → List Nat} (h : Marked W s L)
    (hno : ∀ a k, a ∈ L k → ¬ Mergeable W s a k) {k : Nat} (hserved : Served s k) (fuel : Nat) :
    ∃ s₁ a s₂, allocBuddy W (fuel + 1) s (2 ^ (buddyExponMin + k)) = .ok (s₁, a) ∧
      freeBuddy W s₁ a = .ok s₂ ∧ FreeLists s₂ (fun l => (L l).map (descOf W s)) ∧
      Marked W s₂ L := by
  obtain ⟨n, a, rest, hle, hfirst, halloc⟩ := h.toFreeBlocks.allocBuddy_eq hserved fuel
  obtain ⟨s₁, L₁, a₁, rest₁, hsplit, h₁, hfirst₁, hworld₁, hback⟩ := h.splitDown n hfirst
  obtain ⟨s₂, htake, hfree, h₂, hworld₂⟩ := h₁.takeFirst_putBack hfirst₁
  obtain ⟨s₃, hmerge, h₃, hworld₃⟩ :=
    hback _ (buddyOrderMax + 1 - n + 1) h₂ (hworld₂.trans hworld₁)
  have hfuel : buddyOrderMax + 1 - n + 1 + n = buddyOrderMax + 2 := by omega
  have hend : mergeUpwards W (buddyOrderMax + 1 - n + 1) s₃ (descOf W s a) (k + n) = .ok s₃ := by
    have hstop := h₃.resolveMerge_none (mem_first hfirst) fun hm =>
      hno a (k + n) (mem_first hfirst) (h.mergeable_congr h₃ hworld₃ (mem_first hfirst) hm)
    rw [descOf_congr hworld₃] at hstop
    simp [Heap.mergeUpwards, hstop]
  refine ⟨s₂, a₁, s₃, ?_, ?_, ?_, h₃⟩
  · rw [halloc, hsplit, ok_bind, htake]
  · rw [hfree, descOf_congr hworld₁, ← hfuel, hmerge, hend]
  · rw [← descOf_congr hworld₃]
    exact h₃.lists

/-- The free page is handed out and comes back. -/
theorem twoPageHeap_undo :
    ∃ s₁ a s₂, allocBuddy twoPageWorld 1 twoPageHeap 4096 = .ok (s₁, a) ∧
      freeBuddy twoPageWorld s₁ a = .ok s₂ ∧
      FreeLists s₂ (fun l => (twoPageBlocks.free l).map (descOf twoPageWorld twoPageHeap)) ∧
      Marked twoPageWorld s₂ twoPageBlocks.free := by
  apply freeBuddy_allocBuddy (k := 0) twoPageHeap_wellFormed.toRep.marked
  · intro a k ha hmerge
    exact twoPageHeap_wellFormed.noPair ha
      (twoPageHeap_wellFormed.toRep.free_of_mergeable ha hmerge)
  · exact ⟨0, Nat.le_refl _, by decide, by decide⟩

end X86Kernel.Heap
