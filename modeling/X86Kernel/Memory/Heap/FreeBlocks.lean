import X86Kernel.Lib.Tiling
import X86Kernel.Memory.Heap.FreeLists

/- The listed blocks of the buddy allocator, and what the steps of its calls do to them.

   `FreeBlocks W s L` says that the lists of the heap `s` hold the blocks at the addresses
   `L order`, in this order, that each shows its size and address in its descriptor, that they
   are aligned and do not overlap, and that no two pages of the heap have one descriptor.
   Nothing is said of the pages outside the lists, nor of the flags.

   What is proved, for each step: it returns, the lists change as `cutList`, `joinList` or an
   update of one list say, and the descriptors change as the explicit step on the side says,
   the links apart (`SameData`): `FreeBlocks.splitFirst`, `takeFirst`, `putBack` and
   `joinBlocks`. A join undoes a cut (`joinList_cutList`). -/
namespace X86Kernel.Heap
open X86Kernel.Lib

variable {ω : Type}

theorem descOf_congr {W : World ω} {s s' : HeapVars ω} (h : s'.world = s.world) :
    descOf W s' = descOf W s := by
  funext va
  rw [descOf, h]
  rfl

/-- The descriptor shows a block of order `k` at `a`. -/
structure BlockHead (d : Desc) (a k : Nat) : Prop where
  numPages : d.numPages = .num (2 ^ k)
  virtAddr : d.virtAddr = a

/-- The heap lists these blocks. -/
structure FreeBlocks (W : World ω) (s : HeapVars ω) (L : Nat → List Nat) : Prop where
  lists : FreeLists s fun k => (L k).map (descOf W s)
  head : ∀ {a k}, a ∈ L k → BlockHead (s.desc (descOf W s a)) a k
  packing : Packing buddyExponMin (fun a k => a ∈ L k) s.minAddr s.curMaxAddr
  order : ∀ {a k}, a ∈ L k → k ≤ buddyOrderMax
  bound : s.curMaxAddr < 2 ^ 32
  inj : ∀ {p q}, s.minAddr ≤ p * pageSize → p * pageSize < s.curMaxAddr →
    s.minAddr ≤ q * pageSize → q * pageSize < s.curMaxAddr →
    W.descOf s.world p = W.descOf s.world q → p = q

theorem FreeBlocks.update {W : World ω} {s s' : HeapVars ω} {L L' : Nat → List Nat}
    (h : FreeBlocks W s L) (hworld : s'.world = s.world) (hmin : s'.minAddr = s.minAddr)
    (hmax : s'.curMaxAddr = s.curMaxAddr) (hlists : FreeLists s' fun k => (L' k).map (descOf W s))
    (hhead : ∀ {a k}, a ∈ L' k → BlockHead (s'.desc (descOf W s a)) a k)
    (hpacking : Packing buddyExponMin (fun a k => a ∈ L' k) s.minAddr s.curMaxAddr)
    (horder : ∀ {a k}, a ∈ L' k → k ≤ buddyOrderMax) : FreeBlocks W s' L' := by
  have hd : descOf W s' = descOf W s := descOf_congr hworld
  constructor
  · rw [hd]; exact hlists
  · rw [hd]; exact hhead
  · rw [hmin, hmax]; exact hpacking
  · exact horder
  · rw [hmax]; exact h.bound
  · rw [hmin, hmax, hworld]; exact h.inj

theorem page_of_dvd {a k : Nat} (h : 2 ^ (buddyExponMin + k) ∣ a) :
    a / pageSize * pageSize = a := by
  have hdvd : 2 ^ 12 ∣ a := Dvd.dvd.trans ⟨2 ^ k, pow_add 2 12 k⟩ h
  exact Nat.div_mul_cancel hdvd

section Pages

variable {W : World ω} {s : HeapVars ω} {L : Nat → List Nat} (h : FreeBlocks W s L)
include h

theorem FreeBlocks.page_aligned {a k : Nat} (ha : a ∈ L k) : a / pageSize * pageSize = a :=
  page_of_dvd (h.packing.aligned ha)

theorem FreeBlocks.desc_inj {a k x : Nat} (ha : a ∈ L k) (hx : x / pageSize * pageSize = x)
    (hlo : s.minAddr ≤ x) (hhi : x < s.curMaxAddr) (he : descOf W s x = descOf W s a) : x = a := by
  have hpage := h.page_aligned ha
  obtain ⟨halo, hahi⟩ := h.packing.inside ha
  have hpos := Nat.two_pow_pos (buddyExponMin + k)
  have hp : a / pageSize = x / pageSize :=
    h.inj (by omega) (by omega) (by omega) (by omega) he.symm
  rw [← hpage, ← hx, hp]

theorem FreeBlocks.head_inj {a k x l : Nat} (ha : a ∈ L k) (hx : x ∈ L l)
    (he : descOf W s x = descOf W s a) : x = a := by
  obtain ⟨hlo, hhi⟩ := h.packing.inside hx
  have hpos := Nat.two_pow_pos (buddyExponMin + l)
  exact h.desc_inj ha (h.page_aligned hx) hlo (by omega) he

theorem FreeBlocks.nodup (k : Nat) : (L k).Nodup := (h.lists.nodup k).of_map _

theorem FreeBlocks.end_lt {a k : Nat} (ha : a ∈ L k) : a + 2 ^ (buddyExponMin + k) < 2 ^ 32 :=
  lt_of_le_of_lt (h.packing.inside ha).2 h.bound

end Pages

/-! ## Cutting the first block -/

/-- The lists after the first block of order `k + 1`, at `a`, was cut. -/
def cutList (L : Nat → List Nat) (k a : Nat) (rest : List Nat) : Nat → List Nat :=
  Function.update (Function.update L (k + 1) rest) k ((a + 2 ^ (buddyExponMin + k)) :: a :: L k)

theorem mem_cutList {L : Nat → List Nat} {k a : Nat} {rest : List Nat}
    (hfirst : L (k + 1) = a :: rest) (hn : (L (k + 1)).Nodup) (x l : Nat) :
    x ∈ cutList L k a rest l ↔
      (x ∈ L l ∧ ¬ (x = a ∧ l = k + 1)) ∨ l = k ∧ (x = a ∨ x = a + 2 ^ (buddyExponMin + k)) := by
  rw [hfirst] at hn
  have ha := (List.nodup_cons.1 hn).1
  by_cases hk : l = k
  · subst hk
    have hne : ¬ l = l + 1 := by omega
    simp only [cutList, Function.update_self, List.mem_cons, hne, and_false, not_false_eq_true,
      and_true, true_and]
    tauto
  · by_cases hk' : l = k + 1
    · subst hk'
      simp only
        [cutList, Function.update_of_ne hk, Function.update_self, hfirst, List.mem_cons,
        hk, false_and, or_false, and_true]
      constructor
      · intro hx
        exact ⟨.inr hx, fun e => ha (e ▸ hx)⟩
      · intro hx
        exact hx.1.resolve_left hx.2
    · simp only
        [cutList, Function.update_of_ne hk, Function.update_of_ne hk', hk, hk', and_false,
        not_false_eq_true, and_true, false_and, or_false]

/-- The descriptors of the two halves. -/
def splitDesc (s : HeapVars ω) (cur neighbor k neighborVa : Nat) : HeapVars ω :=
  (s.modify cur fun d => { d with
    numPages := .num (2 ^ k), buddyOrder := .num k, buddyCache := .buddies k }).modify
  neighbor fun _ => {
    flags := ⟨true, true, true⟩, numPages := .num (2 ^ k), virtAddr := neighborVa,
    buddyOrder := .num k, prevFree := .num 0, nextFree := .num 0, buddyCache := .buddies k }

theorem desc_splitDesc (s : HeapVars ω) (cur neighbor k va j : Nat) :
    (splitDesc s cur neighbor k va).desc j =
      if j = neighbor then {
        flags := ⟨true, true, true⟩, numPages := .num (2 ^ k), virtAddr := va,
        buddyOrder := .num k, prevFree := .num 0, nextFree := .num 0, buddyCache := .buddies k }
      else if j = cur then { s.desc cur with
        numPages := .num (2 ^ k), buddyOrder := .num k, buddyCache := .buddies k }
      else s.desc j := rfl

theorem SameData.splitDesc {s s' : HeapVars ω} (h : SameData s s') (cur neighbor k va : Nat) :
    SameData (splitDesc s cur neighbor k va) (splitDesc s' cur neighbor k va) := by
  refine ⟨h.world, h.minAddr, h.curMaxAddr, fun j => ?_⟩
  rw [desc_splitDesc, desc_splitDesc]
  by_cases hn : j = neighbor
  · rw [if_pos hn, if_pos hn]
    exact ⟨_, _, rfl⟩
  · rw [if_neg hn, if_neg hn]
    by_cases hc : j = cur
    · rw [if_pos hc, if_pos hc]
      obtain ⟨p, q, hpq⟩ := h.data cur
      exact ⟨p, q, by rw [hpq]⟩
    · rw [if_neg hc, if_neg hc]
      exact h.data j

theorem mem_first {l rest : List Nat} {a : Nat} (h : l = a :: rest) : a ∈ l := by
  rw [h]
  exact List.mem_cons_self

section Split

variable {W : World ω} {s : HeapVars ω} {L : Nat → List Nat} (h : FreeBlocks W s L) {k a : Nat}
  {rest : List Nat} (hfirst : L (k + 1) = a :: rest)
include h hfirst

theorem FreeBlocks.upper_half {x l : Nat} (hx : x ∈ L l) :
    descOf W s x ≠ descOf W s (a + 2 ^ (buddyExponMin + k)) := by
  have ha := mem_first hfirst
  have hdvd : 2 ^ (buddyExponMin + k) ∣ a := Dvd.dvd.trans ⟨2, by ring⟩ (h.packing.aligned ha)
  have hpage := page_of_dvd (k := k) (Nat.dvd_add hdvd (Nat.dvd_refl _))
  have hpos := Nat.two_pow_pos (buddyExponMin + k)
  have hpos' := Nat.two_pow_pos (buddyExponMin + l)
  have hdouble : 2 ^ (buddyExponMin + (k + 1)) = 2 * 2 ^ (buddyExponMin + k) := by ring
  obtain ⟨hlo, hhi⟩ := h.packing.inside ha
  intro he
  have hxa := h.desc_inj hx hpage (by omega) (by omega) he.symm
  have := (h.packing.apart x ha hx (by omega) (by omega) (Nat.le_refl _) (by omega)).1
  omega

theorem FreeBlocks.splitFirst_eq :
    splitFirst W s (k + 1) =
      .ok (pushFree (pushFree (splitDesc (popFirst s (k + 1) (descOf W s a)) (descOf W s a)
        (descOf W s (a + 2 ^ (buddyExponMin + k))) k (a + 2 ^ (buddyExponMin + k))) k
        (descOf W s a)) k (descOf W s (a + 2 ^ (buddyExponMin + k)))) := by
  have hmem := mem_first hfirst
  have hhead := h.head hmem
  have hsame := sameData_popFirst s (k + 1) (descOf W s a)
  have hdesc : descOf W (popFirst s (k + 1) (descOf W s a)) = descOf W s :=
    descOf_congr hsame.world
  have hva : ∀ n, n + buddyExponMin = buddyExponMin + n := fun n => Nat.add_comm _ _
  have hu32 : u32 (a + 2 ^ (buddyExponMin + k)) = a + 2 ^ (buddyExponMin + k) := by
    apply u32_of_lt
    have hend := h.end_lt hmem
    have hdouble : 2 ^ (buddyExponMin + (k + 1)) = 2 * 2 ^ (buddyExponMin + k) := by ring
    omega
  have hhalf : 2 ^ (k + 1) / 2 = 2 ^ k := by rw [pow_succ, Nat.mul_div_cancel _ (by decide)]
  have hlist : s.freeBuddies (k + 1) = some (descOf W s a) := by
    rw [h.lists.head_eq]
    simp [hfirst]
  have hnext : (s.desc (descOf W s a)).nextFree.ptr = .ok (nextOf s (descOf W s a)) :=
    (h.lists.ptrs (List.mem_map_of_mem hmem)).1.ptr
  have hpop : (setPrevFree s (nextOf s (descOf W s a)) (.num 0)).setHead (k + 1)
      (nextOf s (descOf W s a)) = popFirst s (k + 1) (descOf W s a) := rfl
  simp only [Heap.splitFirst, hlist, hnext, ok_bind, hpop, Nat.add_sub_cancel,
    hsame.virtAddr, hhead.virtAddr, hdesc, hva, hu32, hsame.numPages, hhead.numPages, Word.nat,
    hhalf, Heap.splitDesc, pure_eq_ok]
  congr 5
  funext _
  simp [HeapVars.modify]

theorem FreeBlocks.splitFirst_lists :
    FreeLists (pushFree (pushFree (splitDesc (popFirst s (k + 1) (descOf W s a)) (descOf W s a)
        (descOf W s (a + 2 ^ (buddyExponMin + k))) k (a + 2 ^ (buddyExponMin + k))) k
        (descOf W s a)) k (descOf W s (a + 2 ^ (buddyExponMin + k))))
      fun l => (cutList L k a rest l).map (descOf W s) := by
  have hmem := mem_first hfirst
  have hL : (L (k + 1)).map (descOf W s) = descOf W s a :: rest.map (descOf W s) := by
    rw [hfirst, List.map_cons]
  have hpop := h.lists.popFirst hL
  -- the upper half is in no list, and the lower one in none any more
  have hupper : ∀ l, descOf W s (a + 2 ^ (buddyExponMin + k)) ∉ (L l).map (descOf W s) := by
    intro l hl
    obtain ⟨x, hx, he⟩ := List.mem_map.1 hl
    exact h.upper_half hfirst hx he
  have hlower : ∀ l, descOf W s a ∉ Function.update (fun l => (L l).map (descOf W s)) (k + 1)
      (rest.map (descOf W s)) l := by
    intro l hl
    by_cases hk : l = k + 1
    · subst hk
      rw [Function.update_self] at hl
      have hn := h.lists.nodup (k + 1)
      rw [hL] at hn
      exact (List.nodup_cons.1 hn).1 hl
    · rw [Function.update_of_ne hk] at hl
      exact hk (h.lists.apart hl (List.mem_map_of_mem hmem))
  have hupper' : ∀ l, descOf W s (a + 2 ^ (buddyExponMin + k)) ∉
      Function.update (fun l => (L l).map (descOf W s)) (k + 1) (rest.map (descOf W s)) l := by
    intro l hl
    by_cases hk : l = k + 1
    · subst hk
      rw [Function.update_self] at hl
      exact hupper (k + 1) (by rw [hL]; exact List.mem_cons_of_mem _ hl)
    · rw [Function.update_of_ne hk] at hl
      exact hupper l hl
  have hne : descOf W s (a + 2 ^ (buddyExponMin + k)) ≠ descOf W s a :=
    fun e => h.upper_half hfirst hmem e.symm
  have hdata : FreeLists (splitDesc (popFirst s (k + 1) (descOf W s a)) (descOf W s a)
      (descOf W s (a + 2 ^ (buddyExponMin + k))) k (a + 2 ^ (buddyExponMin + k))) _ :=
    (hpop.modify (descOf W s a) _ (.inr ⟨rfl, rfl⟩)).modify _ _ (.inl hupper')
  have hlast : ∀ l, descOf W s (a + 2 ^ (buddyExponMin + k)) ∉ Function.update (Function.update
      (fun l => (L l).map (descOf W s)) (k + 1) (rest.map (descOf W s))) k (descOf W s a ::
      Function.update (fun l => (L l).map (descOf W s)) (k + 1) (rest.map (descOf W s)) k) l := by
    intro l hl
    by_cases hk : l = k
    · subst hk
      rw [Function.update_self] at hl
      rcases List.mem_cons.1 hl with hl | hl
      · exact hne hl
      · exact hupper' l hl
    · rw [Function.update_of_ne hk] at hl
      exact hupper' l hl
  have hpush := (hdata.push hlower k).push hlast k
  convert hpush using 1
  funext l
  by_cases hk : l = k
  · subst hk
    simp [cutList]
  · by_cases hk' : l = k + 1
    · subst hk'
      simp [cutList]
    · simp [cutList, hk, hk']

theorem FreeBlocks.splitFirst :
    ∃ s', splitFirst W s (k + 1) = .ok s' ∧ FreeBlocks W s' (cutList L k a rest) ∧
      SameData (splitDesc s (descOf W s a) (descOf W s (a + 2 ^ (buddyExponMin + k))) k
        (a + 2 ^ (buddyExponMin + k))) s' := by
  have hmem := mem_first hfirst
  have hcut := mem_cutList hfirst (h.nodup (k + 1))
  have hsame := ((sameData_popFirst s (k + 1) (descOf W s a)).splitDesc (descOf W s a)
    (descOf W s (a + 2 ^ (buddyExponMin + k))) k (a + 2 ^ (buddyExponMin + k))).trans
    ((sameData_pushFree _ k (descOf W s a)).trans
      (sameData_pushFree _ k (descOf W s (a + 2 ^ (buddyExponMin + k)))))
  have hne : descOf W s a ≠ descOf W s (a + 2 ^ (buddyExponMin + k)) := h.upper_half hfirst hmem
  refine ⟨_, h.splitFirst_eq hfirst, ?_, hsame⟩
  apply h.update hsame.world hsame.minAddr hsame.curMaxAddr (h.splitFirst_lists hfirst)
  · intro x l hx
    have hhead := h.head hmem
    rcases (hcut x l).1 hx with ⟨hx, hxa⟩ | ⟨rfl, rfl | rfl⟩
    · have hnb := h.upper_half hfirst hx
      have hcur : descOf W s x ≠ descOf W s a := by
        intro e
        have hx' := h.head_inj hmem hx e
        exact hxa ⟨hx', h.packing.order_eq (hx' ▸ hx) hmem⟩
      constructor
      · rw [hsame.numPages, desc_splitDesc, if_neg hnb, if_neg hcur, (h.head hx).numPages]
      · rw [hsame.virtAddr, desc_splitDesc, if_neg hnb, if_neg hcur, (h.head hx).virtAddr]
    · constructor
      · rw [hsame.numPages, desc_splitDesc, if_neg hne, if_pos rfl]
      · rw [hsame.virtAddr, desc_splitDesc, if_neg hne, if_pos rfl, hhead.virtAddr]
    · constructor
      · rw [hsame.numPages, desc_splitDesc, if_pos rfl]
      · rw [hsame.virtAddr, desc_splitDesc, if_pos rfl]
  · exact h.packing.split hmem hcut
  · intro x l hx
    have hk := h.order hmem
    rcases (hcut x l).1 hx with ⟨hx, -⟩ | ⟨rfl, -⟩
    · exact h.order hx
    · omega

end Split

/-! ## Handing out -/

theorem mem_tail {L : Nat → List Nat} {k a : Nat} {rest : List Nat} (hfirst : L k = a :: rest)
    (hn : (L k).Nodup) (x l : Nat) :
    x ∈ Function.update L k rest l ↔ x ∈ L l ∧ ¬ (x = a ∧ l = k) := by
  rw [hfirst] at hn
  have ha := (List.nodup_cons.1 hn).1
  by_cases hk : l = k
  · subst hk
    simp only [Function.update_self, hfirst, List.mem_cons, and_true]
    constructor
    · intro hx
      exact ⟨.inr hx, fun e => ha (e ▸ hx)⟩
    · intro hx
      exact hx.1.resolve_left hx.2
  · simp only [Function.update_of_ne hk, hk, and_false, not_false_eq_true, and_true]

/-- The block is no longer free. -/
def takeDesc (s : HeapVars ω) (i : Nat) : HeapVars ω :=
  s.modify i fun d => { d with flags := { d.flags with vfree := false } }

theorem desc_takeDesc (s : HeapVars ω) (i j : Nat) : (takeDesc s i).desc j =
    if j = i then { s.desc i with flags := { (s.desc i).flags with vfree := false } }
    else s.desc j := rfl

theorem FreeBlocks.takeFirst {W : World ω} {s : HeapVars ω} {L : Nat → List Nat}
    (h : FreeBlocks W s L) {k a : Nat} {rest : List Nat} (hfirst : L k = a :: rest) :
    ∃ s', takeFirst W s k = .ok (s', a) ∧ FreeBlocks W s' (Function.update L k rest) ∧
      SameData (takeDesc s (descOf W s a)) s' := by
  have hmem := mem_first hfirst
  have hhead := h.head hmem
  have htake := mem_tail hfirst (h.nodup k)
  have hL : (L k).map (descOf W s) = descOf W s a :: rest.map (descOf W s) := by
    rw [hfirst, List.map_cons]
  have hfirst' : s.freeBuddies k = some (descOf W s a) := by
    rw [h.lists.head_eq]
    simp [hfirst]
  have hnext : (s.desc (descOf W s a)).nextFree.ptr = .ok (nextOf s (descOf W s a)) :=
    (h.lists.ptrs (List.mem_map_of_mem hmem)).1.ptr
  let s₁ := takeDesc (s.setHead k (nextOf s (descOf W s a))) (descOf W s a)
  have hrun : Heap.takeFirst W s k =
      .ok (setPrevFree s₁ (nextOf s (descOf W s a)) (.num 0), a) := by
    have hva : ((s.setHead k (nextOf s (descOf W s a))).desc (descOf W s a)).virtAddr = a :=
      hhead.virtAddr
    have hd : descOf W (s.setHead k (nextOf s (descOf W s a))) = descOf W s := descOf_congr rfl
    simp only [Heap.takeFirst, hfirst', hnext, ok_bind, hva, hd, pure_eq_ok]
    rfl
  have hsame : SameData (takeDesc s (descOf W s a))
      (setPrevFree s₁ (nextOf s (descOf W s a)) (.num 0)) :=
    SameData.trans (⟨rfl, rfl, rfl, (SameData.refl (takeDesc s (descOf W s a))).data⟩ :
      SameData (takeDesc s (descOf W s a)) s₁) (sameData_setPrevFree _ _ _)
  refine ⟨_, hrun, ?_, hsame⟩
  apply h.update hsame.world hsame.minAddr hsame.curMaxAddr
  · have hpop : FreeLists (setPrevFree s₁ (nextOf s (descOf W s a)) (.num 0))
        (Function.update (fun l => (L l).map (descOf W s)) k (rest.map (descOf W s))) := by
      apply h.lists.pop hL
      · intro j hj
        rw [setPrevFree_desc, desc_takeDesc, if_neg hj]
        exact ⟨rfl, rfl⟩
      · intro l
        rw [setPrevFree_freeBuddies]
        rfl
    convert hpop using 1
    funext l
    by_cases hk : l = k
    · subst hk
      simp
    · simp [hk]
  · intro x l hx
    obtain ⟨hx, hxa⟩ := (htake x l).1 hx
    have hne : descOf W s x ≠ descOf W s a := by
      intro e
      have hx' := h.head_inj hmem hx e
      exact hxa ⟨hx', h.packing.order_eq (hx' ▸ hx) hmem⟩
    constructor
    · rw [hsame.numPages, desc_takeDesc, if_neg hne, (h.head hx).numPages]
    · rw [hsame.virtAddr, desc_takeDesc, if_neg hne, (h.head hx).virtAddr]
  · exact h.packing.mono fun x l hx => ((htake x l).1 hx).1
  · intro x l hx
    exact h.order ((htake x l).1 hx).1

/-! ## Giving back -/

theorem mem_push {L : Nat → List Nat} {k a : Nat} (x l : Nat) :
    x ∈ Function.update L k (a :: L k) l ↔ x ∈ L l ∨ x = a ∧ l = k := by
  by_cases hk : l = k
  · subst hk
    simp only [Function.update_self, List.mem_cons, and_true]
    tauto
  · simp only [Function.update_of_ne hk, hk, and_false, or_false]

/-- The live block is first in its list, before it is joined with others. -/
def putBack (W : World ω) (s : HeapVars ω) (a k : Nat) : HeapVars ω :=
  (pushFree (s.modify (descOf W s a) fun d => { d with flags := { d.flags with vfree := true } }) k
    (descOf W s a)).modify (descOf W s a) fun d => { d with virtAddr := a, buddyOrder := .num k }

/-- The block is free again. -/
def giveDesc (s : HeapVars ω) (i a k : Nat) : HeapVars ω :=
  s.modify i fun d => { d with
    flags := { d.flags with vfree := true }, virtAddr := a, buddyOrder := .num k }

theorem desc_giveDesc (s : HeapVars ω) (i a k j : Nat) : (giveDesc s i a k).desc j =
    if j = i then { s.desc i with
      flags := { (s.desc i).flags with vfree := true }, virtAddr := a, buddyOrder := .num k }
    else s.desc j := rfl

theorem sameData_putBack (W : World ω) (s : HeapVars ω) (a k : Nat) :
    SameData (giveDesc s (descOf W s a) a k) (putBack W s a k) := by
  have hpush := sameData_pushFree
    (s.modify (descOf W s a) fun d => { d with flags := { d.flags with vfree := true } }) k
    (descOf W s a)
  refine ⟨hpush.world, hpush.minAddr, hpush.curMaxAddr, fun j => ?_⟩
  obtain ⟨p, q, hpq⟩ := hpush.data j
  refine ⟨p, q, ?_⟩
  by_cases hj : j = descOf W s a
  · rw [desc_giveDesc, if_pos hj]
    simp only [Heap.putBack, HeapVars.modify, hj, if_true] at hpq ⊢
    rw [hpq]
  · rw [desc_giveDesc, if_neg hj]
    simp only [Heap.putBack, HeapVars.modify, hj, if_false] at hpq ⊢
    rw [hpq]

theorem FreeBlocks.new_ne {W : World ω} {s : HeapVars ω} {L : Nat → List Nat} (h : FreeBlocks W s L)
    {k a : Nat} (hnew : ∀ l, a ∉ L l)
    (hpacking : Packing buddyExponMin (fun x l => x ∈ L l ∨ x = a ∧ l = k) s.minAddr s.curMaxAddr)
    {x l : Nat} (hx : x ∈ L l) : descOf W s x ≠ descOf W s a := by
  have hpage := page_of_dvd (hpacking.aligned (.inr ⟨rfl, rfl⟩))
  obtain ⟨hlo, hhi⟩ := hpacking.inside (.inr ⟨rfl, rfl⟩)
  have hpos := Nat.two_pow_pos (buddyExponMin + k)
  intro e
  have hxa := h.desc_inj hx hpage hlo (by omega) e.symm
  exact hnew l (hxa ▸ hx)

theorem FreeBlocks.putBack {W : World ω} {s : HeapVars ω} {L : Nat → List Nat}
    (h : FreeBlocks W s L) {k a : Nat} (hnew : ∀ l, a ∉ L l)
    (hpacking : Packing buddyExponMin (fun x l => x ∈ L l ∨ x = a ∧ l = k) s.minAddr s.curMaxAddr)
    (hk : k ≤ buddyOrderMax) (hpages : (s.desc (descOf W s a)).numPages = .num (2 ^ k)) :
    FreeBlocks W (putBack W s a k) (Function.update L k (a :: L k)) := by
  have hsame := sameData_putBack W s a k
  have hne : ∀ {x l}, x ∈ L l → descOf W s x ≠ descOf W s a :=
    fun hx => h.new_ne hnew hpacking hx
  apply h.update hsame.world hsame.minAddr hsame.curMaxAddr
  · have hlisted : ∀ l, descOf W s a ∉ (L l).map (descOf W s) := by
      intro l hl
      obtain ⟨x, hx, he⟩ := List.mem_map.1 hl
      exact hne hx he
    have hlists : FreeLists (s.modify (descOf W s a) fun d => { d with
        flags := { d.flags with vfree := true } }) fun l => (L l).map (descOf W s) :=
      h.lists.modify _ _ (.inr ⟨rfl, rfl⟩)
    have hpush : FreeLists (Heap.putBack W s a k) (Function.update
        (fun l => (L l).map (descOf W s)) k (descOf W s a :: (L k).map (descOf W s))) :=
      (hlists.push hlisted k).modify _ _ (.inr ⟨rfl, rfl⟩)
    convert hpush using 1
    funext l
    by_cases hk : l = k
    · subst hk
      simp
    · simp [hk]
  · intro x l hx
    rcases (mem_push x l).1 hx with hx | ⟨rfl, rfl⟩
    · constructor
      · rw [hsame.numPages, desc_giveDesc, if_neg (hne hx), (h.head hx).numPages]
      · rw [hsame.virtAddr, desc_giveDesc, if_neg (hne hx), (h.head hx).virtAddr]
    · constructor
      · rw [hsame.numPages, desc_giveDesc, if_pos rfl, hpages]
      · rw [hsame.virtAddr, desc_giveDesc, if_pos rfl]
  · exact hpacking.mono fun x l hx => (mem_push x l).1 hx
  · intro x l hx
    rcases (mem_push x l).1 hx with hx | ⟨-, rfl⟩
    · exact h.order hx
    · exact hk

/-! ## Joining -/

/-- The lists after the blocks of order `k` at `low` and `high` were joined. -/
def joinList (L : Nat → List Nat) (k low high : Nat) : Nat → List Nat :=
  Function.update (Function.update L k (((L k).erase low).erase high)) (k + 1) (low :: L (k + 1))

theorem mem_joinList {L : Nat → List Nat} {k : Nat} (low high : Nat) (hn : (L k).Nodup)
    (x l : Nat) :
    x ∈ joinList L k low high l ↔
      (x ∈ L l ∧ ¬ (l = k ∧ (x = low ∨ x = high))) ∨ x = low ∧ l = k + 1 := by
  by_cases hk : l = k + 1
  · subst hk
    have hne : ¬ k + 1 = k := by omega
    simp only [joinList, Function.update_self, List.mem_cons, hne, false_and, not_false_eq_true,
      and_true]
    tauto
  · by_cases hk' : l = k
    · subst hk'
      simp only [joinList, Function.update_of_ne hk, Function.update_self,
        (hn.erase low).mem_erase_iff, hn.mem_erase_iff, hk, and_false, or_false, true_and]
      tauto
    · simp only
        [joinList, Function.update_of_ne hk, Function.update_of_ne hk', hk, hk', and_false,
        or_false, false_and, not_false_eq_true, and_true]

/-- Joining the halves undoes the cut, the order of the lists included. -/
theorem joinList_cutList {L : Nat → List Nat} {k a : Nat} {rest : List Nat}
    (hfirst : L (k + 1) = a :: rest) :
    joinList (cutList L k a rest) k a (a + 2 ^ (buddyExponMin + k)) = L := by
  have hne : a + 2 ^ (buddyExponMin + k) ≠ a := by
    have := Nat.two_pow_pos (buddyExponMin + k)
    omega
  have hcut : cutList L k a rest k = (a + 2 ^ (buddyExponMin + k)) :: a :: L k := by simp [cutList]
  have hnext : cutList L k a rest (k + 1) = rest := by simp [cutList]
  funext l
  by_cases hk : l = k + 1
  · subst hk
    rw [joinList, Function.update_self, hnext, hfirst]
  · rw [joinList, Function.update_of_ne hk]
    by_cases hk' : l = k
    · subst hk'
      rw [Function.update_self, hcut, List.erase_cons_tail (by simp),
        List.erase_cons_head, List.erase_cons_head]
    · rw [Function.update_of_ne hk', cutList, Function.update_of_ne hk', Function.update_of_ne hk]

theorem map_erase_of_inj {f : Nat → Nat} {a : Nat} : ∀ {l : List Nat},
    (∀ x ∈ l, f x = f a → x = a) → (l.map f).erase (f a) = (l.erase a).map f := by
  intro l
  induction l with
  | nil => intro _; rfl
  | cons x l ih =>
    intro hinj
    by_cases hx : x = a
    · subst hx
      rw [List.map_cons, List.erase_cons_head, List.erase_cons_head]
    · have hfx : f x ≠ f a := fun e => hx (hinj x (by simp) e)
      rw [List.map_cons, List.erase_cons_tail (by simpa using hfx),
        List.erase_cons_tail (by simpa using hx), List.map_cons,
        ih fun y hy => hinj y (List.mem_cons_of_mem _ hy)]

/-- The upper half is no head any more, the lower one the head of the whole. -/
def joinDesc (s : HeapVars ω) (low high k : Nat) : HeapVars ω :=
  (s.modify high fun d => { d with flags := { d.flags with head := false } }).modify low
    fun d => { d with
      buddyCache := .buddies (k + 1), buddyOrder := .num (k + 1), numPages := .num (2 ^ (k + 1)) }

theorem desc_joinDesc {s : HeapVars ω} {low high : Nat} (hne : low ≠ high) (k j : Nat) :
    (joinDesc s low high k).desc j =
      if j = low then { s.desc low with
        buddyCache := .buddies (k + 1), buddyOrder := .num (k + 1), numPages := .num (2 ^ (k + 1)) }
      else if j = high then { s.desc high with flags := { (s.desc high).flags with head := false } }
      else s.desc j := by
  simp only [joinDesc, HeapVars.modify, if_neg hne]

section Join

variable {W : World ω} {s : HeapVars ω} {L : Nat → List Nat} (h : FreeBlocks W s L) {k low : Nat}
  (hlow : low ∈ L k) (hhigh : low + 2 ^ (buddyExponMin + k) ∈ L k)
include h hlow hhigh

omit hlow in
theorem FreeBlocks.join_order : k + 1 ≤ buddyOrderMax := by
  have hend := h.end_lt hhigh
  have hdouble : 2 ^ (buddyExponMin + (k + 1)) = 2 * 2 ^ (buddyExponMin + k) := by ring
  have hlt : 2 ^ (buddyExponMin + (k + 1)) < 2 ^ 32 := by omega
  have := (Nat.pow_lt_pow_iff_right (show 1 < 2 by decide)).1 hlt
  unfold buddyOrderMax buddyExponMax
  unfold buddyExponMin at *
  omega

theorem FreeBlocks.halves_ne :
    descOf W s low ≠ descOf W s (low + 2 ^ (buddyExponMin + k)) := by
  intro e
  have hpos := Nat.two_pow_pos (buddyExponMin + k)
  have := h.head_inj hhigh hlow e
  omega

theorem FreeBlocks.join_lists {s₀ : HeapVars ω}
    (hlists : FreeLists s₀ fun l => (L l).map (descOf W s)) :
    ∃ s₁ s₂, unlinkFree s₀ k (descOf W s low) = .ok s₁ ∧
      unlinkFree s₁ k (descOf W s (low + 2 ^ (buddyExponMin + k))) = .ok s₂ ∧
      SameData s₀
      (pushFree (s₂.modify (descOf W s (low + 2 ^ (buddyExponMin + k))) fun d => { d with
        nextFree := .num 0, prevFree := .num 0 }) (k + 1) (descOf W s low)) ∧
      FreeLists (pushFree (s₂.modify (descOf W s (low + 2 ^ (buddyExponMin + k))) fun d => { d with
        nextFree := .num 0, prevFree := .num 0 }) (k + 1) (descOf W s low))
        fun l => (joinList L k low (low + 2 ^ (buddyExponMin + k)) l).map (descOf W s) := by
  have hdne := h.halves_ne hlow hhigh
  have hmem : descOf W s low ∈ (fun l => (L l).map (descOf W s)) k :=
    List.mem_map_of_mem hlow
  obtain ⟨s₁, hrun₁, hlists₁, hsame₁⟩ := hlists.unlink hmem
  have hmem₁ : descOf W s (low + 2 ^ (buddyExponMin + k)) ∈ Function.update
      (fun l => (L l).map (descOf W s)) k
      (((L k).map (descOf W s)).erase (descOf W s low)) k := by
    rw [Function.update_self]
    exact (List.mem_erase_of_ne hdne.symm).2 (List.mem_map_of_mem hhigh)
  obtain ⟨s₂, hrun₂, hlists₂, hsame₂⟩ := hlists₁.unlink hmem₁
  rw [Function.update_self, Function.update_idem] at hlists₂
  -- the two descriptors are in no list now
  have hgone : ∀ {x}, x ∈ L k → (x = low ∨ x = low + 2 ^ (buddyExponMin + k)) →
      ∀ l, descOf W s x ∉ Function.update (fun l => (L l).map (descOf W s)) k
        ((((L k).map (descOf W s)).erase (descOf W s low)).erase
          (descOf W s (low + 2 ^ (buddyExponMin + k)))) l := by
    intro x hx hcase l hl
    by_cases hk : l = k
    · subst hk
      rw [Function.update_self] at hl
      have hn := h.lists.nodup l
      obtain ⟨hxh, hl⟩ := (hn.erase (descOf W s low)).mem_erase_iff.1 hl
      obtain ⟨hxl, -⟩ := hn.mem_erase_iff.1 hl
      rcases hcase with rfl | rfl
      · exact hxl rfl
      · exact hxh rfl
    · rw [Function.update_of_ne hk] at hl
      exact hk (h.lists.apart hl (List.mem_map_of_mem hx))
  have hlinks := hlists₂.modify (descOf W s (low + 2 ^ (buddyExponMin + k)))
    (fun d => { d with nextFree := .num 0, prevFree := .num 0 }) (.inl (hgone hhigh (.inr rfl)))
  have hpush := hlinks.push (hgone hlow (.inl rfl)) (k + 1)
  refine ⟨s₁, s₂, hrun₁, hrun₂, ?_, ?_⟩
  · exact (hsame₁.trans hsame₂).trans ((sameData_setLinks _ _ _ _).trans (sameData_pushFree _ _ _))
  · have hmap : ((((L k).map (descOf W s)).erase (descOf W s low)).erase
        (descOf W s (low + 2 ^ (buddyExponMin + k)))) =
        (((L k).erase low).erase (low + 2 ^ (buddyExponMin + k))).map (descOf W s) := by
      rw [map_erase_of_inj fun x hx => h.head_inj hlow hx,
        map_erase_of_inj fun x hx => h.head_inj hhigh (List.mem_of_mem_erase hx)]
    convert hpush using 1
    funext l
    by_cases hk : l = k + 1
    · subst hk
      simp [joinList]
    · by_cases hk' : l = k
      · subst hk'
        simp [joinList, hmap]
      · simp [joinList, hk, hk']

theorem FreeBlocks.joinBlocks (haligned : 2 ^ (buddyExponMin + k + 1) ∣ low) :
    ∃ s', joinBlocks s k (descOf W s low) (descOf W s (low + 2 ^ (buddyExponMin + k))) =
        .ok (s', some (descOf W s low)) ∧
      FreeBlocks W s' (joinList L k low (low + 2 ^ (buddyExponMin + k))) ∧
      SameData (joinDesc s (descOf W s low) (descOf W s (low + 2 ^ (buddyExponMin + k))) k) s' := by
  have hjoin := mem_joinList low (low + 2 ^ (buddyExponMin + k)) (h.nodup k)
  have hdne := h.halves_ne hlow hhigh
  let s₀ := s.modify (descOf W s (low + 2 ^ (buddyExponMin + k)))
    fun d => { d with flags := { d.flags with head := false } }
  obtain ⟨s₁, s₂, hrun₁, hrun₂, hsame₀, hlists⟩ :=
    h.join_lists hlow hhigh (h.lists.modify _ _ (.inr ⟨rfl, rfl⟩) : FreeLists s₀ _)
  generalize hs₃ : pushFree
    (s₂.modify (descOf W s (low + 2 ^ (buddyExponMin + k))) fun d => { d with
        nextFree := .num 0, prevFree := .num 0 }) (k + 1) (descOf W s low) = s₃ at hsame₀ hlists
  let s' := s₃.modify (descOf W s low) fun d => { d with
    buddyCache := .buddies (k + 1), buddyOrder := .num (k + 1), numPages := .num (2 ^ (k + 1)) }
  have hrun : Heap.joinBlocks s k (descOf W s low) (descOf W s (low + 2 ^ (buddyExponMin + k))) =
      .ok (s', some (descOf W s low)) := by
    have hpages : (s₃.desc (descOf W s low)).numPages = .num (2 ^ k) := by
      rw [hsame₀.numPages]
      simp only [HeapVars.modify, if_neg hdne, (h.head hlow).numPages]
    have hdouble : u32 (2 ^ k * 2) = 2 ^ (k + 1) := by
      rw [← pow_succ]
      apply u32_of_lt
      exact Nat.pow_lt_pow_right (by decide) (lt_of_le_of_lt (h.join_order hhigh) (by decide))
    simp only [Heap.joinBlocks, hrun₁, ok_bind, hrun₂, h.join_order hhigh, assert, decide_true,
      if_true, hs₃, hpages, Word.nat, hdouble, pure_eq_ok]
    rfl
  have hsame : SameData (joinDesc s (descOf W s low)
      (descOf W s (low + 2 ^ (buddyExponMin + k))) k) s' := by
    refine ⟨hsame₀.world, hsame₀.minAddr, hsame₀.curMaxAddr, fun j => ?_⟩
    obtain ⟨p, q, hpq⟩ := hsame₀.data j
    refine ⟨p, q, ?_⟩
    by_cases hj : j = descOf W s low
    · subst hj
      simp only [s', joinDesc, HeapVars.modify, if_true, hpq, if_neg hdne]
    · simp only [s', joinDesc, HeapVars.modify, if_neg hj, hpq]
  refine ⟨s', hrun, ?_, hsame⟩
  apply h.update hsame.world hsame.minAddr hsame.curMaxAddr
  · exact hlists.modify _ _ (.inr ⟨rfl, rfl⟩)
  · intro x l hx
    rcases (hjoin x l).1 hx with ⟨hx, hxk⟩ | ⟨rfl, rfl⟩
    · have hxne : ∀ {y}, y ∈ L k → (y = low ∨ y = low + 2 ^ (buddyExponMin + k)) →
          descOf W s x ≠ descOf W s y := by
        intro y hy hcase e
        have hxy := h.head_inj hy hx e
        exact hxk ⟨h.packing.order_eq (hxy ▸ hx) hy, hxy ▸ hcase⟩
      have hx₁ := hxne hlow (.inl rfl)
      have hx₂ := hxne hhigh (.inr rfl)
      constructor
      · rw [hsame.numPages, desc_joinDesc hdne, if_neg hx₁, if_neg hx₂, (h.head hx).numPages]
      · rw [hsame.virtAddr, desc_joinDesc hdne, if_neg hx₁, if_neg hx₂, (h.head hx).virtAddr]
    · constructor
      · rw [hsame.numPages, desc_joinDesc hdne, if_pos rfl]
      · rw [hsame.virtAddr, desc_joinDesc hdne, if_pos rfl, (h.head hlow).virtAddr]
  · exact h.packing.merge hlow hhigh haligned hjoin
  · intro x l hx
    rcases (hjoin x l).1 hx with ⟨hx, -⟩ | ⟨-, rfl⟩
    · exact h.order hx
    · exact h.join_order hhigh

end Join

/-! ## The request -/

theorem findOrder_spec (s : HeapVars ω) : ∀ (n order : Nat) {j : Nat}, order ≤ j → j < order + n →
    s.freeBuddies j ≠ none →
    order ≤ findOrder s n order ∧ findOrder s n order < order + n ∧
      s.freeBuddies (findOrder s n order) ≠ none := by
  intro n
  induction n with
  | zero => intro order j hle hlt _; omega
  | succ n ih =>
    intro order j hle hlt hj
    rw [findOrder]
    by_cases hnone : s.freeBuddies order = none
    · rw [if_pos hnone]
      have hne : j ≠ order := fun e => hj (e ▸ hnone)
      obtain ⟨h₁, h₂, h₃⟩ := ih (order + 1) (j := j) (by omega) (by omega) hj
      exact ⟨by omega, by omega, h₃⟩
    · rw [if_neg hnone]
      exact ⟨Nat.le_refl _, by omega, hnone⟩

/-- Some list of the order or of a larger one has a block: the request needs no
growth. -/
def Served (s : HeapVars ω) (k : Nat) : Prop :=
  ∃ j, k ≤ j ∧ j ≤ buddyOrderMax ∧ s.freeBuddies j ≠ none

/-- A request that some list can serve: the first list that is not empty is found, and its
first block is cut down to the order of the request and handed out. -/
theorem FreeBlocks.allocBuddy_eq {W : World ω} {s : HeapVars ω} {L : Nat → List Nat}
    (h : FreeBlocks W s L) {k : Nat} (hserved : Served s k) (fuel : Nat) :
    ∃ n a rest, k + n ≤ buddyOrderMax ∧ L (k + n) = a :: rest ∧
      allocBuddy W (fuel + 1) s (2 ^ (buddyExponMin + k)) =
        (splitDown W n s (k + n) >>= fun s => Heap.takeFirst W s k) := by
  obtain ⟨j, hkj, hj, hjne⟩ := hserved
  have hlog : log2U32 (2 ^ (buddyExponMin + k)) - buddyExponMin = k := by
    rw [log2U32, Nat.log2_two_pow, Nat.add_sub_cancel_left]
  obtain ⟨hle, hlt, hne⟩ := findOrder_spec s (buddyOrderMax + 1 - k) k hkj (by omega) hjne
  generalize hord : findOrder s (buddyOrderMax + 1 - k) k = order at hle hlt hne
  obtain ⟨n, rfl⟩ := Nat.exists_eq_add_of_le hle
  -- the list that was found has a first block
  obtain ⟨a, rest, hfirst⟩ : ∃ a rest, L (k + n) = a :: rest := by
    cases hb : L (k + n) with
    | nil =>
      rw [h.lists.head_eq] at hne
      simp [hb] at hne
    | cons a rest => exact ⟨a, rest, rfl⟩
  refine ⟨n, a, rest, by omega, hfirst, ?_⟩
  have hsize : 2 ^ (buddyExponMin + k) % pageSize = 0 := by
    rw [pow_add]
    exact Nat.mul_mod_right _ _
  have hpow : 2 ^ (buddyExponMin + k) &&& (2 ^ (buddyExponMin + k) - 1) = 0 := by
    rw [Nat.and_two_pow_sub_one_eq_mod, Nat.mod_self]
  have hpos : 2 ^ (buddyExponMin + k) ≠ 0 := (Nat.two_pow_pos _).ne'
  have hgrow : ¬ k + n > buddyOrderMax := by omega
  simp only [Heap.allocBuddy, assert, hpos, hsize, hpow, hlog, hord, hgrow, ne_eq,
    not_false_eq_true, and_self, decide_true, if_true, if_false, ok_bind, Nat.add_sub_cancel_left]

/-- The rule for the loop that splits. `I` holds of the heap, of an account of it, which has
the lists `F`, and of the block that is split next; `R` relates where some turns begin to where
they end. -/
theorem splitDown_rule {β : Type} {W : World ω} {k : Nat} {F : β → Nat → List Nat}
    {I : HeapVars ω → β → Nat → Prop} {R : Nat → HeapVars ω → β → Nat → HeapVars ω → β → Nat → Prop}
    (hrefl : ∀ {s b a}, I s b a → R 0 s b a s b a)
    (hstep : ∀ {n s b a rest}, I s b a → F b (k + n + 1) = a :: rest →
      ∃ s₁ b₁ a₁ rest₁, splitFirst W s (k + n + 1) = .ok s₁ ∧ I s₁ b₁ a₁ ∧
        F b₁ (k + n) = a₁ :: rest₁ ∧
        ∀ {s₂ b₂ a₂}, R n s₁ b₁ a₁ s₂ b₂ a₂ → R (n + 1) s b a s₂ b₂ a₂) :
    ∀ (n : Nat) {s : HeapVars ω} {b : β} {a : Nat} {rest : List Nat}, I s b a →
      F b (k + n) = a :: rest →
        ∃ s' b' a' rest', splitDown W n s (k + n) = .ok s' ∧ I s' b' a' ∧
          F b' k = a' :: rest' ∧ R n s b a s' b' a' := by
  intro n
  induction n with
  | zero =>
    intro s b a rest h hfirst
    exact ⟨s, b, a, rest, rfl, h, hfirst, hrefl h⟩
  | succ n ih =>
    intro s b a rest h hfirst
    obtain ⟨s₁, b₁, a₁, rest₁, hrun₁, h₁, hfirst₁, hback⟩ := hstep h hfirst
    obtain ⟨s₂, b₂, a₂, rest₂, hrun₂, h₂, hfirst₂, hrel⟩ := ih h₁ hfirst₁
    refine ⟨s₂, b₂, a₂, rest₂, ?_, h₂, hfirst₂, hback hrel⟩
    rw [Heap.splitDown, ← Nat.add_assoc, hrun₁, ok_bind, Nat.add_sub_cancel, hrun₂]

theorem cutList_first (L : Nat → List Nat) (k a : Nat) (rest : List Nat) :
    cutList L k a rest k = (a + 2 ^ (buddyExponMin + k)) :: a :: L k := by
  simp [cutList]

/-- The loop: some block of order `k`, from inside the block it started with, is the first of
its list in the end. -/
theorem FreeBlocks.splitDown {W : World ω} {k : Nat} : ∀ (n : Nat) {s : HeapVars ω}
    {L : Nat → List Nat} {a : Nat} {rest : List Nat}, FreeBlocks W s L → L (k + n) = a :: rest →
    ∃ s' L' a' rest', splitDown W n s (k + n) = .ok s' ∧ FreeBlocks W s' L' ∧
      L' k = a' :: rest' ∧ a ≤ a' ∧
      a' + 2 ^ (buddyExponMin + k) ≤ a + 2 ^ (buddyExponMin + (k + n)) ∧ s'.world = s.world := by
  apply splitDown_rule (F := fun L => L) (I := fun s L _ => FreeBlocks W s L)
    (R := fun n s _ a s' _ a' => a ≤ a' ∧
      a' + 2 ^ (buddyExponMin + k) ≤ a + 2 ^ (buddyExponMin + (k + n)) ∧ s'.world = s.world)
  · intro s L a _
    exact ⟨Nat.le_refl _, Nat.le_refl _, rfl⟩
  · intro n s L a rest h hfirst
    obtain ⟨s₁, hrun₁, h₁, hsame₁⟩ := h.splitFirst hfirst
    refine ⟨s₁, _, _, _, hrun₁, h₁, cutList_first L (k + n) a rest, ?_⟩
    rintro s₂ L₂ a₂ ⟨hlo, hhi, hworld₂⟩
    have hdouble : 2 ^ (buddyExponMin + (k + (n + 1))) = 2 * 2 ^ (buddyExponMin + (k + n)) :=
      by ring
    exact ⟨by omega, by omega, hworld₂.trans hsame₁.world⟩

/-- A request that some list can serve gets an aligned part of a listed block. -/
theorem FreeBlocks.allocBuddy {W : World ω} {s : HeapVars ω} {L : Nat → List Nat}
    (h : FreeBlocks W s L) {k : Nat} (hserved : Served s k) (fuel : Nat) :
    ∃ s' a, allocBuddy W (fuel + 1) s (2 ^ (buddyExponMin + k)) = .ok (s', a) ∧
      2 ^ (buddyExponMin + k) ∣ a ∧ (s'.desc (descOf W s a)).numPages = .num (2 ^ k) ∧
      (∃ c j, c ∈ L j ∧ c ≤ a ∧
        a + 2 ^ (buddyExponMin + k) ≤ c + 2 ^ (buddyExponMin + j)) ∧ s'.world = s.world := by
  obtain ⟨n, c, rest, -, hfirst, hrun⟩ := h.allocBuddy_eq hserved fuel
  obtain ⟨s₁, L₁, a, rest₁, hrun₁, h₁, hfirst₁, hlo, hhi, hworld₁⟩ :=
    FreeBlocks.splitDown n h hfirst
  have hmem := mem_first hfirst₁
  obtain ⟨s₂, hrun₂, -, hsame₂⟩ := h₁.takeFirst hfirst₁
  refine ⟨s₂, a, ?_, h₁.packing.aligned hmem, ?_, ⟨c, k + n, mem_first hfirst, hlo, hhi⟩,
    hsame₂.world.trans hworld₁⟩
  · rw [hrun, hrun₁, ok_bind, hrun₂]
  · rw [← descOf_congr hworld₁, hsame₂.numPages, desc_takeDesc, if_pos rfl,
      (h₁.head hmem).numPages]

end X86Kernel.Heap
