import X86Kernel.Lib.Linked
import X86Kernel.Memory.Heap

/- The lists of free blocks in the descriptors (`heap.free_buddies`).

   `FreeLists s L` says that for each order the list in the heap `s` is doubly
   linked and holds the descriptors `L order`, and that no descriptor is in two of
   them. Pushing, taking out and popping (`FreeLists.push`, `unlink`, `pop`) change
   `L` the way their names say and nothing else of the descriptors (`SameData`). -/
namespace X86Kernel.Heap
open X86Kernel.Lib

variable {ω : Type}

/-! ## Words -/

def Word.ptr? : Word → Option Nat
  | .page i => some i
  | _ => none

/-- The word is NULL or a pointer to a descriptor. -/
def Word.IsPtr (w : Word) : Prop := w = .ofPtr w.ptr?

@[simp] theorem ptr?_ofPtr (p : Option Nat) : (Word.ofPtr p).ptr? = p := by cases p <;> rfl

@[simp] theorem isPtr_ofPtr (p : Option Nat) : (Word.ofPtr p).IsPtr := by
  rw [Word.IsPtr, ptr?_ofPtr]

@[simp] theorem isPtr_null : (Word.num 0).IsPtr := rfl

@[simp] theorem isPtr_page (i : Nat) : (Word.page i).IsPtr := rfl

theorem Word.IsPtr.ptr {w : Word} (h : w.IsPtr) : w.ptr = .ok w.ptr? := by
  rw [h]
  cases w.ptr? <;> rfl

/-! ## Stores that leave the data of the descriptors alone -/

/-- The two heaps differ in the lists of free blocks only. -/
structure SameData (s s' : HeapVars ω) : Prop where
  world : s'.world = s.world
  minAddr : s'.minAddr = s.minAddr
  curMaxAddr : s'.curMaxAddr = s.curMaxAddr
  data : ∀ i, ∃ p q, s'.desc i = { s.desc i with prevFree := p, nextFree := q }

theorem SameData.refl (s : HeapVars ω) : SameData s s :=
  ⟨rfl, rfl, rfl, fun i => ⟨(s.desc i).prevFree, (s.desc i).nextFree, rfl⟩⟩

theorem SameData.trans {s s' s'' : HeapVars ω} (h : SameData s s') (h' : SameData s' s'') :
    SameData s s'' := by
  refine ⟨h'.world.trans h.world, h'.minAddr.trans h.minAddr, h'.curMaxAddr.trans h.curMaxAddr, ?_⟩
  intro i
  obtain ⟨p, q, hpq⟩ := h.data i
  obtain ⟨p', q', hpq'⟩ := h'.data i
  exact ⟨p', q', by rw [hpq', hpq]⟩

section SameData

variable {s s' : HeapVars ω} (h : SameData s s') (i : Nat)
include h

theorem SameData.flags : (s'.desc i).flags = (s.desc i).flags := by
  obtain ⟨p, q, hpq⟩ := h.data i
  rw [hpq]

theorem SameData.numPages : (s'.desc i).numPages = (s.desc i).numPages := by
  obtain ⟨p, q, hpq⟩ := h.data i
  rw [hpq]

theorem SameData.virtAddr : (s'.desc i).virtAddr = (s.desc i).virtAddr := by
  obtain ⟨p, q, hpq⟩ := h.data i
  rw [hpq]

theorem SameData.buddyCache : (s'.desc i).buddyCache = (s.desc i).buddyCache := by
  obtain ⟨p, q, hpq⟩ := h.data i
  rw [hpq]

theorem SameData.buddyOrder : (s'.desc i).buddyOrder = (s.desc i).buddyOrder := by
  obtain ⟨p, q, hpq⟩ := h.data i
  rw [hpq]

end SameData

theorem sameData_setPrevFree (s : HeapVars ω) (p : Option Nat) (w : Word) :
    SameData s (setPrevFree s p w) := by
  cases p with
  | none => exact .refl s
  | some i =>
    refine ⟨rfl, rfl, rfl, fun j => ?_⟩
    by_cases hj : j = i
    · exact ⟨w, (s.desc i).nextFree, by simp [setPrevFree, HeapVars.modify, hj]⟩
    · exact ⟨(s.desc j).prevFree, (s.desc j).nextFree, by simp [setPrevFree, HeapVars.modify, hj]⟩

theorem sameData_setNextFree (s : HeapVars ω) (p : Option Nat) (w : Word) :
    SameData s (setNextFree s p w) := by
  cases p with
  | none => exact .refl s
  | some i =>
    refine ⟨rfl, rfl, rfl, fun j => ?_⟩
    by_cases hj : j = i
    · exact ⟨(s.desc i).prevFree, w, by simp [setNextFree, HeapVars.modify, hj]⟩
    · exact ⟨(s.desc j).prevFree, (s.desc j).nextFree, by simp [setNextFree, HeapVars.modify, hj]⟩

theorem sameData_setHead (s : HeapVars ω) (order : Nat) (p : Option Nat) :
    SameData s (s.setHead order p) := ⟨rfl, rfl, rfl, (SameData.refl s).data⟩

theorem sameData_setLinks (s : HeapVars ω) (i : Nat) (next prev : Word) :
    SameData s (s.modify i fun d => { d with nextFree := next, prevFree := prev }) := by
  refine ⟨rfl, rfl, rfl, fun j => ?_⟩
  by_cases hj : j = i
  · exact ⟨prev, next, by simp [HeapVars.modify, hj]⟩
  · exact ⟨(s.desc j).prevFree, (s.desc j).nextFree, by simp [HeapVars.modify, hj]⟩

theorem sameData_pushFree (s : HeapVars ω) (order i : Nat) : SameData s (pushFree s order i) :=
  (sameData_setLinks s i _ _).trans ((sameData_setPrevFree _ _ _).trans (sameData_setHead _ _ _))

/-! ## The lists -/

def nextOf (s : HeapVars ω) (i : Nat) : Option Nat := (s.desc i).nextFree.ptr?
def prevOf (s : HeapVars ω) (i : Nat) : Option Nat := (s.desc i).prevFree.ptr?

/-- The lists of free blocks hold these descriptors, in this order. -/
structure FreeLists (s : HeapVars ω) (L : Nat → List Nat) : Prop where
  linked : ∀ k, Linked (nextOf s) (prevOf s) none (s.freeBuddies k) (L k)
  nodup : ∀ k, (L k).Nodup
  apart : ∀ {k l i}, i ∈ L k → i ∈ L l → k = l
  ptrs : ∀ {k i}, i ∈ L k → (s.desc i).nextFree.IsPtr ∧ (s.desc i).prevFree.IsPtr

theorem FreeLists.congr {s s' : HeapVars ω} {L : Nat → List Nat} (h : FreeLists s L)
    (hheads : ∀ k, s'.freeBuddies k = s.freeBuddies k)
    (hlinks : ∀ {k i}, i ∈ L k → (s'.desc i).nextFree = (s.desc i).nextFree ∧
      (s'.desc i).prevFree = (s.desc i).prevFree) : FreeLists s' L where
  linked k := by
    rw [hheads]
    apply (h.linked k).congr
    intro i hi
    obtain ⟨hn, hp⟩ := hlinks hi
    exact ⟨congrArg Word.ptr? hn, congrArg Word.ptr? hp⟩
  nodup := h.nodup
  apart := h.apart
  ptrs := by
    intro k i hi
    obtain ⟨hn, hp⟩ := hlinks hi
    rw [hn, hp]
    exact h.ptrs hi

theorem FreeLists.modify {s : HeapVars ω} {L : Nat → List Nat} (h : FreeLists s L) (i : Nat)
    (f : Desc → Desc) (hf : (∀ k, i ∉ L k) ∨
      ((f (s.desc i)).nextFree = (s.desc i).nextFree ∧
        (f (s.desc i)).prevFree = (s.desc i).prevFree)) : FreeLists (s.modify i f) L := by
  have hheads : ∀ k, (s.modify i f).freeBuddies k = s.freeBuddies k := fun _ => rfl
  apply h.congr hheads
  intro k j hj
  by_cases hji : j = i
  · subst hji
    rcases hf with hf | hf
    · exact absurd hj (hf k)
    · simpa [HeapVars.modify] using hf
  · simp [HeapVars.modify, hji]

theorem FreeLists.head_mem {s : HeapVars ω} {L : Nat → List Nat} (h : FreeLists s L) {k i : Nat}
    (hi : s.freeBuddies k = some i) : i ∈ L k := by
  rw [(h.linked k).head] at hi
  exact List.mem_of_head? hi

theorem FreeLists.head_eq {s : HeapVars ω} {L : Nat → List Nat} (h : FreeLists s L) (k : Nat) :
    s.freeBuddies k = (L k).head? := (h.linked k).head

theorem desc_pushFree {s : HeapVars ω} {order i : Nat} (hne : s.freeBuddies order ≠ some i)
    (j : Nat) : (pushFree s order i).desc j =
      if j = i then { s.desc i with nextFree := .ofPtr (s.freeBuddies order), prevFree := .num 0 }
      else if s.freeBuddies order = some j then { s.desc j with prevFree := .page i }
      else s.desc j := by
  unfold pushFree
  cases hhead : s.freeBuddies order with
  | none => simp [setPrevFree, HeapVars.modify, HeapVars.setHead]
  | some h =>
    have hih : h ≠ i := by
      intro e
      exact hne (e ▸ hhead)
    by_cases hj : j = i
    · have hjh : j ≠ h := hj.trans_ne hih.symm
      simp [setPrevFree, HeapVars.modify, HeapVars.setHead, hj, hih.symm]
    · by_cases hjh : j = h
      · subst hjh
        simp [setPrevFree, HeapVars.modify, HeapVars.setHead, hj]
      · have hhj : ¬ h = j := fun e => hjh e.symm
        simp [setPrevFree, HeapVars.modify, HeapVars.setHead, hj, hjh, hhj]

@[simp] theorem freeBuddies_pushFree (s : HeapVars ω) (order i k : Nat) :
    (pushFree s order i).freeBuddies k = if k = order then some i else s.freeBuddies k := by
  unfold pushFree
  cases s.freeBuddies order <;> rfl

theorem FreeLists.push {s : HeapVars ω} {L : Nat → List Nat} (h : FreeLists s L) {i : Nat}
    (hi : ∀ k, i ∉ L k) (order : Nat) :
    FreeLists (pushFree s order i) (Function.update L order (i :: L order)) := by
  have hne : s.freeBuddies order ≠ some i := fun e => hi order (h.head_mem e)
  have hij : ∀ {k j}, j ∈ L k → j ≠ i := by
    intro k j hj e
    exact hi k (e ▸ hj)
  have hmem : ∀ {k j}, j ∈ Function.update L order (i :: L order) k →
      k = order ∧ j = i ∨ j ∈ L k := by
    intro k j hj
    by_cases hk : k = order
    · subst hk
      rw [Function.update_self, List.mem_cons] at hj
      exact hj.imp_left fun e => ⟨rfl, e⟩
    · rw [Function.update_of_ne hk] at hj
      exact .inr hj
  constructor
  · intro k
    by_cases hk : k = order
    · subst hk
      rw [Function.update_self, freeBuddies_pushFree, if_pos rfl]
      apply (h.linked k).push (hi k) (h.nodup k)
      · simp [nextOf, desc_pushFree hne]
      · simp [prevOf, desc_pushFree hne, Word.ptr?]
      · intro j hj
        simp only [nextOf, desc_pushFree hne, if_neg (hij hj)]
        split <;> rfl
      · intro j hj
        simp only [prevOf, desc_pushFree hne, if_neg (hij hj)]
        split <;> rfl
    · rw [Function.update_of_ne hk, freeBuddies_pushFree, if_neg hk]
      apply (h.linked k).congr
      intro j hj
      have hhead : s.freeBuddies order ≠ some j :=
        fun e => hk (h.apart hj (h.head_mem e))
      simp only [nextOf, prevOf, desc_pushFree hne, if_neg (hij hj), if_neg hhead, and_self]
  · intro k
    by_cases hk : k = order
    · subst hk
      rw [Function.update_self]
      exact List.nodup_cons.2 ⟨hi k, h.nodup k⟩
    · rw [Function.update_of_ne hk]
      exact h.nodup k
  · intro k l j hk hl
    rcases hmem hk with ⟨hko, hji⟩ | hk'
    · rcases hmem hl with ⟨hlo, -⟩ | hl'
      · exact hko.trans hlo.symm
      · exact absurd (hji ▸ hl') (hi l)
    · rcases hmem hl with ⟨-, hji⟩ | hl'
      · exact absurd (hji ▸ hk') (hi k)
      · exact h.apart hk' hl'
  · intro k j hj
    rw [desc_pushFree hne]
    rcases hmem hj with ⟨-, rfl⟩ | hj
    · simp
    · rw [if_neg (hij hj)]
      obtain ⟨hn, hp⟩ := h.ptrs hj
      split
      · exact ⟨hn, isPtr_page i⟩
      · exact ⟨hn, hp⟩

theorem desc_unlink (s : HeapVars ω) (next prev : Option Nat) (w v : Word) (j : Nat) :
    (setNextFree (setPrevFree s next w) prev v).desc j = { s.desc j with
      prevFree := if next = some j then w else (s.desc j).prevFree
      nextFree := if prev = some j then v else (s.desc j).nextFree } := by
  have h₁ : (setPrevFree s next w).desc j =
      { s.desc j with prevFree := if next = some j then w else (s.desc j).prevFree } := by
    cases next with
    | none => rfl
    | some n =>
      by_cases hj : j = n
      · simp [setPrevFree, HeapVars.modify, hj]
      · simp [setPrevFree, HeapVars.modify, hj, Ne.symm hj]
  cases prev with
  | none => exact h₁
  | some p =>
    by_cases hj : j = p
    · subst hj
      simp [setNextFree, HeapVars.modify, h₁]
    · simp [setNextFree, HeapVars.modify, h₁, hj, Ne.symm hj]

/-- Removing a block by its neighbours' links, whatever way the heads are written. -/
theorem FreeLists.remove {s s' : HeapVars ω} {L : Nat → List Nat} (h : FreeLists s L)
    {order i : Nat} (hi : i ∈ L order)
    (hdesc : ∀ j ≠ i, (s'.desc j).prevFree =
        (if nextOf s i = some j then (s.desc i).prevFree else (s.desc j).prevFree) ∧
      (s'.desc j).nextFree =
        if prevOf s i = some j then (s.desc i).nextFree else (s.desc j).nextFree)
    (hheads : ∀ k, s'.freeBuddies k =
      if k = order ∧ s.freeBuddies order = some i then nextOf s i else s.freeBuddies k) :
    FreeLists s' (Function.update L order ((L order).erase i)) := by
  have hmem : ∀ {k j}, j ∈ Function.update L order ((L order).erase i) k → j ∈ L k ∧ j ≠ i := by
    intro k j hj
    by_cases hk : k = order
    · subst hk
      rw [Function.update_self] at hj
      exact ⟨List.mem_of_mem_erase hj, fun e => (h.nodup k).not_mem_erase (e ▸ hj)⟩
    · rw [Function.update_of_ne hk] at hj
      exact ⟨hj, fun e => hk (h.apart (e ▸ hj) hi)⟩
  constructor
  · intro k
    by_cases hk : k = order
    · subst hk
      have hlist : Linked (nextOf s') (prevOf s') none
          (if prevOf s i = none then nextOf s i else s.freeBuddies k) ((L k).erase i) := by
        apply (h.linked k).unlink hi (h.nodup k)
        · intro j _ hj
          rw [nextOf, (hdesc j hj).2]
          split <;> rfl
        · intro j _ hj
          rw [prevOf, (hdesc j hj).1]
          split <;> rfl
      rw [Function.update_self, hheads k]
      simpa only [true_and, (h.linked k).prev_eq_none_iff hi (h.nodup k)] using hlist
    · rw [Function.update_of_ne hk, hheads k, if_neg (fun e => hk e.1)]
      apply (h.linked k).congr
      intro j hj
      have hji : j ≠ i := fun e => hk (h.apart (e ▸ hj) hi)
      have hn : nextOf s i ≠ some j :=
        fun e => hk (h.apart hj ((h.linked order).mem_of_next hi e))
      have hp : prevOf s i ≠ some j :=
        fun e => hk (h.apart hj ((h.linked order).mem_of_prev hi e))
      have hj' := hdesc j hji
      rw [if_neg hn, if_neg hp] at hj'
      exact ⟨congrArg Word.ptr? hj'.2, congrArg Word.ptr? hj'.1⟩
  · intro k
    by_cases hk : k = order
    · subst hk
      rw [Function.update_self]
      exact (h.nodup k).erase i
    · rw [Function.update_of_ne hk]
      exact h.nodup k
  · intro k l j hk hl
    exact h.apart (hmem hk).1 (hmem hl).1
  · intro k j hj
    obtain ⟨hj, hji⟩ := hmem hj
    rw [(hdesc j hji).1, (hdesc j hji).2]
    constructor
    · split
      · exact (h.ptrs hi).1
      · exact (h.ptrs hj).1
    · split
      · exact (h.ptrs hi).2
      · exact (h.ptrs hj).2

theorem FreeLists.unlink_eq {s : HeapVars ω} {L : Nat → List Nat} (h : FreeLists s L)
    {order i : Nat} (hi : i ∈ L order) :
    unlinkFree s order i =
      if s.freeBuddies order = some i then
        .ok ((setNextFree (setPrevFree s (nextOf s i) (s.desc i).prevFree) (prevOf s i)
          (s.desc i).nextFree).setHead order (nextOf s i))
      else .ok (setNextFree (setPrevFree s (nextOf s i) (s.desc i).prevFree) (prevOf s i)
        (s.desc i).nextFree) := by
  obtain ⟨hnp, hpp⟩ := h.ptrs hi
  have hn := (h.linked order).next_ne hi (h.nodup order)
  have hp := (h.linked order).prev_ne hi (h.nodup order)
  -- the links of the block itself stay
  have hself₁ : (setPrevFree s (nextOf s i) (s.desc i).prevFree).desc i = s.desc i := by
    have h₁ := desc_unlink s (nextOf s i) none (s.desc i).prevFree (.num 0) i
    rw [if_neg hn, if_neg (by simp)] at h₁
    exact h₁
  have hself₂ : (setNextFree (setPrevFree s (nextOf s i) (s.desc i).prevFree) (prevOf s i)
      (s.desc i).nextFree).desc i = s.desc i := by
    rw [desc_unlink, if_neg hn, if_neg hp]
  have hheads₂ : ∀ k, (setNextFree (setPrevFree s (nextOf s i) (s.desc i).prevFree) (prevOf s i)
      (s.desc i).nextFree).freeBuddies k = s.freeBuddies k := by
    intro k
    cases nextOf s i <;> cases prevOf s i <;> rfl
  have hnext : (s.desc i).nextFree.ptr = .ok (nextOf s i) := hnp.ptr
  have hprev : (s.desc i).prevFree.ptr = .ok (prevOf s i) := hpp.ptr
  simp only [unlinkFree, hnext, ok_bind, hself₁, hprev, hheads₂, hself₂, pure_eq_ok]

theorem FreeLists.unlink {s : HeapVars ω} {L : Nat → List Nat} (h : FreeLists s L) {order i : Nat}
    (hi : i ∈ L order) :
    ∃ s', unlinkFree s order i = .ok s' ∧
      FreeLists s' (Function.update L order ((L order).erase i)) ∧ SameData s s' := by
  have hrun := h.unlink_eq hi
  have hheads₂ : ∀ k, (setNextFree (setPrevFree s (nextOf s i) (s.desc i).prevFree) (prevOf s i)
      (s.desc i).nextFree).freeBuddies k = s.freeBuddies k := by
    intro k
    cases nextOf s i <;> cases prevOf s i <;> rfl
  have hsame := (sameData_setPrevFree s (nextOf s i) (s.desc i).prevFree).trans
    (sameData_setNextFree _ (prevOf s i) (s.desc i).nextFree)
  have hdata : ∀ j ≠ i, _ ∧ _ := fun j _ => ⟨congrArg Desc.prevFree (desc_unlink s (nextOf s i)
    (prevOf s i) (s.desc i).prevFree (s.desc i).nextFree j), congrArg Desc.nextFree (desc_unlink s
    (nextOf s i) (prevOf s i) (s.desc i).prevFree (s.desc i).nextFree j)⟩
  by_cases hhead : s.freeBuddies order = some i
  · rw [if_pos hhead] at hrun
    refine ⟨_, hrun, h.remove hi ?_ ?_, hsame.trans (sameData_setHead _ _ _)⟩
    · exact hdata
    · intro k
      simp only [HeapVars.setHead, hheads₂, hhead, and_true]
  · rw [if_neg hhead] at hrun
    refine ⟨_, hrun, ?_, hsame⟩
    apply h.remove hi hdata
    intro k
    rw [hheads₂, if_neg (fun e => hhead e.2)]

theorem FreeLists.pop {s s' : HeapVars ω} {L : Nat → List Nat} (h : FreeLists s L) {order i : Nat}
    {rest : List Nat} (hL : L order = i :: rest)
    (hdesc : ∀ j ≠ i, (s'.desc j).prevFree =
        (if nextOf s i = some j then .num 0 else (s.desc j).prevFree) ∧
      (s'.desc j).nextFree = (s.desc j).nextFree)
    (hheads : ∀ k, s'.freeBuddies k = if k = order then nextOf s i else s.freeBuddies k) :
    FreeLists s' (Function.update L order rest) := by
  have hi : i ∈ L order := by
    rw [hL]
    exact List.mem_cons_self
  have hhead : s.freeBuddies order = some i := by
    rw [h.head_eq, hL]
    rfl
  have hnone := ((h.linked order).prev_eq_none_iff hi (h.nodup order)).2 hhead
  have hnull : (s.desc i).prevFree = .num 0 := by
    have hp := (h.ptrs hi).2
    rw [hp, show (s.desc i).prevFree.ptr? = none from hnone]
    rfl
  have hrest : rest = (L order).erase i := by rw [hL, List.erase_cons_head]
  rw [hrest]
  apply h.remove hi
  · intro j hj
    obtain ⟨hp, hn⟩ := hdesc j hj
    rw [hnull, hnone]
    exact ⟨hp, hn⟩
  · intro k
    rw [hheads]
    simp only [hhead, and_true]

theorem setPrevFree_desc (s : HeapVars ω) (p : Option Nat) (w : Word) (j : Nat) :
    (setPrevFree s p w).desc j =
      { s.desc j with prevFree := if p = some j then w else (s.desc j).prevFree } :=
  desc_unlink s p none w (.num 0) j

@[simp] theorem setPrevFree_freeBuddies (s : HeapVars ω) (p : Option Nat) (w : Word) :
    (setPrevFree s p w).freeBuddies = s.freeBuddies := by
  cases p <;> rfl

/-- The first block of a list taken off. -/
def popFirst (s : HeapVars ω) (order i : Nat) : HeapVars ω :=
  (setPrevFree s (nextOf s i) (.num 0)).setHead order (nextOf s i)

theorem sameData_popFirst (s : HeapVars ω) (order i : Nat) : SameData s (popFirst s order i) :=
  (sameData_setPrevFree _ _ _).trans (sameData_setHead _ _ _)

theorem FreeLists.popFirst {s : HeapVars ω} {L : Nat → List Nat} (h : FreeLists s L) {order i : Nat}
    {rest : List Nat} (hL : L order = i :: rest) :
    FreeLists (popFirst s order i) (Function.update L order rest) := by
  apply h.pop hL
  · intro j _
    have hj : (Heap.popFirst s order i).desc j = { s.desc j with
        prevFree := if nextOf s i = some j then .num 0 else (s.desc j).prevFree } :=
      setPrevFree_desc s (nextOf s i) (.num 0) j
    rw [hj]
    exact ⟨rfl, rfl⟩
  · intro k
    simp [Heap.popFirst, HeapVars.setHead]

end X86Kernel.Heap
