import X86Kernel.Memory.Heap.Slab

/- The block allocator with an account of the blocks that are out.

   `Account F W s L o` says that the heap lists the free blocks `L`, with flags of `F` at their
   heads, that the blocks that are out are those of `o`, with their sizes, and that all of them
   lie apart in the heap. Whether a block that is out is a slab, and what its descriptors hold
   then, is not looked at. `Tally` asks for all three flags; the blocks that `add_buddies` makes
   have one of them only.

   What is proved: `alloc_buddy` of a request that some list can serve and `free_buddy` of a block
   whose first descriptor is that of a live block keep the account (`Account.allocBuddy`,
   `Account.freeBuddy`) and change no descriptor but those of pages that are free (`OnlyAt`), and
   no memory. -/
namespace X86Kernel.Heap
open X86Kernel.Lib

variable {ω : Type}

/-! ## Descriptors that are left alone -/

/-- Only descriptors of `P` and the heads of the lists change. -/
structure OnlyAt (P : Nat → Prop) (s s' : HeapVars ω) : Prop where
  world : s'.world = s.world
  desc : ∀ i, ¬ P i → s'.desc i = s.desc i
  mem : s'.mem = s.mem
  slabs : s'.slabs = s.slabs
  minAddr : s'.minAddr = s.minAddr

section OnlyAt

variable {P : Nat → Prop} {s : HeapVars ω}

theorem OnlyAt.refl (P : Nat → Prop) (s : HeapVars ω) : OnlyAt P s s :=
  ⟨rfl, fun _ _ => rfl, rfl, rfl, rfl⟩

theorem OnlyAt.trans {s' s'' : HeapVars ω} (h : OnlyAt P s s') (h' : OnlyAt P s' s'') :
    OnlyAt P s s'' :=
  ⟨h'.world.trans h.world, fun i hi => (h'.desc i hi).trans (h.desc i hi), h'.mem.trans h.mem,
    h'.slabs.trans h.slabs, h'.minAddr.trans h.minAddr⟩

theorem onlyAt_modify {i : Nat} (hi : P i) (f : Desc → Desc) : OnlyAt P s (s.modify i f) := by
  refine ⟨rfl, fun j hj => if_neg ?_, rfl, rfl, rfl⟩
  rintro rfl
  exact hj hi

theorem onlyAt_setHead (order : Nat) (p : Option Nat) : OnlyAt P s (s.setHead order p) :=
  ⟨rfl, fun _ _ => rfl, rfl, rfl, rfl⟩

theorem onlyAt_setPrevFree {p : Option Nat} (hp : ∀ i, p = some i → P i) (w : Word) :
    OnlyAt P s (setPrevFree s p w) := by
  cases p with
  | none => exact .refl P s
  | some i => exact onlyAt_modify (hp i rfl) fun d => { d with prevFree := w }

theorem onlyAt_setNextFree {p : Option Nat} (hp : ∀ i, p = some i → P i) (w : Word) :
    OnlyAt P s (setNextFree s p w) := by
  cases p with
  | none => exact .refl P s
  | some i => exact onlyAt_modify (hp i rfl) fun d => { d with nextFree := w }

theorem onlyAt_pushFree {order i : Nat} (hi : P i)
    (hhead : ∀ j, s.freeBuddies order = some j → P j) :
    OnlyAt P s (pushFree s order i) :=
  ((onlyAt_modify hi _).trans (onlyAt_setPrevFree hhead _)).trans (onlyAt_setHead _ _)

variable {L : Nat → List Nat} (h : FreeLists s L) (hP : ∀ k i, i ∈ L k → P i)
include h hP

theorem FreeLists.next_at {k i j : Nat} (hi : i ∈ L k) (hj : nextOf s i = some j) : P j :=
  hP k j ((h.linked k).mem_of_next hi hj)

theorem FreeLists.onlyAt_unlink {s' : HeapVars ω} {order i : Nat} (hi : i ∈ L order)
    (hrun : unlinkFree s order i = .ok s') : OnlyAt P s s' := by
  have hboth : OnlyAt P s (setNextFree (setPrevFree s (nextOf s i) (s.desc i).prevFree)
      (prevOf s i) (s.desc i).nextFree) :=
    (onlyAt_setPrevFree (fun _ hj => h.next_at hP hi hj) _).trans
      (onlyAt_setNextFree (fun _ hj => hP _ _ ((h.linked order).mem_of_prev hi hj)) _)
  rw [h.unlink_eq hi] at hrun
  split at hrun
  · cases hrun
    exact hboth.trans (onlyAt_setHead _ _)
  · cases hrun
    exact hboth

end OnlyAt

theorem listed_at {W : World ω} {s : HeapVars ω} {L : Nat → List Nat} {P : Nat → Prop}
    (hP : ∀ k a, a ∈ L k → P (descOf W s a)) (k i : Nat) (hi : i ∈ (L k).map (descOf W s)) :
    P i := by
  obtain ⟨a, ha, rfl⟩ := List.mem_map.1 hi
  exact hP k a ha

section Steps

variable {F : HeapFlags → Prop} {W : World ω} {s : HeapVars ω} {L : Nat → List Nat}
  {P : Nat → Prop} (h : Flagged F W s L) (hP : ∀ k a, a ∈ L k → P (descOf W s a))
include h hP

theorem Flagged.onlyAt_splitFirst {s' : HeapVars ω} {k a : Nat} {rest : List Nat}
    (hfirst : L (k + 1) = a :: rest) (hupper : P (descOf W s (a + 2 ^ (buddyExponMin + k))))
    (hrun : Heap.splitFirst W s (k + 1) = .ok s') : OnlyAt P s s' := by
  have hmem := mem_first hfirst
  have hpop : OnlyAt P s (popFirst s (k + 1) (descOf W s a)) :=
    (onlyAt_setPrevFree (fun _ hj => h.lists.next_at (listed_at hP)
      (List.mem_map_of_mem hmem) hj) _).trans (onlyAt_setHead _ _)
  have hsplit := hpop.trans ((onlyAt_modify (hP _ _ hmem) _).trans (onlyAt_modify hupper _) :
    OnlyAt P _ (splitDesc (popFirst s (k + 1) (descOf W s a)) (descOf W s a)
      (descOf W s (a + 2 ^ (buddyExponMin + k))) k (a + 2 ^ (buddyExponMin + k))))
  have hheads : ∀ j, (popFirst s (k + 1) (descOf W s a)).freeBuddies k = some j → P j := by
    intro j hj
    have hk : (popFirst s (k + 1) (descOf W s a)).freeBuddies k = s.freeBuddies k := by
      simp [popFirst, HeapVars.setHead]
    rw [hk] at hj
    exact listed_at hP _ _ (h.lists.head_mem hj)
  rw [h.splitFirst_eq hfirst] at hrun
  cases hrun
  refine (hsplit.trans (onlyAt_pushFree (hP _ _ hmem) hheads)).trans (onlyAt_pushFree hupper ?_)
  intro j hj
  rw [freeBuddies_pushFree, if_pos rfl] at hj
  obtain rfl := Option.some.inj hj
  exact hP _ _ hmem

theorem Flagged.onlyAt_takeFirst {s' : HeapVars ω} {k a b : Nat} {rest : List Nat}
    (hfirst : L k = a :: rest) (hrun : Heap.takeFirst W s k = .ok (s', b)) : OnlyAt P s s' := by
  have hmem := mem_first hfirst
  have hhead : s.freeBuddies k = some (descOf W s a) := by
    rw [h.lists.head_eq]
    simp [hfirst]
  have hnext : (s.desc (descOf W s a)).nextFree.ptr = .ok (nextOf s (descOf W s a)) :=
    (h.lists.ptrs (List.mem_map_of_mem hmem)).1.ptr
  have hva : ((s.setHead k (nextOf s (descOf W s a))).desc (descOf W s a)).virtAddr = a :=
    (h.head hmem).virtAddr
  unfold Heap.takeFirst at hrun
  simp only [hhead, hnext, ok_bind, hva, pure_eq_ok] at hrun
  cases hrun
  exact ((onlyAt_setHead _ _).trans (onlyAt_modify (hP _ _ hmem) _)).trans (onlyAt_setPrevFree
    (fun _ hj => h.lists.next_at (listed_at hP) (List.mem_map_of_mem hmem) hj) _)

theorem Flagged.onlyAt_putBack {k a : Nat} (ha : P (descOf W s a)) :
    OnlyAt P s (Heap.putBack W s a k) := by
  refine ((onlyAt_modify ha _).trans (onlyAt_pushFree ha fun j hj => ?_)).trans (onlyAt_modify ha _)
  exact listed_at hP _ _ (h.lists.head_mem hj)

theorem Flagged.onlyAt_joinBlocks {r : HeapVars ω × Option Nat} {k low high : Nat}
    (hlow : low ∈ L k) (hhigh : high ∈ L k) (hne : descOf W s low ≠ descOf W s high)
    (hrun : Heap.joinBlocks s k (descOf W s low) (descOf W s high) = .ok r) : OnlyAt P s r.1 := by
  have hlists := h.lists.modify (descOf W s high)
    (fun d => { d with flags := { d.flags with head := false } }) (.inr ⟨rfl, rfl⟩)
  obtain ⟨s₁, hrun₁, hrun⟩ := exists_of_bind_eq_ok hrun
  obtain ⟨s₂, hrun₂, hrun⟩ := exists_of_bind_eq_ok hrun
  obtain ⟨u, -, hrun⟩ := exists_of_bind_eq_ok hrun
  obtain ⟨pages, -, hrun⟩ := exists_of_bind_eq_ok hrun
  cases hrun
  have hmem : descOf W s low ∈ (fun k => (L k).map (descOf W s)) k := List.mem_map_of_mem hlow
  have h₁ := hlists.onlyAt_unlink (listed_at hP) hmem hrun₁
  obtain ⟨t₁, ht₁, hlists₁, -⟩ := hlists.unlink hmem
  obtain rfl : t₁ = s₁ := Except.ok.inj (ht₁.symm.trans hrun₁)
  have hlisted₁ : ∀ l i, i ∈ Function.update (fun k => (L k).map (descOf W s)) k
      (((L k).map (descOf W s)).erase (descOf W s low)) l → P i := by
    intro l i hi
    by_cases hl : l = k
    · subst hl
      rw [Function.update_self] at hi
      exact listed_at hP _ _ (List.mem_of_mem_erase hi)
    · rw [Function.update_of_ne hl] at hi
      exact listed_at hP _ _ hi
  have hmem₁ : descOf W s high ∈ Function.update (fun k => (L k).map (descOf W s)) k
      (((L k).map (descOf W s)).erase (descOf W s low)) k := by
    rw [Function.update_self]
    exact (List.mem_erase_of_ne hne.symm).2 (List.mem_map_of_mem hhigh)
  have h₂ := hlists₁.onlyAt_unlink hlisted₁ hmem₁ hrun₂
  obtain ⟨t₂, ht₂, hlists₂, -⟩ := hlists₁.unlink hmem₁
  obtain rfl : t₂ = s₂ := Except.ok.inj (ht₂.symm.trans hrun₂)
  have hhead : ∀ j, t₂.freeBuddies (k + 1) = some j → P j := by
    intro j hj
    have hj' := hlists₂.head_mem hj
    rw [Function.update_idem, Function.update_of_ne (by omega)] at hj'
    exact listed_at hP _ _ hj'
  have hout := (((onlyAt_modify (hP _ _ hhigh) _).trans h₁).trans h₂).trans
    (onlyAt_modify (hP _ _ hhigh) fun d => { d with nextFree := .num 0, prevFree := .num 0 })
  exact (hout.trans (onlyAt_pushFree (hP _ _ hlow) hhead)).trans
    (onlyAt_modify (hP _ _ hlow) fun d => { d with
      buddyCache := .buddies (k + 1), buddyOrder := .num (k + 1),
      numPages := .num (u32 (pages * 2)) })

theorem Flagged.onlyAt_resolveMerge {s' : HeapVars ω} {k a j : Nat} (ha : a ∈ L k)
    (hbuddy : buddy buddyExponMin a k ∈ L k)
    (hrun : Heap.resolveMerge W s (descOf W s a) k = .ok (s', some j)) : OnlyAt P s s' := by
  have hva : a ^^^ 2 ^ (k + buddyExponMin) = buddy buddyExponMin a k := by
    rw [Nat.add_comm k]
    rfl
  have hne : descOf W s (buddy buddyExponMin a k) ≠ descOf W s a :=
    fun e => buddy_ne a k (h.head_inj ha hbuddy e)
  simp only [Heap.resolveMerge, (h.head ha).virtAddr, hva] at hrun
  split at hrun
  · cases hrun
  · split at hrun
    · exact h.onlyAt_joinBlocks hP hbuddy ha hne hrun
    · exact h.onlyAt_joinBlocks hP ha hbuddy hne.symm hrun

end Steps

/-! ## The account -/

/-- A block of order `k` is out at `a`. -/
def Held (o : Nat → Option Nat) (a k : Nat) : Prop := o a = some (2 ^ (buddyExponMin + k))

/-- The heap lists the blocks `L`, with flags of `F`, the blocks of `o` are out, and all of them
lie apart. -/
structure Account (F : HeapFlags → Prop) (W : World ω) (s : HeapVars ω) (L : Nat → List Nat)
    (o : Nat → Option Nat) : Prop extends Flagged F W s L where
  orders : ∀ {a k}, a ∈ L k → (s.desc (descOf W s a)).buddyOrder = .num k
  blocks : Packing buddyExponMin (fun a k => a ∈ L k ∨ Held o a k) s.minAddr s.curMaxAddr
  out : ∀ {a n}, o a = some n → ∃ k ≤ buddyOrderMax, n = 2 ^ (buddyExponMin + k)
  listed : ∀ {a k}, a ∈ L k → o a = none
  /-- a page of the heap has a descriptor of its own -/
  alone : ∀ {p q}, s.minAddr ≤ p * pageSize → p * pageSize < s.curMaxAddr →
    W.descOf s.world p = W.descOf s.world q → p = q
  low : s.minAddr ≠ 0

/-- The account where all three flags are set at the heads of the listed blocks. -/
abbrev Tally (W : World ω) (s : HeapVars ω) (L : Nat → List Nat) (o : Nat → Option Nat) : Prop :=
  Account HeapFlags.IsFree W s L o

/-- The descriptor of a page of a block that is out. -/
def OutDesc (W : World ω) (s : HeapVars ω) (o : Nat → Option Nat) (i : Nat) : Prop :=
  ∃ b m x, o b = some m ∧ Inside b m x ∧ i = descOf W s x

theorem outDesc_congr {W : World ω} {s s' : HeapVars ω} (h : s'.world = s.world) :
    OutDesc W s' = OutDesc W s := by
  unfold OutDesc
  rw [descOf_congr h]

theorem OutDesc.of_update {W : World ω} {s : HeapVars ω} {o : Nat → Option Nat} {a i : Nat}
    (h : OutDesc W s (Function.update o a none) i) : OutDesc W s o i := by
  obtain ⟨b, m, x, hb, hx⟩ := h
  refine ⟨b, m, x, ?_, hx⟩
  rwa [Function.update_of_ne] at hb
  rintro rfl
  rw [Function.update_self] at hb
  cases hb

theorem held_update_none {o : Nat → Option Nat} {a x k : Nat} :
    Held (Function.update o a none) x k ↔ Held o x k ∧ x ≠ a := by
  by_cases hx : x = a
  · simp [Held, hx]
  · simp [Held, hx]

theorem held_update_some {o : Nat → Option Nat} {a x k l : Nat} :
    Held (Function.update o a (some (2 ^ (buddyExponMin + k)))) x l ↔
      x = a ∧ l = k ∨ x ≠ a ∧ Held o x l := by
  by_cases hx : x = a
  · simp [Held, hx, eq_comm]
  · simp [Held, hx]

theorem replaced_or_held {free gone new held : Prop} (h : held → ¬ gone) :
    (free ∧ ¬ gone ∨ new) ∨ held ↔ (free ∨ held) ∧ ¬ gone ∨ new := by
  rw [or_and_right, and_iff_left_of_imp h]
  exact or_right_comm

theorem inside_base (a k : Nat) : Inside a (2 ^ (buddyExponMin + k)) a :=
  ⟨Nat.le_refl a, Nat.lt_add_of_pos_right (Nat.two_pow_pos _)⟩

section Account

variable {F : HeapFlags → Prop} {W : World ω} {s : HeapVars ω} {L : Nat → List Nat}
  {o : Nat → Option Nat} (h : Account F W s L o)
include h

theorem Account.page_eq {a k x y : Nat} (ha : a ∈ L k ∨ Held o a k)
    (hx : Inside a (2 ^ (buddyExponMin + k)) x) (he : descOf W s x = descOf W s y) :
    x / pageSize = y / pageSize := by
  obtain ⟨hlo, hhi⟩ := h.blocks.inside ha
  have hpage : x / pageSize * pageSize / pageSize = x / pageSize :=
    Nat.mul_div_cancel _ (by decide)
  have hin := inside_of_page (h.blocks.aligned ha) hx hpage
  exact h.alone (hlo.trans hin.1) (hin.2.trans_le hhi) he

theorem Account.block_eq {a k b l x y : Nat} (ha : a ∈ L k ∨ Held o a k)
    (hb : b ∈ L l ∨ Held o b l) (hx : Inside a (2 ^ (buddyExponMin + k)) x)
    (hy : Inside b (2 ^ (buddyExponMin + l)) y) (he : descOf W s x = descOf W s y) :
    a = b ∧ k = l := by
  have hin := inside_of_page (h.blocks.aligned ha) hx (h.page_eq ha hx he).symm
  exact h.blocks.apart y ha hb hin.1 hin.2 hy.1 hy.2

theorem Account.not_out {a k x : Nat} (ha : a ∈ L k) (hx : Inside a (2 ^ (buddyExponMin + k)) x) :
    ¬ OutDesc W s o (descOf W s x) := by
  rintro ⟨b, m, y, hb, hy, he⟩
  obtain ⟨l, -, rfl⟩ := h.out hb
  obtain ⟨rfl, -⟩ := h.block_eq (.inl ha) (.inr hb) hx hy he
  rw [h.listed ha] at hb
  cases hb

theorem Account.head_not_out (k a : Nat) (ha : a ∈ L k) : ¬ OutDesc W s o (descOf W s a) :=
  h.not_out ha (inside_base a k)

theorem Account.update {s' : HeapVars ω} {L' : Nat → List Nat} {o' : Nat → Option Nat}
    (hflagged : Flagged F W s' L') (hworld : s'.world = s.world) (hmin : s'.minAddr = s.minAddr)
    (hmax : s'.curMaxAddr = s.curMaxAddr)
    (horders : ∀ {a k}, a ∈ L' k → (s'.desc (descOf W s a)).buddyOrder = .num k)
    (hblocks : Packing buddyExponMin (fun a k => a ∈ L' k ∨ Held o' a k) s.minAddr s.curMaxAddr)
    (hout : ∀ {a n}, o' a = some n → ∃ k ≤ buddyOrderMax, n = 2 ^ (buddyExponMin + k))
    (hlisted : ∀ {a k}, a ∈ L' k → o' a = none) : Account F W s' L' o' where
  toFlagged := hflagged
  orders ha := by
    rw [descOf_congr hworld]
    exact horders ha
  blocks := by
    rw [hmin, hmax]
    exact hblocks
  out := hout
  listed := hlisted
  alone := by
    rw [hworld, hmin, hmax]
    exact h.alone
  low := by
    rw [hmin]
    exact h.low

/-! ## Handing out -/

theorem Account.splitFirst [ListedFlags F] {k a : Nat} {rest : List Nat}
    (hfirst : L (k + 1) = a :: rest) :
    ∃ s', Heap.splitFirst W s (k + 1) = .ok s' ∧ Account F W s' (cutList L k a rest) o ∧
      OnlyAt (fun i => ¬ OutDesc W s o i) s s' := by
  obtain ⟨s', hrun, hflagged, hsame⟩ := h.toFlagged.splitFirst hfirst
  have hmem := mem_first hfirst
  have hcut := mem_cutList hfirst (h.nodup (k + 1))
  have hne : descOf W s a ≠ descOf W s (a + 2 ^ (buddyExponMin + k)) :=
    h.upper_half hfirst hmem
  have hpow : 2 ^ (buddyExponMin + (k + 1)) = 2 * 2 ^ (buddyExponMin + k) := by ring
  have hpos := Nat.two_pow_pos (buddyExponMin + k)
  have hupper : Inside a (2 ^ (buddyExponMin + (k + 1))) (a + 2 ^ (buddyExponMin + k)) :=
    ⟨by omega, by omega⟩
  have hnone : o (a + 2 ^ (buddyExponMin + k)) = none := by
    rw [Option.eq_none_iff_forall_ne_some]
    intro n hn
    obtain ⟨l, -, rfl⟩ := h.out hn
    obtain ⟨he, -⟩ := h.block_eq (.inl hmem) (.inr hn) hupper (inside_base _ l) rfl
    omega
  refine ⟨s', hrun, h.update hflagged hsame.world hsame.minAddr hsame.curMaxAddr ?_ ?_ h.out ?_,
    h.toFlagged.onlyAt_splitFirst h.head_not_out hfirst (h.not_out hmem hupper) hrun⟩
  · intro x l hx
    rw [hsame.buddyOrder, desc_splitDesc]
    rcases (hcut x l).1 hx with ⟨hx, hxa⟩ | ⟨rfl, rfl | rfl⟩
    · rw [if_neg (h.upper_half hfirst hx), if_neg]
      · exact h.orders hx
      · intro e
        have hx' := h.head_inj hmem hx e
        exact hxa ⟨hx', h.packing.order_eq (hx' ▸ hx) hmem⟩
    · rw [if_neg hne, if_pos rfl]
    · rw [if_pos rfl]
  · apply h.blocks.split (.inl hmem)
    intro x l
    have hheld : Held o x l → ¬ (x = a ∧ l = k + 1) := by
      rintro hx ⟨rfl, -⟩
      rw [Held, h.listed hmem] at hx
      cases hx
    rw [hcut]
    exact replaced_or_held hheld
  · intro x l hx
    rcases (hcut x l).1 hx with ⟨hx, -⟩ | ⟨-, rfl | rfl⟩
    · exact h.listed hx
    · exact h.listed hmem
    · exact hnone

omit h in
theorem Account.splitDown [ListedFlags F] {k : Nat} : ∀ (n : Nat) {s : HeapVars ω}
    {L : Nat → List Nat} {a : Nat} {rest : List Nat}, Account F W s L o → L (k + n) = a :: rest →
    ∃ s' L' a' rest', Heap.splitDown W n s (k + n) = .ok s' ∧ Account F W s' L' o ∧
      L' k = a' :: rest' ∧ OnlyAt (fun i => ¬ OutDesc W s o i) s s' := by
  apply splitDown_rule (F := fun L => L) (I := fun s L _ => Account F W s L o)
    (R := fun _ s _ _ s' _ _ => OnlyAt (fun i => ¬ OutDesc W s o i) s s')
  · intro s L a _
    exact .refl _ s
  · intro n s L a rest h hfirst
    obtain ⟨s₁, hrun₁, h₁, honly₁⟩ := h.splitFirst hfirst
    refine ⟨s₁, _, _, _, hrun₁, h₁, cutList_first L (k + n) a rest, ?_⟩
    intro s₂ L₂ a₂ honly₂
    rw [outDesc_congr honly₁.world] at honly₂
    exact honly₁.trans honly₂

theorem Account.takeFirst {k a : Nat} {rest : List Nat} (hfirst : L k = a :: rest) :
    ∃ s', Heap.takeFirst W s k = .ok (s', a) ∧
      Account F W s' (Function.update L k rest)
        (Function.update o a (some (2 ^ (buddyExponMin + k)))) ∧
      TakenHead F (s'.desc (descOf W s a)) k ∧ (s'.desc (descOf W s a)).buddyOrder = .num k ∧
      OnlyAt (fun i => ¬ OutDesc W s o i) s s' := by
  obtain ⟨s', hrun, hflagged, hsame⟩ := h.toFlagged.takeFirst hfirst
  have hmem := mem_first hfirst
  have htake := mem_tail hfirst (h.nodup k)
  have hne : ∀ {x l}, x ∈ Function.update L k rest l → x ∈ L l ∧ x ≠ a := by
    intro x l hx
    obtain ⟨hx, hxa⟩ := (htake x l).1 hx
    refine ⟨hx, ?_⟩
    rintro rfl
    exact hxa ⟨rfl, h.packing.order_eq hx hmem⟩
  refine ⟨s', hrun, h.update hflagged hsame.world hsame.minAddr hsame.curMaxAddr ?_ ?_ ?_ ?_,
    h.toFlagged.takeFirst_taken hmem hsame, ?_,
    h.toFlagged.onlyAt_takeFirst h.head_not_out hfirst hrun⟩
  · intro x l hx
    obtain ⟨hx, hxa⟩ := hne hx
    rw [hsame.buddyOrder, desc_takeDesc, if_neg fun e => hxa (h.head_inj hmem hx e)]
    exact h.orders hx
  · apply h.blocks.mono
    rintro x l (hx | hx)
    · exact .inl (hne hx).1
    · rcases held_update_some.1 hx with ⟨rfl, rfl⟩ | ⟨-, hx⟩
      · exact .inl hmem
      · exact .inr hx
  · intro x n hx
    by_cases hxa : x = a
    · subst hxa
      rw [Function.update_self] at hx
      exact ⟨k, h.order hmem, (Option.some.inj hx).symm⟩
    · rw [Function.update_of_ne hxa] at hx
      exact h.out hx
  · intro x l hx
    obtain ⟨hx, hxa⟩ := hne hx
    rw [Function.update_of_ne hxa]
    exact h.listed hx
  · rw [hsame.buddyOrder, desc_takeDesc, if_pos rfl]
    exact h.orders hmem

/-- `alloc_buddy` without growth: a block that was not out is out, with its descriptor that of
a live block, and the pages of the other blocks that are out stay as they are. -/
theorem Account.allocBuddy [ListedFlags F] {k : Nat} (hserved : Served s k) (fuel : Nat) :
    ∃ t L' a, Heap.allocBuddy W (fuel + 1) s (2 ^ (buddyExponMin + k)) = .ok (t, a) ∧
      o a = none ∧ Account F W t L' (Function.update o a (some (2 ^ (buddyExponMin + k)))) ∧
      TakenHead F (t.desc (descOf W s a)) k ∧ (t.desc (descOf W s a)).buddyOrder = .num k ∧
      OnlyAt (fun i => ¬ OutDesc W s o i) s t := by
  obtain ⟨n, c, rest, -, hfirst, hrun⟩ := h.toFreeBlocks.allocBuddy_eq hserved fuel
  obtain ⟨s₁, L₁, a, rest₁, hrun₁, h₁, hfirst₁, honly₁⟩ := Account.splitDown n h hfirst
  obtain ⟨s₂, hrun₂, h₂, htaken, horder, honly₂⟩ := h₁.takeFirst hfirst₁
  rw [descOf_congr honly₁.world] at htaken horder
  rw [outDesc_congr honly₁.world] at honly₂
  refine ⟨s₂, _, a, ?_, h₁.listed (mem_first hfirst₁), h₂, htaken, horder, honly₁.trans honly₂⟩
  rw [hrun, hrun₁, ok_bind, hrun₂]

/-! ## Giving back -/

theorem Account.putBack [ListedFlags F] {a k : Nat} (ha : Held o a k)
    (hlive : LiveHead (s.desc (descOf W s a)) k) :
    Account F W (Heap.putBack W s a k) (Function.update L k (a :: L k))
        (Function.update o a none) ∧
      OnlyAt (fun i => ¬ OutDesc W s (Function.update o a none) i) s (Heap.putBack W s a k) := by
  have hsame := sameData_putBack W s a k
  have hk : k ≤ buddyOrderMax := by
    obtain ⟨l, hl, he⟩ := h.out ha
    rwa [Nat.add_left_cancel (Nat.pow_right_injective (Nat.le_refl 2) he)]
  have hnew : ∀ l, a ∉ L l := by
    intro l hl
    rw [Held, h.listed hl] at ha
    cases ha
  have hpacking : Packing buddyExponMin (fun x l => x ∈ L l ∨ x = a ∧ l = k) s.minAddr
      s.curMaxAddr := by
    apply h.blocks.mono
    rintro x l (hx | ⟨rfl, rfl⟩)
    · exact .inl hx
    · exact .inr ha
  refine ⟨h.update (h.toFlagged.putBack hlive hnew hpacking hk) hsame.world hsame.minAddr
    hsame.curMaxAddr ?_ ?_ ?_ ?_, h.toFlagged.onlyAt_putBack ?_ ?_⟩
  · intro x l hx
    rw [hsame.buddyOrder, desc_giveDesc]
    rcases (mem_push x l).1 hx with hx | ⟨rfl, rfl⟩
    · rw [if_neg (h.toFreeBlocks.new_ne hnew hpacking hx)]
      exact h.orders hx
    · rw [if_pos rfl]
  · apply h.blocks.mono
    rintro x l (hx | hx)
    · rcases (mem_push x l).1 hx with hx | ⟨rfl, rfl⟩
      · exact .inl hx
      · exact .inr ha
    · exact .inr (held_update_none.1 hx).1
  · intro x n hx
    by_cases hxa : x = a
    · subst hxa
      rw [Function.update_self] at hx
      cases hx
    · rw [Function.update_of_ne hxa] at hx
      exact h.out hx
  · intro x l hx
    rcases (mem_push x l).1 hx with hx | ⟨rfl, -⟩
    · by_cases hxa : x = a
      · rw [hxa, Function.update_self]
      · rw [Function.update_of_ne hxa]
        exact h.listed hx
    · exact Function.update_self ..
  · exact fun k x hx hout => h.head_not_out k x hx hout.of_update
  · rintro ⟨b, m, y, hb, hy, he⟩
    have hba : b ≠ a := by
      rintro rfl
      rw [Function.update_self] at hb
      cases hb
    rw [Function.update_of_ne hba] at hb
    obtain ⟨l, -, rfl⟩ := h.out hb
    exact hba (h.block_eq (.inr ha) (.inr hb) (inside_base a k) hy he).1.symm

/-- A block that passes the test of `resolve_merge` has a listed buddy. -/
theorem Account.free_of_mergeable {a k : Nat} (ha : a ∈ L k) (hmerge : Mergeable W s a k) :
    buddy buddyExponMin a k ∈ L k := by
  obtain ⟨hflags, hsize⟩ := hmerge
  obtain ⟨x, l, hx, hxi⟩ := h.only _ hflags
  have hpage := h.page_eq (.inl hx) (inside_base x l) hxi
  have hxb : x = buddy buddyExponMin a k := by
    rw [← h.page_aligned hx, hpage]
    exact page_of_dvd (dvd_buddy (h.packing.aligned ha))
  rw [← hxi, (h.head hx).numPages, (h.head ha).numPages] at hsize
  have hkl : l = k := Nat.pow_right_injective (Nat.le_refl 2) (Word.num.inj hsize)
  rw [← hxb]
  exact hkl ▸ hx

theorem Account.resolveMerge {a k : Nat} (ha : a ∈ L k) (hmerge : Mergeable W s a k) :
    ∃ s' low, low + 2 ^ (buddyExponMin + k) ∈ L k ∧
      Heap.resolveMerge W s (descOf W s a) k = .ok (s', some (descOf W s low)) ∧
      Account F W s' (joinList L k low (low + 2 ^ (buddyExponMin + k))) o ∧
      OnlyAt (fun i => ¬ OutDesc W s o i) s s' := by
  have hbuddy := h.free_of_mergeable ha hmerge
  obtain ⟨s', low, -, hlow, hhigh, haligned, hrun, hflagged, hsame⟩ :=
    h.toFlagged.resolveMerge_some ha hbuddy hmerge
  have hjoin := mem_joinList low (low + 2 ^ (buddyExponMin + k)) (h.nodup k)
  have hdne := h.halves_ne hlow hhigh
  refine ⟨s', low, hhigh, hrun, h.update hflagged hsame.world hsame.minAddr hsame.curMaxAddr ?_ ?_
    h.out ?_, h.toFlagged.onlyAt_resolveMerge h.head_not_out ha hbuddy hrun⟩
  · intro x l hx
    rw [hsame.buddyOrder, desc_joinDesc hdne]
    rcases (hjoin x l).1 hx with ⟨hx, hxk⟩ | ⟨rfl, rfl⟩
    · have hxne : ∀ {y}, y ∈ L k → (y = low ∨ y = low + 2 ^ (buddyExponMin + k)) →
          descOf W s x ≠ descOf W s y := by
        intro y hy hcase e
        have hxy := h.head_inj hy hx e
        exact hxk ⟨h.packing.order_eq (hxy ▸ hx) hy, hxy ▸ hcase⟩
      rw [if_neg (hxne hlow (.inl rfl)), if_neg (hxne hhigh (.inr rfl))]
      exact h.orders hx
    · rw [if_pos rfl]
  · apply h.blocks.merge (.inl hlow) (.inl hhigh) haligned
    intro x l
    have hheld : Held o x l → ¬ (l = k ∧ (x = low ∨ x = low + 2 ^ (buddyExponMin + k))) := by
      rintro hx ⟨-, rfl | rfl⟩
      · rw [Held, h.listed hlow] at hx
        cases hx
      · rw [Held, h.listed hhigh] at hx
        cases hx
    rw [hjoin]
    exact replaced_or_held hheld
  · intro x l hx
    rcases (hjoin x l).1 hx with ⟨hx, -⟩ | ⟨rfl, -⟩
    · exact h.listed hx
    · exact h.listed hlow

omit h in
theorem Account.mergeUpwards : ∀ (fuel : Nat) {s : HeapVars ω} {L : Nat → List Nat} {k a : Nat},
    Account F W s L o → a ∈ L k → buddyOrderMax + 1 ≤ fuel + k →
    ∃ s' L', Heap.mergeUpwards W fuel s (descOf W s a) k = .ok s' ∧ Account F W s' L' o ∧
      OnlyAt (fun i => ¬ OutDesc W s o i) s s' := by
  intro fuel
  induction fuel with
  | zero =>
    intro s L k a h ha hfuel
    have := h.order ha
    omega
  | succ fuel ih =>
    intro s L k a h ha hfuel
    by_cases hmerge : Mergeable W s a k
    · obtain ⟨s₁, low, hhigh, hrun, h₁, honly₁⟩ := h.resolveMerge ha hmerge
      have hk := h.join_order hhigh
      obtain ⟨s₂, L₂, hrun₂, h₂, honly₂⟩ := ih h₁
        ((mem_joinList _ _ (h.nodup k) _ _).2 (.inr ⟨rfl, rfl⟩)) (by omega)
      rw [outDesc_congr honly₁.world] at honly₂
      refine ⟨s₂, L₂, ?_, h₂, honly₁.trans honly₂⟩
      rw [Heap.mergeUpwards, hrun]
      simp only [ok_bind]
      rw [← descOf_congr honly₁.world]
      exact hrun₂
    · have hrun := h.toFlagged.resolveMerge_none ha hmerge
      refine ⟨s, L, ?_, h, .refl _ s⟩
      simp [Heap.mergeUpwards, hrun]

theorem Account.freeBuddy [ListedFlags F] {a k : Nat} (ha : Held o a k)
    (hlive : LiveHead (s.desc (descOf W s a)) k) :
    ∃ t L', Heap.freeBuddy W s a = .ok t ∧ Account F W t L' (Function.update o a none) ∧
      OnlyAt (fun i => ¬ OutDesc W s (Function.update o a none) i) s t := by
  obtain ⟨h₁, honly₁⟩ := h.putBack ha hlive
  have hk : k ≤ buddyOrderMax := h₁.order ((mem_push a k).2 (.inr ⟨rfl, rfl⟩))
  obtain ⟨t, L', hrun, h₂, honly₂⟩ := Account.mergeUpwards (buddyOrderMax + 2) h₁
    ((mem_push a k).2 (.inr ⟨rfl, rfl⟩)) (by omega)
  rw [outDesc_congr honly₁.world] at honly₂
  refine ⟨t, L', ?_, h₂, honly₁.trans honly₂⟩
  rw [hlive.freeBuddy_eq (page_of_dvd (h.blocks.aligned (.inr ha))) hk,
    ← descOf_congr honly₁.world]
  exact hrun

end Account

end X86Kernel.Heap
