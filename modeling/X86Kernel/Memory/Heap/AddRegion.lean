import X86Kernel.Memory.Heap.AddBuddies
import X86Kernel.Memory.Heap.Ledger

/- `add_buddies` in a heap that grows.

   The blocks of a new region are put in the lists one by one, and each is joined with the free
   blocks below it. The end of the heap is moved when all of them are there, and until then
   the code does not look at it (`mergeUpwards_endAt`): the account is kept in the heap
   that ends where the loop has come to. What is proved: `add_buddies` returns and keeps the
   account, where the pages of the region have descriptors of their own (`Account.addBuddies`). -/
namespace X86Kernel.Heap
open X86Kernel.Lib

variable {ω : Type}

/-! ## The end of the heap -/

def HeapVars.endAt (s : HeapVars ω) (m : Nat) : HeapVars ω := { s with curMaxAddr := m }

section EndAt

variable (s : HeapVars ω) (m : Nat)

@[simp] theorem endAt_world : (s.endAt m).world = s.world := rfl
@[simp] theorem endAt_desc : (s.endAt m).desc = s.desc := rfl
@[simp] theorem endAt_freeBuddies : (s.endAt m).freeBuddies = s.freeBuddies := rfl

theorem modify_endAt (i : Nat) (f : Desc → Desc) :
    (s.endAt m).modify i f = (s.modify i f).endAt m := rfl

theorem setHead_endAt (order : Nat) (p : Option Nat) :
    (s.endAt m).setHead order p = (s.setHead order p).endAt m := rfl

theorem setPrevFree_endAt (p : Option Nat) (w : Word) :
    setPrevFree (s.endAt m) p w = (setPrevFree s p w).endAt m := by
  cases p <;> rfl

theorem setNextFree_endAt (p : Option Nat) (w : Word) :
    setNextFree (s.endAt m) p w = (setNextFree s p w).endAt m := by
  cases p <;> rfl

theorem pushFree_endAt (order i : Nat) :
    pushFree (s.endAt m) order i = (pushFree s order i).endAt m := by
  simp only [pushFree, modify_endAt, setPrevFree_endAt, setHead_endAt, endAt_freeBuddies]

theorem unlinkFree_endAt (order i : Nat) :
    unlinkFree (s.endAt m) order i = (unlinkFree s order i).map (HeapVars.endAt · m) := by
  simp only [unlinkFree, map_bind, endAt_desc, setPrevFree_endAt, setNextFree_endAt,
    endAt_freeBuddies, setHead_endAt]
  refine congrArg _ (funext fun next => congrArg _ (funext fun prev => ?_))
  split
  · rw [map_bind]
    rfl
  · rfl

theorem joinBlocks_endAt (order new old : Nat) :
    joinBlocks (s.endAt m) order new old =
      (joinBlocks s order new old).map fun r => (r.1.endAt m, r.2) := by
  simp only [joinBlocks, map_bind, modify_endAt, unlinkFree_endAt, bind_map, pushFree_endAt,
    endAt_desc]
  rfl

variable (W : World ω)

@[simp] theorem descOf_endAt : descOf W (s.endAt m) = descOf W s := rfl

theorem resolveMerge_endAt (cur order : Nat) :
    resolveMerge W (s.endAt m) cur order =
      (resolveMerge W s cur order).map fun r => (r.1.endAt m, r.2) := by
  simp only [resolveMerge, joinBlocks_endAt, endAt_desc, descOf_endAt]
  split_ifs <;> rfl

theorem mergeUpwards_endAt : ∀ (fuel : Nat) (s : HeapVars ω) (cur order : Nat),
    mergeUpwards W fuel (s.endAt m) cur order =
      (mergeUpwards W fuel s cur order).map (HeapVars.endAt · m) := by
  intro fuel
  induction fuel with
  | zero => intro s cur order; rfl
  | succ fuel ih =>
    intro s cur order
    rw [mergeUpwards, mergeUpwards, resolveMerge_endAt, bind_map, map_bind]
    refine congrArg _ (funext fun r => ?_)
    obtain ⟨t, new⟩ := r
    cases new with
    | none => rfl
    | some new => exact ih t new (order + 1)

theorem placeBuddy_endAt (a order : Nat) :
    placeBuddy W (s.endAt m) a order = (placeBuddy W s a order).endAt m := by
  simp only [placeBuddy, modify_endAt, pushFree_endAt, descOf_endAt]

end EndAt

/-! ## A block at the end -/

section Place

variable {F : HeapFlags → Prop} {W : World ω} {s : HeapVars ω} {L : Nat → List Nat}
  {o : Nat → Option Nat}

theorem Account.end_ne (h : Account F W s L o) {a k x : Nat} (ha : a ∈ L k ∨ Held o a k)
    (hx : Inside a (2 ^ (buddyExponMin + k)) x) : descOf W s x ≠ descOf W s s.curMaxAddr := by
  intro he
  have hpage := h.page_eq ha hx he
  have hin := inside_of_page (h.blocks.aligned ha) hx hpage.symm
  have hend := (h.blocks.inside ha).2
  exact absurd hin.2 (Nat.not_lt.2 hend)

theorem Account.end_not_out (h : Account F W s L o) :
    ¬ OutDesc W s o (descOf W s s.curMaxAddr) := by
  rintro ⟨b, m, x, hb, hx, he⟩
  obtain ⟨k, -, rfl⟩ := h.out hb
  exact h.end_ne (.inr hb) hx he.symm

/-- Pages have descriptors that belong to no other page. -/
def AloneIn (W : World ω) (w : ω) (lo hi : Nat) : Prop :=
  ∀ {p q}, lo ≤ p * pageSize → p * pageSize < hi → W.descOf w p = W.descOf w q → p = q

theorem Account.aloneIn_append (h : Account F W s L o) {n : Nat}
    (halone : AloneIn W s.world s.curMaxAddr (s.curMaxAddr + n)) :
    AloneIn W s.world s.minAddr (s.curMaxAddr + n) := by
  intro p q hmin hmax he
  by_cases hold : p * pageSize < s.curMaxAddr
  · exact h.alone hmin hold he
  · exact halone (Nat.le_of_not_lt hold) hmax he

theorem Account.onlyAt_placeBuddy (h : Account F W s L o) (k : Nat) :
    OnlyAt (fun i => ¬ OutDesc W s o i) s (placeBuddy W s s.curMaxAddr k) := by
  refine ((onlyAt_modify h.end_not_out _).trans (onlyAt_pushFree h.end_not_out ?_)).trans
    (onlyAt_modify h.end_not_out _)
  intro j hj
  obtain ⟨a, ha, rfl⟩ := List.mem_map.1 (h.lists.head_mem hj)
  exact h.head_not_out k a ha

/-- A turn of `add_buddies`: a block is put in its list, and the heap ends behind it. -/
theorem Account.place (h : Account HeapFlags.IsHead W s L o) {k : Nat} (hk : k ≤ buddyOrderMax)
    (hlo : s.minAddr ≤ s.curMaxAddr) (hdvd : 2 ^ (buddyExponMin + k) ∣ s.curMaxAddr)
    (hend : s.curMaxAddr + 2 ^ (buddyExponMin + k) < 2 ^ 32)
    (halone : AloneIn W s.world s.curMaxAddr (s.curMaxAddr + 2 ^ (buddyExponMin + k))) :
    Account HeapFlags.IsHead W ((placeBuddy W s s.curMaxAddr k).endAt
        (s.curMaxAddr + 2 ^ (buddyExponMin + k)))
      (Function.update L k (s.curMaxAddr :: L k)) o := by
  have hsame := sameData_placeBuddy W s s.curMaxAddr k
  have hd : descOf W (placeBuddy W s s.curMaxAddr k) = descOf W s := descOf_congr hsame.world
  have hne : ∀ {a l}, a ∈ L l → descOf W s a ≠ descOf W s s.curMaxAddr :=
    fun ha => h.end_ne (.inl ha) (inside_base _ _)
  have hblocks : Packing buddyExponMin
      (fun a l => a ∈ Function.update L k (s.curMaxAddr :: L k) l ∨ Held o a l) s.minAddr
      (s.curMaxAddr + 2 ^ (buddyExponMin + k)) := by
    refine h.blocks.append hlo hdvd fun a l ha => ?_
    rw [mem_push] at ha
    exact or_right_comm.1 ha
  have hlisted : ∀ l, descOf W s s.curMaxAddr ∉ (L l).map (descOf W s) := by
    intro l hl
    obtain ⟨a, ha, he⟩ := List.mem_map.1 hl
    exact hne ha he
  refine ⟨⟨⟨?_, ?_, ?_, ?_, hend, ?_⟩, ?_, ?_, ?_⟩, ?_, ?_, h.out, ?_, ?_, ?_⟩
  · rw [descOf_endAt, hd]
    exact (placeBuddy_lists h.lists hlisted k).congr (fun _ => rfl) fun _ => ⟨rfl, rfl⟩
  · intro a l ha
    rw [descOf_endAt, hd, endAt_desc]
    rcases (mem_push a l).1 ha with ha | ⟨rfl, rfl⟩
    · exact placeBuddy_head_of_ne (h.head ha) k (hne ha)
    · exact placeBuddy_head W s _ l
  · exact (hsame.minAddr ▸ hblocks).mono fun a l => .inl
  · intro a l ha
    rcases (mem_push a l).1 ha with ha | ⟨-, rfl⟩
    · exact h.order ha
    · exact hk
  · intro p q hmin hmax _ _ he
    rw [endAt_world, hsame.world] at he
    exact h.aloneIn_append halone (hsame.minAddr ▸ hmin) hmax he
  · intro a l ha
    rw [descOf_endAt, hd, endAt_desc, hsame.flags, desc_addDesc]
    rcases (mem_push a l).1 ha with ha | ⟨rfl, -⟩
    · rw [if_neg (hne ha)]
      exact h.flags ha
    · rw [if_pos rfl]
  · intro a l ha
    rw [descOf_endAt, hd, endAt_desc, hsame.buddyCache, desc_addDesc]
    rcases (mem_push a l).1 ha with ha | ⟨rfl, rfl⟩
    · rw [if_neg (hne ha)]
      exact h.cache ha
    · rw [if_pos rfl]
  · intro i hi
    rw [descOf_endAt, hd]
    rw [endAt_desc, hsame.flags, desc_addDesc] at hi
    by_cases hend : i = descOf W s s.curMaxAddr
    · exact ⟨_, k, (mem_push _ k).2 (.inr ⟨rfl, rfl⟩), hend.symm⟩
    · rw [if_neg hend] at hi
      obtain ⟨a, l, ha, hai⟩ := h.only i hi
      exact ⟨a, l, (mem_push a l).2 (.inl ha), hai⟩
  · intro a l ha
    rw [descOf_endAt, hd, endAt_desc, hsame.buddyOrder, desc_addDesc]
    rcases (mem_push a l).1 ha with ha | ⟨rfl, rfl⟩
    · rw [if_neg (hne ha)]
      exact h.orders ha
    · rw [if_pos rfl]
  · exact hsame.minAddr ▸ hblocks
  · intro a l ha
    rcases (mem_push a l).1 ha with ha | ⟨rfl, -⟩
    · exact h.listed ha
    · rw [Option.eq_none_iff_forall_ne_some]
      intro n hn
      obtain ⟨m, -, rfl⟩ := h.out hn
      exact h.end_ne (.inr hn) (inside_base _ m) rfl
  · intro p q hmin hmax he
    rw [endAt_world, hsame.world] at he
    exact h.aloneIn_append halone (hsame.minAddr ▸ hmin) hmax he
  · exact hsame.minAddr.trans_ne h.low

theorem Account.place_endAt {x k : Nat} (h : Account HeapFlags.IsHead W (s.endAt x) L o)
    (hk : k ≤ buddyOrderMax) (hlo : s.minAddr ≤ x) (hdvd : 2 ^ (buddyExponMin + k) ∣ x)
    (hend : x + 2 ^ (buddyExponMin + k) < 2 ^ 32)
    (halone : AloneIn W s.world x (x + 2 ^ (buddyExponMin + k))) :
    Account HeapFlags.IsHead W ((placeBuddy W s x k).endAt (x + 2 ^ (buddyExponMin + k)))
      (Function.update L k (x :: L k)) o ∧
    OnlyAt (fun i => ¬ OutDesc W s o i) s (placeBuddy W s x k) := by
  have hplaced := h.place hk hlo hdvd hend halone
  have honly := h.onlyAt_placeBuddy k
  change Account HeapFlags.IsHead W ((placeBuddy W (s.endAt x) x k).endAt _) _ o at hplaced
  change OnlyAt _ _ (placeBuddy W (s.endAt x) x k) at honly
  rw [placeBuddy_endAt] at hplaced honly
  exact ⟨hplaced, honly.world, honly.desc, honly.mem, honly.slabs, honly.minAddr⟩

theorem Account.mergeUpwards_endAt {m a k : Nat} (h : Account F W (s.endAt m) L o) (ha : a ∈ L k) :
    ∃ t L', Heap.mergeUpwards W (buddyOrderMax + 2) s (descOf W s a) k = .ok t ∧
      Account F W (t.endAt m) L' o ∧ OnlyAt (fun i => ¬ OutDesc W s o i) s t := by
  obtain ⟨t, L', hrun, h', honly⟩ := h.mergeUpwards (buddyOrderMax + 2) ha (by omega)
  rw [Heap.mergeUpwards_endAt, descOf_endAt] at hrun
  cases hmerge : Heap.mergeUpwards W (buddyOrderMax + 2) s (descOf W s a) k with
  | error e =>
    rw [hmerge] at hrun
    cases hrun
  | ok u =>
    rw [hmerge] at hrun
    obtain rfl := Except.ok.inj hrun
    exact ⟨u, L', rfl, h', ⟨honly.world, honly.desc, honly.mem, honly.slabs, honly.minAddr⟩⟩

theorem addBuddies_turn_eq (W : World ω) (isInit : Bool) (fuel : Nat) (s : HeapVars ω)
    {heapAddr size : Nat} (hsize : size ≠ 0) (haligned : heapAddr % pageSize = 0) :
    Heap.addBuddies W isInit (fuel + 1) s heapAddr size =
      (if isInit then pure (placeBuddy W s heapAddr (nextOrder heapAddr size))
        else Heap.mergeUpwards W (buddyOrderMax + 2)
          (placeBuddy W s heapAddr (nextOrder heapAddr size)) (descOf W s heapAddr)
          (nextOrder heapAddr size)) >>= fun t =>
      Heap.addBuddies W isInit fuel t
        (u32 (heapAddr + 2 ^ (nextOrder heapAddr size + buddyExponMin)))
        (sub32 size (2 ^ (nextOrder heapAddr size + buddyExponMin))) := by
  rw [Heap.addBuddies, if_neg hsize]
  simp only [haligned, or_true, assert, decide_true, if_true, ok_bind]
  cases isInit <;> rfl

theorem Account.settle (isInit : Bool) {x k : Nat}
    (h : Account HeapFlags.IsHead W (s.endAt x) L o) (hk : k ≤ buddyOrderMax) (hlo : s.minAddr ≤ x)
    (hdvd : 2 ^ (buddyExponMin + k) ∣ x) (hend : x + 2 ^ (buddyExponMin + k) < 2 ^ 32)
    (halone : AloneIn W s.world x (x + 2 ^ (buddyExponMin + k))) :
    ∃ t L', (if isInit then pure (placeBuddy W s x k) else Heap.mergeUpwards W (buddyOrderMax + 2)
        (placeBuddy W s x k) (descOf W s x) k) = .ok t ∧
      Account HeapFlags.IsHead W (t.endAt (x + 2 ^ (buddyExponMin + k))) L' o ∧
      OnlyAt (fun i => ¬ OutDesc W s o i) s t := by
  obtain ⟨hplaced, honly⟩ := h.place_endAt hk hlo hdvd hend halone
  cases isInit with
  | true => exact ⟨_, _, rfl, hplaced, honly⟩
  | false =>
    obtain ⟨t, L', hmerge, hmerged, honly'⟩ :=
      hplaced.mergeUpwards_endAt ((mem_push x k).2 (.inr ⟨rfl, rfl⟩))
    rw [outDesc_congr honly.world] at honly'
    rw [descOf_congr honly.world] at hmerge
    exact ⟨t, L', hmerge, hmerged, honly.trans honly'⟩

/-- `add_buddies` at the end of the heap, on pages that have descriptors of their own. -/
theorem Account.addBuddies (isInit : Bool) : ∀ (fuel : Nat) {s : HeapVars ω}
    {L : Nat → List Nat} {x size : Nat}, Account HeapFlags.IsHead W (s.endAt x) L o →
    s.minAddr ≤ x → x % pageSize = 0 → size % pageSize = 0 → x + size < 2 ^ 32 →
    AloneIn W s.world x (x + size) → size / pageSize < fuel →
    ∃ t L', Heap.addBuddies W isInit fuel s x size = .ok t ∧
      Account HeapFlags.IsHead W (t.endAt (x + size)) L' o ∧
      OnlyAt (fun i => ¬ OutDesc W s o i) s t := by
  intro fuel
  induction fuel with
  | zero =>
    intro s L x size _ _ _ _ _ _ hfuel
    exact absurd hfuel (Nat.not_lt_zero _)
  | succ fuel ih =>
    intro s L x size h hlo haligned hpages hend halone hfuel
    by_cases hsize : size = 0
    · subst hsize
      exact ⟨s, L, if_pos rfl, h, .refl _ s⟩
    · obtain ⟨hdvd, hfits, hmax⟩ := nextOrder_fits haligned hsize hpages (by omega)
      rw [addBuddies_turn_eq W isInit fuel s hsize haligned]
      generalize nextOrder x size = k at *
      rw [Nat.add_comm k]
      have hpow : 2 ^ (buddyExponMin + k) = pageSize * 2 ^ k := pow_add ..
      have hpos := Nat.two_pow_pos k
      obtain ⟨u, L₁, hsettle, hsettled, honly⟩ := h.settle isInit hmax hlo hdvd (by omega)
        fun hp hq => halone hp (hq.trans_le (Nat.add_le_add_left hfits x))
      have hsum : x + 2 ^ (buddyExponMin + k) + (size - 2 ^ (buddyExponMin + k)) = x + size := by
        omega
      have hstart : u.minAddr ≤ x + 2 ^ (buddyExponMin + k) := by
        rw [honly.minAddr]
        exact hlo.trans (Nat.le_add_right _ _)
      have haligned' : (x + 2 ^ (buddyExponMin + k)) % pageSize = 0 := by
        rw [hpow, Nat.add_mul_mod_self_left]
        exact haligned
      have hpages' : (size - 2 ^ (buddyExponMin + k)) % pageSize = 0 := by
        unfold pageSize at *
        omega
      have halone' : AloneIn W u.world (x + 2 ^ (buddyExponMin + k))
          (x + 2 ^ (buddyExponMin + k) + (size - 2 ^ (buddyExponMin + k))) := by
        rw [hsum, honly.world]
        exact fun hp => halone ((Nat.le_add_right _ _).trans hp)
      have hfuel' : (size - 2 ^ (buddyExponMin + k)) / pageSize < fuel := by
        unfold pageSize at *
        omega
      obtain ⟨v, L₂, hrest, hadded, honly₂⟩ := ih hsettled hstart haligned' hpages'
        (by omega) halone' hfuel'
      rw [outDesc_congr honly.world] at honly₂
      refine ⟨v, L₂, ?_, hsum ▸ hadded, honly.trans honly₂⟩
      rw [hsettle, ok_bind, sub32_of_le (by omega) hfits, u32_of_lt (by omega)]
      exact hrest

end Place

end X86Kernel.Heap
