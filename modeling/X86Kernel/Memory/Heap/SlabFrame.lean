import X86Kernel.Memory.Heap.FreeSlab

/- What the calls of the slab code leave alone.

   `Spares` says that a call does not touch the blocks that are out and no slab, neither their
   descriptors nor their memory, nor the memory of a live object other than the one that is
   given back.

   What is proved: `alloc_slab` and `free_slab` spare all that (`Inv.allocSlab_spares`,
   `Inv.freeSlab_spares`), also where the block allocator is called in between. -/
namespace X86Kernel.Heap
open X86Kernel.Lib

variable {ω : Type}

/-- The address is in a block that is out and no slab. -/
def Elsewhere {W : World ω} (A : Buddies W) (s : HeapVars ω) (g : Nat → Option Slab) (x : Nat) :
    Prop :=
  ∃ b m, A.owned s.world b = some m ∧ g b = none ∧ Inside b m x

/-- The call that leads to `t` leaves the blocks that are no slabs alone, and the objects other
than the one at `a`. -/
structure Spares {W : World ω} (A : Buddies W) (s : SlabState ω) (g : Nat → Option Slab)
    (a : Nat) (t : HeapVars ω) : Prop where
  sizes : ∀ c, (t.slabs c).objSize = (s.heap.slabs c).objSize ∧
    (t.slabs c).slabSize = (s.heap.slabs c).slabSize ∧
    (t.slabs c).slabOrder = (s.heap.slabs c).slabOrder
  keeps : Keeps W s.heap t (Elsewhere A s.heap g)
  mem : ∀ {b c x}, (b, c) ∈ s.live → b ≠ a → Inside b (s.heap.slabs c).objSize x →
    t.mem x = s.heap.mem x

section Spares

variable {W : World ω} {A : Buddies W} {C : Nat → Prop} {G : Nat → Nat → Prop} {s : SlabState ω}
  {g : Nat → Option Slab} (h : Inv A C G s g)
include h

theorem Inv.pageSize_le {b m x : Nat} (hb : A.owned s.heap.world b = some m)
    (hx : Inside b m x) : pageSize ≤ x := by
  obtain ⟨k, -, rfl, hdvd, hne, -⟩ := A.block h.ok hb
  have hle : 2 ^ (buddyExponMin + k) ≤ b := Nat.le_of_dvd (Nat.pos_of_ne_zero hne) hdvd
  have hpage : pageSize ≤ 2 ^ (buddyExponMin + k) := by
    show 2 ^ buddyExponMin ≤ _
    exact Nat.pow_le_pow_right (Nat.zero_lt_succ 1) (Nat.le_add_right _ _)
  exact (hpage.trans hle).trans hx.1

theorem Inv.elsewhere_ne {B x y : Nat} {sl : Slab} (hB : g B = some sl)
    (hx : Elsewhere A s.heap g x) (hy : Inside B (s.heap.slabs sl.cache).slabSize y) :
    descOf W s.heap x ≠ descOf W s.heap y := by
  obtain ⟨b, m, hb, hnone, hx⟩ := hx
  intro he
  rw [A.block_of_desc h.ok hb (h.owned hB) hx hy he, hB] at hnone
  cases hnone

theorem Inv.elsewhere_outside {B x : Nat} {sl : Slab} (hB : g B = some sl)
    (hx : Elsewhere A s.heap g x) : ¬ Inside B (s.heap.slabs sl.cache).slabSize x :=
  fun hin => h.elsewhere_ne hB hx hin rfl

theorem Inv.live_inside {b c x : Nat} (hb : (b, c) ∈ s.live)
    (hx : Inside b (s.heap.slabs c).objSize x) :
    ∃ B sl, g B = some sl ∧ sl.cache = c ∧ IsObj (s.heap.slabs sl.cache) B b ∧ b ∉ sl.free ∧
      Inside B (s.heap.slabs sl.cache).slabSize x := by
  obtain ⟨B, sl, hB, rfl, hobj, hfree⟩ := (h.live b c).1 hb
  have hin := (h.size hB).obj_inside hobj
  obtain ⟨hlo, hhi⟩ := hx
  exact ⟨B, sl, hB, rfl, hobj, hfree, by omega, by omega⟩

theorem Inv.live_apart {B b y x : Nat} {sl : Slab} (hB : g B = some sl)
    (hobj : IsObj (s.heap.slabs sl.cache) B b) (hne : b ≠ y)
    (hy : IsObj (s.heap.slabs sl.cache) B y)
    (hx : Inside b (s.heap.slabs sl.cache).objSize x) : x ≠ y ∧ x ≠ y + 4 := by
  have hz := (h.size hB).objSize
  obtain ⟨hlo, hhi⟩ := hx
  rcases obj_apart hobj hy with rfl | hapart
  · exact absurd rfl hne
  · omega

/-- The work in one slab that touches no descriptors but those of slabs, and no other live
object of the slab. -/
theorem Inv.spares_local {t : HeapVars ω} {B a : Nat} {sl : Slab} (hB : g B = some sl)
    (hlocal : Local W s.heap t B (s.heap.slabs sl.cache).slabSize)
    (hdesc : ∀ {x}, Elsewhere A s.heap g x →
      t.desc (descOf W s.heap x) = s.heap.desc (descOf W s.heap x))
    (hmem : ∀ {b x}, IsObj (s.heap.slabs sl.cache) B b → b ∉ sl.free → b ≠ a →
      Inside b (s.heap.slabs sl.cache).objSize x → t.mem x = s.heap.mem x) :
    Spares A s g a t where
  sizes := hlocal.sizes
  keeps := by
    refine ⟨fun {x} _ => congrFun (descOf_congr hlocal.world) x, fun hx => hdesc hx, ?_⟩
    intro x hx
    have hout := h.elsewhere_outside hB hx
    obtain ⟨b, m, hb, -, hx⟩ := hx
    exact hlocal.mem x hout (h.pageSize_le hb hx)
  mem := by
    intro b c x hb hne hx
    obtain ⟨B', sl', hB', rfl, hobj, hfree, hin⟩ := h.live_inside hb hx
    by_cases hBB : B' = B
    · subst hBB
      obtain rfl : sl' = sl := Option.some.inj (hB'.symm.trans hB)
      exact hmem hobj hfree hne hx
    · refine hlocal.mem x (fun hcon => hBB (h.slab_unique hB' hB hin hcon)) ?_
      exact h.pageSize_le (h.owned hB') hin

/-! ## An object is handed out -/

theorem Inv.allocFromSlab_spares {c i a : Nat} {t : HeapVars ω} (hc : C c)
    (hi : (s.heap.slabs c).freeSlab = some i)
    (hrun : Heap.allocFromSlab s.heap c i = .ok (t, a)) : Spares A s g a t := by
  obtain ⟨B, a', F, l, hB, rfl, havail, hmem⟩ := h.first_slab hc hi
  have hin := h.base_inside hB
  have hslab := h.slab hB
  have hnextIn : F.headD 0 = 0 ∨ Inside B (s.heap.slabs c).slabSize (F.headD 0) := by
    cases F with
    | nil => exact .inl rfl
    | cons b F => exact .inr (h.obj_inside hB (hslab.objs (show b ∈ a' :: b :: F by simp)))
  have hlocal : Local W s.heap (takeObj s.heap (descOf W s.heap B) (F.headD 0)) B
      (s.heap.slabs c).slabSize := .takeObj hin hnextIn
  have hdesc : ∀ {x}, Elsewhere A s.heap g x →
      (takeObj s.heap (descOf W s.heap B) (F.headD 0)).desc (descOf W s.heap x) =
        s.heap.desc (descOf W s.heap x) := by
    intro x hx
    rw [takeObj_desc, if_neg (h.elsewhere_ne hB hx hin)]
  -- the one store goes to the next free object
  have hobjs : ∀ {b x}, IsObj (s.heap.slabs c) B b → b ∉ a' :: F →
      Inside b (s.heap.slabs c).objSize x →
      (takeObj s.heap (descOf W s.heap B) (F.headD 0)).mem x = s.heap.mem x := by
    intro b x hobj hfree hx
    apply takeObj_mem
    cases F with
    | nil => exact .inr rfl
    | cons y F =>
      left
      refine (h.live_apart hB hobj ?_ (hslab.objs (show y ∈ a' :: y :: F by simp)) hx).1
      rintro rfl
      exact hfree (by simp)
  have heq := h.allocFromSlab_eq hB (havail.next List.mem_cons_self)
  rw [heq] at hrun
  split at hrun
  · cases hrun
    have hlocal' := (hlocal.trans (Local.linkPrev (nextSlabOf s.heap (descOf W s.heap B))
      (.num 0))).trans (Local.setFreeSlab c (nextSlabOf s.heap (descOf W s.heap B)))
    apply h.spares_local hB hlocal'
    · intro x hx
      show (linkPrev _ _ _).desc _ = _
      rw [linkPrev_desc, hdesc hx, if_neg]
      intro hj
      obtain ⟨B', sl, -, hg, -, he⟩ := havail.next_slab hmem List.mem_cons_self hj
      exact h.elsewhere_ne hg hx (h.base_inside hg) he.symm
    · intro b x hobj hfree _ hx
      show (linkPrev _ _ _).mem _ = _
      rw [linkPrev_mem]
      exact hobjs hobj hfree hx
  · cases hrun
    apply h.spares_local hB hlocal
    · exact hdesc
    · exact fun hobj hfree _ hx => hobjs hobj hfree hx

/-- `alloc_slab` leaves alone what is live. -/
theorem Inv.allocSlab_spares {c a : Nat} {t : HeapVars ω} (hc : C c)
    (hrun : Heap.allocSlab W A.alloc s.heap c = .ok (t, a)) : Spares A s g a t := by
  unfold Heap.allocSlab at hrun
  split at hrun
  · next i hi => exact h.allocFromSlab_spares hc hi hrun
  · obtain ⟨⟨r, B⟩, halloc, hinit⟩ := exists_of_bind_eq_ok hrun
    have hsized := h.sized hc
    have hsize := hsized.slabSize
    have halloc' := halloc
    rw [hsize] at halloc'
    obtain ⟨hok, hnone, howned, hslabs, hkeeps, -, -, hpages, -⟩ := A.alloc_spec h.ok halloc'
    rw [← hsize] at howned
    have hown : A.owned r.world B = some (r.slabs c).slabSize := by
      rw [howned, hslabs, Function.update_self]
    have hsized' : Sized (r.slabs c) := by
      rw [hslabs]
      exact hsized
    have heq := initSlab_eq hok hown hsized' (by rw [hslabs]; exact hpages)
    have hlocal := new_local hok hown hsized'
    obtain ⟨rfl, rfl⟩ := Prod.mk.inj (Except.ok.inj (heq.symm.trans hinit))
    -- a block that was out is none of the new slab
    have hold : ∀ {b m x}, A.owned s.heap.world b = some m → Inside b m x →
        A.owned r.world b = some m ∧ b ≠ B := by
      intro b m x hb hx
      have hne : b ≠ B := by
        rintro rfl
        rw [hnone] at hb
        cases hb
      rw [howned, Function.update_of_ne hne]
      exact ⟨hb, hne⟩
    have hother : ∀ {b m x}, A.owned s.heap.world b = some m → Inside b m x →
        (listSlab (layOut W r c B) (descOf W r B) c (B + (r.slabs c).objSize)).mem x =
          s.heap.mem x := by
      intro b m x hb hx
      obtain ⟨hb', hne⟩ := hold hb hx
      rw [hlocal.mem x (fun hcon => hne (A.apart hok hb' hown hx hcon)) (h.pageSize_le hb hx)]
      exact hkeeps.mem ⟨b, m, hb, hx⟩
    refine ⟨fun c' => ?_, ⟨?_, ?_, ?_⟩, ?_⟩
    · rw [← hslabs]
      exact hlocal.sizes c'
    · rintro x ⟨b, m, hb, -, hx⟩
      rw [descOf_congr hlocal.world]
      exact hkeeps.descOf ⟨b, m, hb, hx⟩
    · rintro x ⟨b, m, hb, -, hx⟩
      obtain ⟨hb', hne⟩ := hold hb hx
      rw [← hkeeps.desc ⟨b, m, hb, hx⟩, ← hkeeps.descOf ⟨b, m, hb, hx⟩]
      exact new_other hok hown hsized' fun y hy he =>
        hne (A.block_of_desc hok hb' hown hx hy he)
    · rintro x ⟨b, m, hb, -, hx⟩
      exact hother hb hx
    · intro b c' x hb _ hx
      obtain ⟨B', sl, hB', rfl, -, -, hin⟩ := h.live_inside hb hx
      exact hother (h.owned hB') hin

/-! ## An object comes back -/

section Back

variable {B a c : Nat} {F : List Nat} (hB : g B = some ⟨c, F⟩)
  (hobj : IsObj (s.heap.slabs c) B a)
include hB hobj

theorem Inv.giveObj_mem {b x : Nat} (hb : IsObj (s.heap.slabs c) B b) (hfree : b ∉ F)
    (hne : b ≠ a) (hx : Inside b (s.heap.slabs c).objSize x) :
    (Heap.giveObj s.heap (descOf W s.heap B) a (F.headD 0)).mem x = s.heap.mem x := by
  obtain ⟨hxa, hxa'⟩ := h.live_apart hB hb hne hobj hx
  rw [Heap.giveObj_mem _ _ _ _ _ _ hxa, if_neg hxa']
  cases F with
  | nil => exact .inr rfl
  | cons y F =>
    left
    refine (h.live_apart hB hb ?_ ((h.slab hB).objs (show y ∈ y :: F by simp)) hx).1
    rintro rfl
    exact hfree (by simp)

theorem Inv.giveObj_spares :
    Spares A s g a (Heap.giveObj s.heap (descOf W s.heap B) a (F.headD 0)) := by
  apply h.spares_local hB (h.local_giveObj hB hobj)
  · intro x hx
    rw [giveObj_desc, if_neg (h.elsewhere_ne hB hx (h.base_inside hB))]
  · exact fun hb hfree hne hx => h.giveObj_mem hB hobj hb hfree hne hx

theorem Inv.giveFull_spares (hF : F = []) :
    Spares A s g a (pushSlab (Heap.giveObj s.heap (descOf W s.heap B) a 0) c (descOf W s.heap B)
      (s.heap.slabs c).freeSlab) := by
  subst hF
  have hgive : Local W s.heap (Heap.giveObj s.heap (descOf W s.heap B) a 0) B
      (s.heap.slabs c).slabSize := h.local_giveObj hB hobj
  apply h.spares_local hB (hgive.pushSlab (h.base_inside hB) c _)
  · intro x hx
    have hne := h.elsewhere_ne hB hx (h.base_inside hB)
    rw [pushSlab_desc, if_neg hne, if_neg hne, giveObj_desc, if_neg hne, if_neg]
    intro hj
    obtain ⟨B', a', F', l, hg, he, -⟩ := h.first_slab (h.cache hB) hj
    exact h.elsewhere_ne hg hx (h.base_inside hg) he.symm
  · intro b x hb hfree hne hx
    rw [pushSlab_mem]
    exact h.giveObj_mem hB hobj hb hfree hne hx

theorem Inv.giveLast_spares (hfree : a ∉ F) (hlast : F.length + 1 = (s.heap.slabs c).count)
    {v : HeapVars ω} (hrun : returnSlab W A.free
      (Heap.giveObj s.heap (descOf W s.heap B) a (F.headD 0)) c (descOf W s.heap B) a = .ok v) :
    Spares A s g a v := by
  have hlocal := h.local_dissolve hB hobj hlast
  have hd := descOf_congr (W := W) hlocal.world
  obtain ⟨v', hfreed, -, -, hslabs, hkeeps⟩ := h.free_dissolve hB hobj hfree hlast
  rw [h.returnSlab_eq hB hobj hlast A.free] at hrun
  obtain rfl := Except.ok.inj (hfreed.symm.trans hrun)
  have hne : ∀ {b m x}, A.owned s.heap.world b = some m → g b = none → Inside b m x →
      ∃ b m, b ≠ B ∧ A.owned s.heap.world b = some m ∧ Inside b m x := by
    intro b m x hb hnone hx
    refine ⟨b, m, ?_, hb, hx⟩
    rintro rfl
    rw [hB] at hnone
    cases hnone
  refine ⟨fun c' => ?_, ⟨?_, ?_, ?_⟩, ?_⟩
  · rw [hslabs]
    exact hlocal.sizes c'
  · rintro x ⟨b, m, hb, hnone, hx⟩
    rw [hkeeps.descOf (hne hb hnone hx), hd]
  · intro x hx
    obtain ⟨b, m, hb, hnone, hin⟩ := id hx
    have hdesc := hkeeps.desc (hne hb hnone hin)
    rw [hd] at hdesc
    have hslab : ∀ {j}, prevSlabOf s.heap (descOf W s.heap B) = some j ∨
        nextSlabOf s.heap (descOf W s.heap B) = some j → j ≠ descOf W s.heap x := by
      rintro j hj rfl
      obtain ⟨B', sl, hg, -, -, he⟩ := h.linked_slab hB hlast hj
      exact h.elsewhere_ne hg hx (h.base_inside hg) he.symm
    rw [hdesc, h.dissolve_desc hB hobj fun y hy => h.elsewhere_ne hB hx hy,
      if_neg fun e => hslab (.inl e) rfl, if_neg fun e => hslab (.inr e) rfl]
  · intro x hx
    have hout := h.elsewhere_outside hB hx
    obtain ⟨b, m, hb, hnone, hin⟩ := hx
    rw [hkeeps.mem (hne hb hnone hin)]
    exact hlocal.mem x hout (h.pageSize_le hb hin)
  · intro b c' x hb hba hx
    obtain ⟨B', sl, hB', rfl, hobj', hfree', hin⟩ := h.live_inside hb hx
    -- no other object of the slab is live
    have hBB : B' ≠ B := by
      rintro rfl
      obtain rfl : sl = ⟨c, F⟩ := Option.some.inj (hB'.symm.trans hB)
      exact (List.mem_cons.1 (h.last_obj hB hobj hfree hlast hobj')).elim hba hfree'
    rw [hkeeps.mem ⟨B', _, hBB, h.owned hB', hin⟩]
    exact hlocal.mem x (fun hcon => hBB (h.slab_unique hB' hB hin hcon))
      (h.pageSize_le (h.owned hB') hin)

end Back

/-- `free_slab` leaves alone what is live, the object apart. -/
theorem Inv.freeSlab_spares {a c : Nat} {t : HeapVars ω} (hlive : (a, c) ∈ s.live)
    (hrun : Heap.freeSlab W A.free s.heap a = .ok t) : Spares A s g a t := by
  obtain ⟨B, sl, hB, rfl, hobj, hfree⟩ := (h.live a c).1 hlive
  obtain ⟨c, F⟩ := sl
  have hused : F.length < (s.heap.slabs c).count := (h.slab hB).used
  have heq := h.freeSlab_eq hB hobj A.free
  rw [heq] at hrun
  split at hrun
  · next hF =>
    cases hrun
    exact h.giveFull_spares hB hobj hF
  · split at hrun
    · cases hrun
      exact h.giveObj_spares hB hobj
    · next hlast => exact h.giveLast_spares hB hobj hfree (by omega) hrun

end Spares

end X86Kernel.Heap
