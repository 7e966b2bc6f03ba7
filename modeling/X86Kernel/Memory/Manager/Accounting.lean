import Mathlib.Data.Nat.Count
import X86Kernel.Lib.Run
import X86Kernel.Memory.Manager

/- The number of free pages that the memory manager goes by.

   `pfn_data.free_count` is what `build_free_list` returns when the descriptors are set up.
   `pfn_alloc_amount` and `pfn_free_amount`, which would change it, have no callers.

   What is proved: after `build_free_list` the number is that of the unused descriptors, and the
   list has their runs (`buildFreeList_exact`); the number stays so along a run as long as no
   call takes a page or gives one back (`run_balanced`): pages are asked for in number 0 only, a
   page table when there is no free page, and no page is put whose last reference this is.
   `mm_ensure_memory` lets a request through exactly if the number it was started with is
   larger. -/
namespace X86Kernel.Manager
open X86Kernel.Frame X86Kernel.Lib

/-- The number of descriptors of type `PAGETYPE_UNUSED`. -/
def unusedCount (s : Frames) : Nat := Nat.count s.Unused s.count

theorem unusedCount_congr {s s' : Frames} (hsize : s'.count = s.count)
    (h : ∀ i, s'.Unused i ↔ s.Unused i) : unusedCount s' = unusedCount s := by
  unfold unusedCount
  rw [hsize]
  apply le_antisymm
  · exact Nat.count_mono_left fun i _ => (h i).1
  · exact Nat.count_mono_left fun i _ => (h i).2

/-! ## The first count -/

section Count

variable {P : Nat → Prop} [DecidablePred P]

theorem count_eq_of_none {a b : Nat} (hab : a ≤ b) (h : ∀ j, a ≤ j → j < b → ¬ P j) :
    Nat.count P b = Nat.count P a := by
  obtain ⟨k, rfl⟩ := Nat.exists_eq_add_of_le hab
  have hrest : Nat.count (fun j => P (a + j)) k = 0 := by
    rw [Nat.count_iff_forall_not]
    intro j hj
    exact h (a + j) (by omega) (by omega)
  rw [Nat.count_add, hrest, Nat.add_zero]

theorem count_eq_of_all {a b : Nat} (hab : a ≤ b) (h : ∀ j, a ≤ j → j < b → P j) :
    Nat.count P b = Nat.count P a + (b - a) := by
  obtain ⟨k, rfl⟩ := Nat.exists_eq_add_of_le hab
  have hrest : Nat.count (fun j => P (a + j)) k = k := by
    rw [Nat.count_iff_forall]
    intro j hj
    exact h (a + j) (by omega) (by omega)
  rw [Nat.count_add, hrest, Nat.add_sub_cancel_left]

end Count

theorem count_unused_congr {s s' : Frames} (h : SameTypes s s') (i : Nat) :
    Nat.count s'.Unused i = Nat.count s.Unused i := by
  apply le_antisymm
  · exact Nat.count_mono_left fun j _ => (h.unused j).1
  · exact Nat.count_mono_left fun j _ => (h.unused j).2

/-- Each turn counts the run it lists: what is counted and what is before `i` grow alike. -/
theorem buildFreeListLoop_count : ∀ (fuel : Nat) (s : Frames) (i freeCount : Nat), i ≤ s.count →
    Outcome (fun _ => True) (fun r => SameTypes s r.1 ∧
        r.2 + Nat.count s.Unused i = freeCount + unusedCount s)
      (buildFreeListLoop fuel s i freeCount) := by
  intro fuel
  induction fuel with
  | zero => intros; trivial
  | succ fuel ih =>
    intro s i freeCount hi
    rw [buildFreeListLoop]
    split
    · obtain ⟨s₁, i₁, h₁, hle₁, hle₁', hsame₁, -, -, hskip, -⟩ :=
        skipUsed_ok (s.count - i) s i le_rfl hi
      have hcount₁ : Nat.count s.Unused i₁ = Nat.count s.Unused i := count_eq_of_none hle₁ hskip
      rw [h₁]
      dsimp only
      split
      · have hend : i₁ = s.count := by
          have := hsame₁.size
          omega
        refine ⟨hsame₁, ?_⟩
        rw [unusedCount, ← hend, hcount₁]
      · obtain ⟨hle₂, hle₂', hrun, -⟩ := skipUnused_ok (s := s₁) (s₁.count - i₁) i₁ le_rfl
          (by rw [hsame₁.size]; exact hle₁')
        generalize skipUnused s₁ (s₁.count - i₁) i₁ = e at hle₂ hle₂' hrun ⊢
        have hcount₂ : Nat.count s.Unused e = Nat.count s.Unused i + (e - i₁) := by
          rw [← hcount₁]
          exact count_eq_of_all hle₂ fun j hj hje => (hsame₁.unused j).1 (hrun j hj hje)
        split
        · rename_i hzero
          apply (ih s₁ e freeCount hle₂').mono
          intro r hr
          obtain ⟨hsame, hcount⟩ := hr
          refine ⟨hsame₁.trans hsame, ?_⟩
          rw [count_unused_congr hsame₁, hcount₂, unusedCount_congr hsame₁.size hsame₁.unused]
            at hcount
          omega
        · apply Outcome.bind (setCount_marks s₁ i₁ (e - i₁))
          intro s₂ hs₂
          apply Outcome.bind (setCount_marks s₂ (i₁ + (e - i₁) - 1) (e - i₁))
          intro s₃ hs₃
          apply Outcome.bind (pushFront_marks s₃ i₁)
          intro s₄ hs₄
          have hmarks := (hs₂.trans hs₃).trans hs₄
          have hsame₄ : SameTypes s s₄ := hsame₁.trans ⟨hmarks.size, hmarks.type, hmarks.refCount⟩
          apply (ih s₄ e (freeCount + (e - i₁)) (by rw [hmarks.size]; exact hle₂')).mono
          intro r hr
          obtain ⟨hsame, hcount⟩ := hr
          refine ⟨hsame₄.trans hsame, ?_⟩
          rw [count_unused_congr hsame₄, hcount₂, unusedCount_congr hsame₄.size hsame₄.unused]
            at hcount
          omega
    · have hend : i = s.count := by omega
      exact ⟨⟨rfl, fun _ => rfl, fun _ => rfl⟩, by rw [hend]; rfl⟩

theorem buildFreeList_count {s s' : Frames} {n : Nat} (h : buildFreeList s = .ok (s', n)) :
    n = unusedCount s' := by
  obtain ⟨hsame, hcount⟩ := (buildFreeListLoop_count (s.count + 1) { s with freeLl := none } 0 0
    (Nat.zero_le _)).of_ok h
  rw [Nat.count_zero] at hcount
  rw [unusedCount_congr hsame.size hsame.unused]
  omega

/-- `build_free_list` on any descriptors: the list is doubly linked and has no cycle, its nodes
are the first pages of the maximal runs of unused pages, both ends of a run carry its length, and
the answer is the number of unused pages. No type changes. -/
theorem buildFreeList_exact (s : Frames) : ∃ s' n L, buildFreeList s = .ok (s', n) ∧
    Linked s'.next s'.prev none s'.freeLl L ∧ L.Nodup ∧
    (∀ i, i ∈ L ↔ ∃ c, Stretch s.Unused i c) ∧
    (∀ i c, Stretch s.Unused i c → (s'.desc i).count = c ∧ (s'.desc (i + c - 1)).count = c) ∧
    n = unusedCount s ∧ ∀ i, (s'.desc i).type = (s.desc i).type := by
  obtain ⟨s', n, L, hs', hchain, hlisted, hsame⟩ := buildFreeList_listed s
  have hunused : s'.Unused = s.Unused := funext fun i => propext (hsame.unused i)
  rw [hunused] at hlisted
  refine ⟨s', n, L, hs', hchain.linked, hchain.nodup, hlisted.nodes, hlisted.tagged, ?_, hsame.type⟩
  rw [buildFreeList_count hs', unusedCount_congr hsame.size hsame.unused]

/-! ## Calls that leave the free pages alone -/

/-- The free pages, their descriptors and the list are the same. -/
structure SameFree (s s' : Frames) : Prop where
  size : s'.count = s.count
  head : s'.freeLl = s.freeLl
  unused : ∀ i, s'.Unused i ↔ s.Unused i
  desc : ∀ i, s.Unused i → s'.desc i = s.desc i

theorem SameFree.refl (s : Frames) : SameFree s s :=
  ⟨rfl, rfl, fun _ => Iff.rfl, fun _ _ => rfl⟩

theorem SameFree.trans {s s' s'' : Frames} (h : SameFree s s') (h' : SameFree s' s'') :
    SameFree s s'' := by
  refine ⟨h'.size.trans h.size, h'.head.trans h.head, fun i => (h'.unused i).trans (h.unused i),
    fun i hi => ?_⟩
  rw [h'.desc i ((h.unused i).2 hi), h.desc i hi]

theorem SameFree.intact {s s' : Frames} {L : List Nat} (h : SameFree s s') (hs : Intact s L) :
    Intact s' L := by
  have hfree : s'.Unused = s.Unused := funext fun i => propext (h.unused i)
  have hnode : ∀ i ∈ L, s.Unused i := by
    intro i hi
    obtain ⟨c, hc⟩ := (hs.nodes i).1 hi
    exact hc.isStart.1
  refine ⟨⟨?_, ?_⟩, ?_, ?_⟩
  · rw [hfree]
    exact hs.nodes
  · rw [hfree]
    intro i c hc
    have hpos := hc.1
    rw [Frames.Tagged, h.desc i hc.isStart.1, h.desc (i + c - 1) (hc.2.1 _ (by omega) (by omega))]
    exact hs.tagged i c hc
  · apply hs.chain.congr h.size h.head
    intro i hi
    simp only [Frames.next, Frames.prev, h.desc i (hnode i hi), and_self]
  · intro i hi
    rw [h.unused] at hi
    rw [h.desc i hi]
    exact hs.idle i hi

theorem SameFree.set {s : Frames} {i : Nat} {d : Page} (hi : ¬ s.Unused i)
    (hd : d.type ≠ .unused) : SameFree s (s.set i d) := by
  refine ⟨rfl, rfl, fun j => ?_, fun j hj => ?_⟩
  · by_cases hj : j = i
    · subst hj
      refine ⟨fun hu => absurd hu.2 ?_, fun hu => absurd hu hi⟩
      rw [set_desc, if_pos rfl]
      exact hd
    · unfold Frames.Unused
      rw [set_desc, if_neg hj]
      rfl
  · rw [set_desc, if_neg fun hji => hi (by rw [← hji]; exact hj)]

theorem set_same {s : Frames} {i : Nat} {d : Page} (h : d = s.desc i) : s.set i d = s := by
  have hdesc : (fun j => if j = i then d else s.desc j) = s.desc := by
    funext j
    by_cases hj : j = i
    · rw [if_pos hj, h, hj]
    · rw [if_neg hj]
  rw [Frames.set, hdesc]

theorem SameFree.setRefCount {s : Frames} {L : List Nat} (hs : Intact s L) {i n : Nat}
    (hi : i < s.count) (href : (s.desc i).refCount ≠ 0) :
    SameFree s (s.set i { s.desc i with refCount := n }) := by
  have hused : ¬ s.Unused i := fun hu => href (hs.idle i hu)
  exact SameFree.set hused fun htype => hused ⟨hi, htype⟩

theorem sameFree_modify {s s' : Frames} {L : List Nat} {i : Nat} {f : Nat → Nat} {u : Unit}
    (hs : Intact s L) (hi : i < s.count)
    (hassert : assert (decide ((s.desc i).refCount ≠ 0)) = .ok u)
    (h : modify s i (fun d => { d with refCount := f d.refCount }) = .ok s') :
    SameFree s s' ∧ ∀ j, j ≠ i → s'.desc j = s.desc j := by
  have href : (s.desc i).refCount ≠ 0 := of_decide_eq_true (of_assert_eq_ok hassert)
  rw [modify_ok _ hi] at h
  obtain rfl := Except.ok.inj h
  refine ⟨SameFree.setRefCount hs hi href, fun j hj => ?_⟩
  rw [set_desc, if_neg hj]

/-- A request for no page writes to the page after the first run only. -/
theorem sameFree_alloc_zero {s s' : Frames} {L : List Nat} {result : Option Nat} (hs : Intact s L)
    (hsmall : s.count < 2 ^ 20) (h : frameAllocPhysPages s 0 = .ok (s', result)) :
    SameFree s s' := by
  cases hfit : firstFit s 0 with
  | none =>
    rw [frameAllocPhysPages_full hs hfit] at h
    obtain ⟨rfl, -⟩ := Prod.mk.inj (Except.ok.inj h)
    exact SameFree.refl s
  | some i =>
    obtain ⟨m, hrun, hcount, -⟩ := hs.fit hfit
    rw [hs.alloc_eq hsmall hfit hrun hcount] at h
    obtain ⟨s₁, hset, hrest⟩ := exists_of_bind_eq_ok h
    obtain ⟨s₂, hshrink, hreturn⟩ := exists_of_bind_eq_ok hrest
    obtain ⟨rfl, -⟩ := Prod.mk.inj (Except.ok.inj hreturn)
    obtain ⟨hbound, hs₁⟩ := (pfnRangeSetType_eq .used _ s _).of_ok hset
    have hpos := hrun.1
    have hafter : ¬ s.Unused (i + m) := hrun.2.2.2
    rw [← onRange_succ, onRange_zero] at hs₁
    have hmarked : SameFree s s₁ := by
      rw [hs₁]
      exact SameFree.set hafter (by simp)
    -- the count of the run stays what it is
    have hhead : s₁.set i { s₁.desc i with count := m } = s₁ := by
      apply set_same
      have hdesc := hmarked.desc i hrun.isStart.1
      rw [hdesc, ← Nat.add_zero m, ← hcount]
    rw [shrinkBlock, if_neg (by omega), setCount,
      modify_ok _ (show i < s₁.count by rw [hmarked.size]; omega), ok_bind, hhead, setCount,
      modify_ok _ (show i + m < s₁.count by rw [hmarked.size]; omega)] at hshrink
    obtain rfl := Except.ok.inj hshrink
    apply hmarked.trans
    apply SameFree.set fun hu => hafter ((hmarked.unused _).1 hu)
    rw [hs₁]
    simp [set_desc]

theorem sameFree_getPage {s s' : Frames} {L : List Nat} {i : Nat} (hs : Intact s L)
    (h : mmGetPage s i = .ok s') : SameFree s s' := by
  obtain ⟨d, hload, hrest⟩ := exists_of_bind_eq_ok h
  obtain ⟨-, -, hrest'⟩ := exists_of_bind_eq_ok hrest
  obtain ⟨u, hassert, hmodify⟩ := exists_of_bind_eq_ok hrest'
  obtain ⟨hi, rfl⟩ := load_eq_ok hload
  exact (sameFree_modify (f := fun n => u32 (n + 1)) hs hi hassert hmodify).1

theorem sameFree_getRange : ∀ (n : Nat) {s s' : Frames} {L : List Nat} {i : Nat}, Intact s L →
    mmGetRange n s i = .ok s' → SameFree s s' := by
  intro n
  induction n with
  | zero =>
    intro s s' L i _ h
    obtain rfl := Except.ok.inj h
    exact SameFree.refl s
  | succ n ih =>
    intro s s' L i hs h
    obtain ⟨d, hload, hrest⟩ := exists_of_bind_eq_ok h
    obtain ⟨u, hassert, hrest'⟩ := exists_of_bind_eq_ok hrest
    obtain ⟨s₁, hmodify, hrange⟩ := exists_of_bind_eq_ok hrest'
    obtain ⟨hi, rfl⟩ := load_eq_ok hload
    have hfirst := (sameFree_modify (f := fun n => u32 (n + 1)) hs hi hassert hmodify).1
    exact hfirst.trans (ih (hfirst.intact hs) hrange)

theorem sameFree_putPage {s s' : Frames} {L : List Nat} {i : Nat} (hs : Intact s L)
    (hlast : (s.desc i).refCount ≠ 1) (h : mmPutPage s i = .ok s') :
    SameFree s s' ∧ ∀ j, j ≠ i → s'.desc j = s.desc j := by
  obtain ⟨d, hload, hrest⟩ := exists_of_bind_eq_ok h
  obtain ⟨u, hassert, hrest'⟩ := exists_of_bind_eq_ok hrest
  obtain ⟨s₁, hmodify, hput⟩ := exists_of_bind_eq_ok hrest'
  obtain ⟨hi, rfl⟩ := load_eq_ok hload
  have href : (s.desc i).refCount ≠ 0 := of_decide_eq_true (of_assert_eq_ok hassert)
  rw [if_neg (by omega)] at hput
  obtain rfl := Except.ok.inj hput
  exact sameFree_modify (f := fun n => n - 1) hs hi hassert hmodify

theorem sameFree_putRange : ∀ (n : Nat) {s s' : Frames} {L : List Nat} {i : Nat}, Intact s L →
    (∀ j ∈ List.range' i n, (s.desc j).refCount ≠ 1) → mmPutRange n s i = .ok s' →
    SameFree s s' := by
  intro n
  induction n with
  | zero =>
    intro s s' L i _ _ h
    obtain rfl := Except.ok.inj h
    exact SameFree.refl s
  | succ n ih =>
    intro s s' L i hs hlast h
    obtain ⟨s₁, hput, hrange⟩ := exists_of_bind_eq_ok h
    obtain ⟨hfirst, hother⟩ := sameFree_putPage hs (hlast i (by simp)) hput
    apply hfirst.trans
    apply ih (hfirst.intact hs) _ hrange
    intro j hj
    rw [List.mem_range'_1] at hj
    rw [hother j (by omega)]
    exact hlast j (List.mem_range'_1.2 (by omega))

theorem sameFree_allocPagetable {s s' : Frames} {L : List Nat} {descs pa : Nat} (hs : Intact s L)
    (hnone : ∀ i < s.count, (s.desc i).type ≠ .unused)
    (h : mmAllocPagetable descs s = .ok (s', pa)) : SameFree s s' := by
  have hfit : firstFit s 1 = none := by
    cases hfit : firstFit s 1 with
    | none => rfl
    | some i =>
      obtain ⟨m, hrun, -⟩ := hs.fit hfit
      exact absurd hrun.isStart.1.2 (hnone i hrun.isStart.1.1)
  rw [mmAllocPagetable, frameAllocPhysPages_full hs hfit, ok_bind] at h
  obtain ⟨rfl, -⟩ := Prod.mk.inj (Except.ok.inj h)
  exact SameFree.refl s

theorem sameFree_allocPages_zero {s s' : Frames} {L : List Nat} {result : Option Nat}
    (hs : Intact s L) (hsmall : s.count < 2 ^ 20) (h : mmAllocPages s 0 = .ok (s', result)) :
    SameFree s s' := by
  obtain ⟨r, halloc, hrest⟩ := exists_of_bind_eq_ok h
  obtain ⟨s₁, page⟩ := r
  have hsame := sameFree_alloc_zero hs hsmall halloc
  cases page with
  | none =>
    obtain ⟨rfl, -⟩ := Prod.mk.inj (Except.ok.inj hrest)
    exact hsame
  | some i =>
    obtain ⟨rfl, -⟩ := Prod.mk.inj (Except.ok.inj hrest)
    exact hsame

/-! ## Runs -/

/-- The calls of the memory manager that write descriptors. -/
inductive Call where
  | allocPages (count : Nat)
  | allocPagetable
  | getPage (desc : Nat)
  | putPage (desc : Nat)
  | getRange (begin count : Nat)
  | putRange (begin count : Nat)
  deriving DecidableEq, Repr

/-- The descriptors and `pfn_data.free_count`. -/
structure Accounts where
  frames : Frames
  freeCount : Nat

def Call.apply (s : Frames) : Call → Kernel Frames
  | .allocPages count => do
    let (s, _) ← mmAllocPages s count
    return s
  | .allocPagetable => do
    let (s, _) ← mmAllocPagetable mmAreaVirt s
    return s
  | .getPage desc => mmGetPage s desc
  | .putPage desc => mmPutPage s desc
  | .getRange begin count => mmGetRange count s begin
  | .putRange begin count => mmPutRange count s begin

/-- No call writes `free_count`. -/
def accountStep (u : Accounts) (c : Call) : Kernel (Accounts × Unit) := do
  let frames ← c.apply u.frames
  return ({ u with frames }, ())

/-- The call takes no page from the free ones and gives none back. -/
def Call.KeepsFree (u : Accounts) : Call → Prop
  | .allocPages count => count = 0
  | .allocPagetable => ∀ i < u.frames.count, (u.frames.desc i).type ≠ .unused
  | .getPage _ => True
  | .putPage desc => (u.frames.desc desc).refCount ≠ 1
  | .getRange _ _ => True
  | .putRange begin count => ∀ j ∈ List.range' begin count, (u.frames.desc j).refCount ≠ 1

/-- The number that is kept is that of the unused pages. -/
structure Balanced (u : Accounts) : Prop where
  small : u.frames.count < 2 ^ 20
  intact : ∃ L, Intact u.frames L
  count : u.freeCount = unusedCount u.frames

theorem sameFree_apply {u : Accounts} {c : Call} {s' : Frames} (hu : Balanced u)
    (hc : c.KeepsFree u) (h : c.apply u.frames = .ok s') : SameFree u.frames s' := by
  obtain ⟨L, hL⟩ := hu.intact
  cases c with
  | allocPages count =>
    obtain rfl : count = 0 := hc
    obtain ⟨r, halloc, hr⟩ := exists_of_bind_eq_ok h
    obtain rfl := Except.ok.inj hr
    exact sameFree_allocPages_zero hL hu.small halloc
  | allocPagetable =>
    obtain ⟨r, halloc, hr⟩ := exists_of_bind_eq_ok h
    obtain rfl := Except.ok.inj hr
    exact sameFree_allocPagetable hL hc halloc
  | getPage desc => exact sameFree_getPage hL h
  | putPage desc => exact (sameFree_putPage hL hc h).1
  | getRange begin count => exact sameFree_getRange count hL h
  | putRange begin count => exact sameFree_putRange count hL hc h

theorem accountStep_balanced {u u' : Accounts} {c : Call} {o : Unit} (hu : Balanced u)
    (hc : c.KeepsFree u) (h : accountStep u c = .ok (u', o)) : Balanced u' := by
  obtain ⟨s', happly, hstep⟩ := exists_of_bind_eq_ok h
  obtain ⟨rfl, -⟩ := Prod.mk.inj (Except.ok.inj hstep)
  have hsame := sameFree_apply hu hc happly
  obtain ⟨L, hL⟩ := hu.intact
  refine ⟨?_, ⟨L, hsame.intact hL⟩, ?_⟩
  · show s'.count < 2 ^ 20
    rw [hsame.size]
    exact hu.small
  · show u.freeCount = unusedCount s'
    rw [hu.count, unusedCount_congr hsame.size hsame.unused]

/-- On every array that fits in the address space and whose unused pages have no references,
and along every run of calls that take no free page and give none back: the number that
`pfn_page_free_count` returns is that of the unused pages in every state reached, and
`mm_ensure_memory` lets through what is less than that. -/
theorem run_balanced (s₀ : Frames) (hsmall : s₀.count < 2 ^ 20)
    (hidle : ∀ i, s₀.Unused i → (s₀.desc i).refCount = 0) :
    ∃ s n, buildFreeList s₀ = .ok (s, n) ∧ ∀ calls,
      Meets accountStep (fun u c => c.KeepsFree u) ⟨s, n⟩ calls →
      ∀ pre, pre <+: calls → ∀ u outs, run accountStep ⟨s, n⟩ pre = .ok (u, outs) →
        u.freeCount = unusedCount u.frames ∧
        ∀ count, mmEnsureMemory u.freeCount count = .ok () → count < unusedCount u.frames := by
  obtain ⟨s, n, L, hs, hL, hsize⟩ := buildFreeList_ok s₀ hidle
  have hstart : Balanced ⟨s, n⟩ :=
    ⟨show s.count < 2 ^ 20 by rw [hsize]; exact hsmall, ⟨L, hL⟩, buildFreeList_count hs⟩
  refine ⟨s, n, hs, fun calls hmeets pre hpre u outs hrun => ?_⟩
  have hbalanced := run_keeps (I := Balanced) (C := fun u c => c.KeepsFree u)
    accountStep_balanced hstart (hmeets.of_prefix hpre) hrun
  refine ⟨hbalanced.count, fun count hensure => ?_⟩
  rw [← hbalanced.count]
  exact of_decide_eq_true (of_assert_eq_ok hensure)

instance (u : Accounts) : ∀ c, Decidable (Call.KeepsFree u c)
  | .allocPages count => inferInstanceAs (Decidable (count = 0))
  | .allocPagetable =>
    inferInstanceAs (Decidable (∀ i < u.frames.count, (u.frames.desc i).type ≠ .unused))
  | .getPage _ => inferInstanceAs (Decidable True)
  | .putPage desc => inferInstanceAs (Decidable ((u.frames.desc desc).refCount ≠ 1))
  | .getRange _ _ => inferInstanceAs (Decidable True)
  | .putRange begin count => inferInstanceAs (Decidable (∀ j ∈ List.range' begin count,
      (u.frames.desc j).refCount ≠ 1))

/-- Two free pages, and after them one with two references. -/
def sharedPage : Frames where
  count := 4
  desc i := ⟨if i = 3 then 2 else 0, 0, if i = 0 then .reserved else if i = 3 then .used else
    .unused, none, none, 0⟩
  freeLl := none

/-- The page is referenced and released twice, and no page is asked for. -/
theorem sharedPage_balanced :
    ∃ r q, buildFreeList sharedPage = .ok r ∧
      run accountStep ⟨r.1, r.2⟩
        [.getPage 3, .allocPages 0, .putRange 3 1, .getRange 3 1, .putPage 3] = .ok q ∧
      q.1.freeCount = unusedCount q.1.frames := by
  have hidle : ∀ i, sharedPage.Unused i → (sharedPage.desc i).refCount = 0 := by
    intro i hi
    by_cases h3 : i = 3
    · subst h3
      exact absurd hi (by decide)
    · simp [sharedPage, h3]
  obtain ⟨s, n, hs, hruns⟩ := run_balanced sharedPage (by decide) hidle
  have hrun : ∃ r q, buildFreeList sharedPage = .ok r ∧
      run accountStep ⟨r.1, r.2⟩
        [.getPage 3, .allocPages 0, .putRange 3 1, .getRange 3 1, .putPage 3] = .ok q ∧
      Meets accountStep (fun u c => c.KeepsFree u) ⟨r.1, r.2⟩
        [.getPage 3, .allocPages 0, .putRange 3 1, .getRange 3 1, .putPage 3] := by
    refine ⟨_, _, rfl, rfl, ?_⟩
    decide +kernel
  obtain ⟨r, q, hr, hq, hmeets⟩ := hrun
  obtain rfl : r = (s, n) := Except.ok.inj (hr.symm.trans hs)
  exact ⟨(s, n), q, hs, hq, (hruns _ hmeets _ (List.prefix_refl _) q.1 q.2 hq).1⟩

/-- One of two free pages is handed out: one is left, and two are counted. -/
theorem onePage_not_counted :
    ∃ r q, buildFreeList (framesOf [.reserved, .unused, .unused, .used]) = .ok r ∧
      accountStep ⟨r.1, r.2⟩ (.allocPages 1) = .ok q ∧
      q.1.freeCount = 2 ∧ unusedCount q.1.frames = 1 ∧ mmEnsureMemory q.1.freeCount 1 = .ok () := by
  refine ⟨_, _, rfl, rfl, ?_, ?_, ?_⟩
  · rfl
  · decide +kernel
  · rfl

end X86Kernel.Manager
