import Mathlib.Data.List.Perm.Subperm
import X86Kernel.Lib.Linked
import X86Kernel.Lib.Stretch
import X86Kernel.Memory.FrameAlloc

/- What the frame allocator keeps in its descriptors. `Chain s L` says that the
   free list is the doubly linked list `L`; `Intact s L` that `L` has one node
   for each maximal run of unused pages, that both ends of each run carry its
   length and that unused pages have no references.

   What is proved:
     1. `buildFreeList_ok`: on every array whose unused pages have no references
        the first list is intact.
     2. `frameAllocPhysPages_ok`: an allocation keeps the list intact when the
        run it takes from does not end the array and the page that becomes its
        foot already carries the new length (it is never written).
     3. `frameFreePhysPages_ok`: a free keeps the list intact when the page right
        before the range is in use, so that nothing is merged backwards. -/
namespace X86Kernel.Frame

open Lib

/-! ## The list -/

def Frames.next (s : Frames) (i : Nat) : Option Nat := (s.desc i).nextDesc

def Frames.prev (s : Frames) (i : Nat) : Option Nat := (s.desc i).prevDesc

/-- The free list of `s` is `L`. -/
structure Chain (s : Frames) (L : List Nat) : Prop where
  linked : Linked s.next s.prev none s.freeLl L
  nodup : L.Nodup
  bound : ∀ i ∈ L, i < s.count

/-- Only the links may differ. -/
structure SameRuns (s s' : Frames) : Prop where
  size : s'.count = s.count
  type : ∀ i, (s'.desc i).type = (s.desc i).type
  refCount : ∀ i, (s'.desc i).refCount = (s.desc i).refCount
  length : ∀ i, (s'.desc i).count = (s.desc i).count

theorem SameRuns.trans {s s' s'' : Frames} (h : SameRuns s s') (h' : SameRuns s' s'') :
    SameRuns s s'' :=
  ⟨h'.size.trans h.size, fun i => (h'.type i).trans (h.type i),
    fun i => (h'.refCount i).trans (h.refCount i), fun i => (h'.length i).trans (h.length i)⟩

theorem load_ok {s : Frames} {i : Nat} (h : i < s.count) : load s i = .ok (s.desc i) := if_pos h

theorem load_eq_ok {s : Frames} {i : Nat} {d : Page} (h : load s i = .ok d) :
    i < s.count ∧ s.desc i = d := by
  unfold load at h
  split at h
  · next hi => exact ⟨hi, Except.ok.inj h⟩
  · cases h

theorem modify_ok {s : Frames} {i : Nat} (f : Page → Page) (h : i < s.count) :
    modify s i f = .ok (s.set i (f (s.desc i))) := if_pos h

@[simp] theorem set_count (s : Frames) (i : Nat) (p : Page) : (s.set i p).count = s.count := rfl

@[simp] theorem set_freeLl (s : Frames) (i : Nat) (p : Page) : (s.set i p).freeLl = s.freeLl := rfl

theorem set_desc (s : Frames) (i j : Nat) (p : Page) :
    (s.set i p).desc j = if j = i then p else s.desc j := rfl

theorem Chain.congr {s s' : Frames} {L : List Nat} (h : Chain s L) (hsize : s'.count = s.count)
    (hhead : s'.freeLl = s.freeLl)
    (hsame : ∀ i ∈ L, s'.next i = s.next i ∧ s'.prev i = s.prev i) : Chain s' L := by
  refine ⟨?_, h.nodup, fun i hi => hsize ▸ h.bound i hi⟩
  rw [hhead]
  exact h.linked.congr hsame

theorem Chain.length_le {s : Frames} {L : List Nat} (h : Chain s L) : L.length ≤ s.count := by
  have hsub : L ⊆ List.range s.count := fun i hi => List.mem_range.2 (h.bound i hi)
  simpa using (h.nodup.subperm hsub).length_le

theorem setNextOf_ok {s : Frames} {p : Option Nat} (q : Option Nat)
    (hp : ∀ i, p = some i → i < s.count) :
    ∃ s', setNextOf s p q = .ok s' ∧ SameRuns s s' ∧
      s'.freeLl = (if p = none then q else s.freeLl) ∧
      (∀ i, s'.next i = if p = some i then q else s.next i) ∧ ∀ i, s'.prev i = s.prev i := by
  cases p with
  | none => exact
  ⟨_, rfl, ⟨rfl, fun _ => rfl, fun _ => rfl, fun _ => rfl⟩, rfl, by simp [Frames.next],
      fun _ => rfl⟩
  | some i =>
    refine
      ⟨_, modify_ok (fun d => { d with nextDesc := q }) (hp i rfl), ⟨rfl, ?_, ?_, ?_⟩, rfl, ?_, ?_⟩
    all_goals
      intro j
      simp only [set_desc, Frames.next, Frames.prev, Option.some.injEq, eq_comm (a := i)]
      split <;> simp_all

theorem setPrevOf_ok {s : Frames} {p : Option Nat} (q : Option Nat)
    (hp : ∀ i, p = some i → i < s.count) :
    ∃ s', setPrevOf s p q = .ok s' ∧ SameRuns s s' ∧ s'.freeLl = s.freeLl ∧
      (∀ i, s'.next i = s.next i) ∧ ∀ i, s'.prev i = if p = some i then q else s.prev i := by
  cases p with
  | none => exact ⟨s, rfl, ⟨rfl, fun _ => rfl, fun _ => rfl, fun _ => rfl⟩, rfl, fun _ => rfl,
      by simp⟩
  | some i =>
    refine
      ⟨_, modify_ok (fun d => { d with prevDesc := q }) (hp i rfl), ⟨rfl, ?_, ?_, ?_⟩, rfl, ?_, ?_⟩
    all_goals
      intro j
      simp only [set_desc, Frames.next, Frames.prev, Option.some.injEq, eq_comm (a := i)]
      split <;> simp_all

theorem Chain.neighbours {s : Frames} {L : List Nat} {a : Nat} (h : Chain s L) (ha : a ∈ L) :
    (∀ i, s.next a = some i → i < s.count) ∧ ∀ i, s.prev a = some i → i < s.count := by
  obtain ⟨l₁, l₂, rfl⟩ := List.append_of_mem ha
  constructor
  · intro i hi
    rw [h.linked.next_eq] at hi
    exact h.bound i (by simp [List.mem_of_head? hi])
  · intro i hi
    rw [h.linked.prev_eq, Option.or_none] at hi
    exact h.bound i (by simp [List.mem_of_getLast? hi])

theorem unlink_ok {s : Frames} {L : List Nat} {a : Nat} (h : Chain s L) (ha : a ∈ L) :
    ∃ s', unlink s a = .ok s' ∧ Chain s' (L.erase a) ∧ SameRuns s s' := by
  obtain ⟨hnb, hpb⟩ := h.neighbours ha
  obtain ⟨s₁, h₁, hsame₁, hhead₁, hnext₁, hprev₁⟩ := setNextOf_ok (s.next a) hpb
  obtain ⟨s₂, h₂, hsame₂, hhead₂, hnext₂, hprev₂⟩ :=
    setPrevOf_ok (s.prev a) (fun i hi => hsame₁.size ▸ hnb i hi)
  refine ⟨s₂, ?_, ⟨?_, h.nodup.erase a, ?_⟩, hsame₁.trans hsame₂⟩
  · simp only [unlink, load_ok (h.bound a ha), ok_bind]
    rw [show (s.desc a).prevDesc = s.prev a from rfl, show (s.desc a).nextDesc = s.next a from rfl,
      h₁]
    exact h₂
  · rw [hhead₂, hhead₁]
    apply h.linked.unlink ha h.nodup
    · intro b _ _
      rw [hnext₂, hnext₁]
    · intro b _ _
      rw [hprev₂, hprev₁]
  · intro i hi
    rw [hsame₂.size, hsame₁.size]
    exact h.bound i (List.mem_of_mem_erase hi)

theorem pushFront_ok {s : Frames} {L : List Nat} {a : Nat} (h : Chain s L) (ha : a ∉ L)
    (hlt : a < s.count) :
    ∃ s', pushFront s a = .ok s' ∧ Chain s' (a :: L) ∧ SameRuns s s' := by
  let d : Page := { s.desc a with prevDesc := none, nextDesc := s.freeLl }
  have hne : ∀ i ∈ L, i ≠ a := fun i hi e => ha (e ▸ hi)
  have hhead : ∀ i, s.freeLl = some i → i ∈ L := by
    intro i hi
    rw [h.linked.head] at hi
    exact List.mem_of_head? hi
  obtain ⟨s', h', hsame, -, hnext, hprev⟩ :=
    setPrevOf_ok (s := s.set a d) (p := s.freeLl) (some a) (fun i hi => h.bound i (hhead i hi))
  refine ⟨{ s' with freeLl := some a }, ?_, ⟨?_, List.nodup_cons.2 ⟨ha, h.nodup⟩, ?_⟩, ?_⟩
  · simp only [pushFront, modify_ok _ hlt, ok_bind]
    rw [show (s.set a { s.desc a with prevDesc := none, nextDesc := s.freeLl }).freeLl = s.freeLl
      from rfl, h']
    rfl
  · apply h.linked.push ha h.nodup
    · show s'.next a = s.freeLl
      rw [hnext]
      simp [Frames.next, set_desc, d]
    · show s'.prev a = none
      rw [hprev, if_neg (fun e => ha (hhead a e))]
      simp [Frames.prev, set_desc, d]
    · intro b hb
      show s'.next b = s.next b
      rw [hnext]
      simp [Frames.next, set_desc, hne b hb]
    · intro b hb
      show s'.prev b = _
      rw [hprev]
      simp [Frames.prev, set_desc, hne b hb]
  · intro i hi
    show i < s'.count
    rw [hsame.size]
    rcases List.mem_cons.1 hi with rfl | hi
    · exact hlt
    · exact h.bound i hi
  · have hset : SameRuns s (s.set a d) := by
      refine ⟨rfl, ?_, ?_, ?_⟩
      all_goals
        intro i
        by_cases hia : i = a <;> simp [set_desc, hia, d]
    exact hset.trans ⟨hsame.size, hsame.type, hsame.refCount, hsame.length⟩

/-! ## Ranges of descriptors -/

/-- The `n` descriptors from `i` on are changed by `f`. -/
def Frames.onRange (s : Frames) (i n : Nat) (f : Page → Page) : Frames :=
  { s with desc := fun j => if i ≤ j ∧ j < i + n then f (s.desc j) else s.desc j }

theorem onRange_desc (s : Frames) (i n j : Nat) (f : Page → Page) :
    (s.onRange i n f).desc j = if i ≤ j ∧ j < i + n then f (s.desc j) else s.desc j := rfl

theorem onRange_succ (s : Frames) (i n : Nat) (f : Page → Page) :
    (s.set i (f (s.desc i))).onRange (i + 1) n f = s.onRange i (n + 1) f := by
  simp only [Frames.onRange, Frames.set, Frames.mk.injEq, true_and, and_true]
  funext j
  by_cases hj : j = i
  · subst hj
    simp
  · simp only [hj, if_false]
    exact if_congr (by omega) rfl rfl

theorem onRange_zero (s : Frames) (i : Nat) (f : Page → Page) : s.onRange i 0 f = s := by
  have hno : ∀ j, ¬ (i ≤ j ∧ j < i + 0) := by omega
  simp only [Frames.onRange, if_neg (hno _)]

theorem pfnRangeSetType_ok (type : PageType) : ∀ (n : Nat) (s : Frames) (i : Nat),
    i + n ≤ s.count →
    pfnRangeSetType type n s i = .ok (s.onRange i n fun d => { d with type }) := by
  intro n
  induction n with
  | zero => intro s i _; rw [onRange_zero]; rfl
  | succ n ih =>
    intro s i h
    simp only [pfnRangeSetType, modify_ok _ (show i < s.count by omega), ok_bind]
    rw [ih _ _ (show i + 1 + n ≤ _ by simp only [set_count]; omega),
      ← onRange_succ s i n fun d => { d with type }]

theorem pfnMarkPages_ok (type : PageType) (flags refCount : Nat) :
    ∀ (n : Nat) (s : Frames) (i : Nat), i + n ≤ s.count →
    pfnMarkPages type flags refCount n s i =
      .ok (s.onRange i n fun d => { d with type, flags, refCount }) := by
  intro n
  induction n with
  | zero => intro s i _; rw [onRange_zero]; rfl
  | succ n ih =>
    intro s i h
    simp only [pfnMarkPages, modify_ok _ (show i < s.count by omega), ok_bind]
    rw [ih _ _ (show i + 1 + n ≤ _ by simp only [set_count]; omega),
      ← onRange_succ s i n fun d => { d with type, flags, refCount }]

/-! ## Free runs -/

/-- Page `i` is unused. -/
def Frames.Unused (s : Frames) (i : Nat) : Prop := i < s.count ∧ (s.desc i).type = .unused

instance (s : Frames) (i : Nat) : Decidable (s.Unused i) :=
  inferInstanceAs (Decidable (i < s.count ∧ (s.desc i).type = .unused))

/-- Both ends of the run of `c` pages at `i` carry its length. -/
def Frames.Tagged (s : Frames) (i c : Nat) : Prop :=
  (s.desc i).count = c ∧ (s.desc (i + c - 1)).count = c

/-- `L` has the first page of each run of pages with `P`, and the runs are tagged. -/
structure Listed (s : Frames) (P : Nat → Prop) (L : List Nat) : Prop where
  nodes : ∀ i, i ∈ L ↔ ∃ c, Stretch P i c
  tagged : ∀ i c, Stretch P i c → s.Tagged i c

/-- The free list is `L`, with the first page of each run of unused pages. -/
structure Intact (s : Frames) (L : List Nat) : Prop extends Listed s s.Unused L where
  chain : Chain s L
  idle : ∀ i, s.Unused i → (s.desc i).refCount = 0

theorem SameRuns.unused {s s' : Frames} (h : SameRuns s s') (i : Nat) :
    s'.Unused i ↔ s.Unused i := by
  simp only [Frames.Unused, h.size, h.type]

theorem stretch_le_count {s : Frames} {i c : Nat} (h : Stretch s.Unused i c) : i + c ≤ s.count := by
  have := h.1
  have hlast := (h.2.1 (i + c - 1) (by omega) (by omega)).1
  omega

theorem Frames.exists_run {s : Frames} {i : Nat} (h : s.Unused i)
    (hbefore : ∀ j, j + 1 = i → ¬ s.Unused j) : ∃ c, Stretch s.Unused i c :=
  exists_stretch (fun _ hj => hj.1) ⟨h, hbefore⟩

/-! ## Allocation -/

/-- The nodes that following the list from `it` on visits, at most `fuel` of them. -/
def listFrom (s : Frames) : Nat → Option Nat → List Nat
  | 0, _ => []
  | _ + 1, none => []
  | fuel + 1, some i => i :: listFrom s fuel (s.next i)

/-- The free list, as a list of page indices. -/
def freeRuns (s : Frames) : List Nat := listFrom s s.count s.freeLl

theorem listFrom_eq {s : Frames} : ∀ {L : List Nat} {q it : Option Nat} {fuel : Nat},
    Linked s.next s.prev q it L → L.length ≤ fuel → listFrom s fuel it = L := by
  intro L
  induction L with
  | nil =>
    intro q it fuel h _
    have hit : it = none := h
    subst hit
    cases fuel <;> rfl
  | cons a L ih =>
    intro q it fuel h hfuel
    obtain ⟨rfl, -, htail⟩ := h
    cases fuel with
    | zero => simp at hfuel
    | succ fuel =>
      rw [listFrom, ih htail (by simpa using hfuel)]

theorem Chain.freeRuns_eq {s : Frames} {L : List Nat} (h : Chain s L) : freeRuns s = L :=
  listFrom_eq h.linked h.length_le

/-- The first run of the list with room for `n` pages. -/
def firstFit (s : Frames) (n : Nat) : Option Nat :=
  (freeRuns s).find? fun i => decide (n ≤ (s.desc i).count)

theorem findBlock_eq {s : Frames} {n : Nat} : ∀ {L : List Nat} {q it : Option Nat} {fuel : Nat},
    Linked s.next s.prev q it L → (∀ i ∈ L, i < s.count) → L.length < fuel →
    findBlock s n fuel it = .ok (L.find? fun i => decide (n ≤ (s.desc i).count)) := by
  intro L
  induction L with
  | nil =>
    intro q it fuel h _ hfuel
    have hit : it = none := h
    subst hit
    obtain ⟨fuel, rfl⟩ : ∃ k, fuel = k + 1 := ⟨fuel - 1, by omega⟩
    rfl
  | cons a L ih =>
    intro q it fuel h hbound hfuel
    obtain ⟨rfl, -, htail⟩ := h
    obtain ⟨fuel, rfl⟩ : ∃ k, fuel = k + 1 := ⟨fuel - 1, by omega⟩
    simp only [findBlock, load_ok (hbound a (by simp)), ok_bind]
    by_cases hlt : (s.desc a).count < n
    · rw [if_pos hlt, List.find?_cons_of_neg (by simpa using hlt)]
      exact ih htail (fun i hi => hbound i (List.mem_cons_of_mem _ hi)) (by simpa using hfuel)
    · rw [if_neg hlt, List.find?_cons_of_pos (by simpa using hlt)]
      rfl

theorem assertUnused_ok {s : Frames} : ∀ (n i : Nat),
    (∀ j, i ≤ j → j < i + n → s.Unused j ∧ (s.desc j).refCount = 0) →
    assertUnused s n i = .ok () := by
  intro n
  induction n with
  | zero => intro i _; rfl
  | succ n ih =>
    intro i h
    obtain ⟨⟨hlt, htype⟩, href⟩ := h i le_rfl (by omega)
    simp only [assertUnused, load_ok hlt, ok_bind, href, htype, decide_true, assert]
    exact ih (i + 1) fun j hj hjn => h j (by omega) (by omega)

/-- What is left of a run of `c` pages at `i` when the last `n` are taken is
tagged by the code: the run does not end the array, and its new foot, which is
not written, is the head or carries the length already. -/
def Frames.Splits (s : Frames) (i c n : Nat) : Prop :=
  i + c < s.count ∧ (c - n ≤ 1 ∨ (s.desc (i + (c - n) - 1)).count = c - n)

/-- The condition of an allocation of `n` pages. -/
def Frames.AllocSafe (s : Frames) (n : Nat) : Prop :=
  ∀ i, firstFit s n = some i → s.Splits i (s.desc i).count n

/-- Marking the last `n` pages of a run and one page more as used: the page more
was not unused. -/
theorem unused_after_mark {s : Frames} {i m n : Nat} (h : Stretch s.Unused i (m + n)) (j : Nat) :
    (s.onRange (i + m) (n + 1) fun d => { d with type := .used }).Unused j ↔
      s.Unused j ∧ ¬ (i + m ≤ j ∧ j < i + (m + n)) := by
  simp only [Frames.Unused, onRange_desc]
  show j < s.count ∧ _ ↔ _
  by_cases hin : i + m ≤ j ∧ j < i + m + (n + 1)
  · rw [if_pos hin]
    simp only [reduceCtorEq, and_false, false_iff]
    intro hj
    by_cases hlast : j = i + (m + n)
    · exact h.2.2.2 (hlast ▸ hj.1)
    · exact hj.2 (by omega)
  · rw [if_neg hin]
    constructor
    · intro hj
      exact ⟨hj, by omega⟩
    · intro hj
      exact hj.1

/-- The end of a run is taken and its rest is tagged: the list stays intact. -/
theorem Intact.take {s s' : Frames} {L L' : List Nat} {i m n : Nat} (h : Intact s L)
    (hrun : Stretch s.Unused i (m + n)) (hchain : Chain s' L')
    (hunused : ∀ j, s'.Unused j ↔ s.Unused j ∧ ¬ (i + m ≤ j ∧ j < i + (m + n)))
    (hnodes : ∀ j, j ∈ L' ↔ (j = i ∧ 0 < m) ∨ (j ∈ L ∧ j ≠ i))
    (hrest : 0 < m → s'.Tagged i m)
    (hcount : ∀ j, j < i ∨ i + (m + n) ≤ j → (s'.desc j).count = (s.desc j).count)
    (href : ∀ j, (s'.desc j).refCount = (s.desc j).refCount) : Intact s' L' := by
  have htake := stretch_take hrun (Nat.le_add_right m n) hunused
  refine ⟨⟨fun j => ?_, fun j d hd => ?_⟩, hchain, fun j hj => ?_⟩
  · rw [hnodes, h.nodes]
    constructor
    · intro hj
      rcases hj with ⟨rfl, hm⟩ | ⟨⟨c, hc⟩, hne⟩
      · exact ⟨m, (htake j m).2 (.inl ⟨rfl, rfl, hm⟩)⟩
      · exact ⟨c, (htake j c).2 (.inr ⟨hc, hne⟩)⟩
    · intro hj
      obtain ⟨c, hc⟩ := hj
      rcases (htake j c).1 hc with ⟨rfl, -, hm⟩ | ⟨hc, hne⟩
      · exact .inl ⟨rfl, hm⟩
      · exact .inr ⟨⟨c, hc⟩, hne⟩
  · rcases (htake j d).1 hd with ⟨rfl, rfl, hm⟩ | ⟨hd', hne⟩
    · exact hrest hm
    · -- the other runs are away from the one that was cut
      have hapart := hrun.apart hd' hne
      have hpos := hd'.1
      obtain ⟨hhead, hfoot⟩ := h.tagged j d hd'
      exact ⟨(hcount j (by omega)).trans hhead, (hcount (j + d - 1) (by omega)).trans hfoot⟩
  · rw [href]
    exact h.idle j ((hunused j).1 hj).1

theorem shrinkBlock_ok {s : Frames} {L : List Nat} {i m n : Nat} (h : Intact s L)
    (hrun : Stretch s.Unused i (m + n)) (hn : 0 < n) (hsplits : s.Splits i (m + n) n) :
    ∃ s' L', shrinkBlock (s.onRange (i + m) (n + 1) fun d => { d with type := .used }) i m (i + m) =
        .ok s' ∧ Intact s' L' ∧ s'.count = s.count ∧
      ∀ j, s'.Unused j ↔ s.Unused j ∧ ¬ (i + m ≤ j ∧ j < i + (m + n)) := by
  obtain ⟨hend, hfoot⟩ := hsplits
  rw [show m + n - n = m by omega] at hfoot
  let s₁ := s.onRange (i + m) (n + 1) fun d => { d with type := .used }
  have hfields : ∀ j, s₁.next j = s.next j ∧ s₁.prev j = s.prev j ∧
      (s₁.desc j).count = (s.desc j).count ∧ (s₁.desc j).refCount = (s.desc j).refCount := by
    intro j
    simp only [s₁, Frames.next, Frames.prev, onRange_desc]
    split <;> simp
  have hchain₁ : Chain s₁ L :=
    h.chain.congr rfl rfl fun j _ => ⟨(hfields j).1, (hfields j).2.1⟩
  have hmem : i ∈ L := (h.nodes i).2 ⟨_, hrun⟩
  have hunused := unused_after_mark hrun
  show ∃ s' L', shrinkBlock s₁ i m (i + m) = .ok s' ∧ _
  by_cases hm : m = 0
  · subst hm
    obtain ⟨s', hs', hchain, hsame⟩ := unlink_ok hchain₁ hmem
    have hunused' : ∀ j, s'.Unused j ↔ s.Unused j ∧ ¬ (i + 0 ≤ j ∧ j < i + (0 + n)) :=
      fun j => (hsame.unused j).trans (hunused j)
    refine ⟨s', L.erase i, by rw [shrinkBlock, if_pos rfl]; exact hs', ?_, hsame.size, hunused'⟩
    apply h.take hrun hchain hunused'
    · intro j
      rw [h.chain.nodup.mem_erase_iff]
      simp only [Nat.lt_irrefl, and_false, false_or]
      exact and_comm
    · intro hpos
      omega
    · intro j _
      exact (hsame.length j).trans (hfields j).2.2.1
    · intro j
      exact (hsame.refCount j).trans (hfields j).2.2.2
  · have hi : i < s₁.count := show i < s.count by omega
    have ha : i + m < s₁.count := show i + m < s.count by omega
    let s₂ := s₁.set i { s₁.desc i with count := m }
    let s₃ := s₂.set (i + m) { s₂.desc (i + m) with count := m }
    have hcount : ∀ j, (s₃.desc j).count = if j = i ∨ j = i + m then m else (s.desc j).count := by
      intro j
      have hj := (hfields j).2.2.1
      by_cases hji : j = i + m
      · simp [s₃, set_desc, hji]
      · by_cases hj' : j = i
        · simp [s₃, s₂, set_desc, hj', hm]
        · simp [s₃, s₂, set_desc, hji, hj', hj]
    have hrest : ∀ j, s₃.next j = s.next j ∧ s₃.prev j = s.prev j ∧
        (s₃.desc j).type = (s₁.desc j).type ∧ (s₃.desc j).refCount = (s.desc j).refCount := by
      intro j
      obtain ⟨hn, hp, -, hr⟩ := hfields j
      rw [← hn, ← hp, ← hr]
      by_cases hji : j = i + m
      · simp [s₃, s₂, set_desc, hji, hm, Frames.next, Frames.prev]
      · by_cases hj' : j = i
        · simp [s₃, s₂, set_desc, hj', hm, Frames.next, Frames.prev]
        · simp [s₃, s₂, set_desc, hji, hj', Frames.next, Frames.prev]
    have hunused' : ∀ j, s₃.Unused j ↔ s.Unused j ∧ ¬ (i + m ≤ j ∧ j < i + (m + n)) := by
      intro j
      rw [← hunused j]
      simp only [Frames.Unused, (hrest j).2.2.1]
      rfl
    refine ⟨s₃, L, ?_, ?_, rfl, hunused'⟩
    · simp only [shrinkBlock, if_neg hm, setCount, modify_ok _ hi, ok_bind]
      exact modify_ok _ ha
    · apply h.take hrun _ hunused'
      · intro j
        constructor
        · intro hj
          by_cases hji : j = i
          · exact .inl ⟨hji, by omega⟩
          · exact .inr ⟨hj, hji⟩
        · intro hj
          rcases hj with ⟨rfl, -⟩ | ⟨hj, -⟩
          · exact hmem
          · exact hj
      · -- a single page is its own foot; a longer rest keeps the tag it had
        intro _
        refine ⟨by rw [hcount, if_pos (.inl rfl)], ?_⟩
        rw [hcount]
        rcases hfoot with hone | htag
        · rw [if_pos (by omega)]
        · by_cases hji : i + m - 1 = i
          · rw [if_pos (.inl hji)]
          · rw [if_neg (by omega)]
            exact htag
      · intro j hj
        rw [hcount, if_neg (by omega)]
      · intro j
        exact (hrest j).2.2.2
      · exact h.chain.congr rfl rfl fun j _ => ⟨(hrest j).1, (hrest j).2.1⟩

section Fit

variable {s : Frames} {L : List Nat} {n i : Nat}

theorem Intact.fit (h : Intact s L) (hfit : firstFit s n = some i) :
    ∃ m, Stretch s.Unused i (m + n) ∧ (s.desc i).count = m + n ∧ i ∈ L := by
  rw [firstFit, h.chain.freeRuns_eq] at hfit
  have hle : n ≤ (s.desc i).count := by simpa using List.find?_some hfit
  have hmem := List.mem_of_find?_eq_some hfit
  obtain ⟨c, hrun⟩ := (h.nodes i).1 hmem
  have hcount : (s.desc i).count = c := (h.tagged i c hrun).1
  obtain ⟨m, rfl⟩ : ∃ m, c = m + n := ⟨c - n, by omega⟩
  exact ⟨m, hrun, hcount, hmem⟩

theorem Intact.alloc_eq (h : Intact s L) (hsmall : s.count < 2 ^ 20) {m : Nat}
    (hfit : firstFit s n = some i) (hrun : Stretch s.Unused i (m + n))
    (hcount : (s.desc i).count = m + n) :
    frameAllocPhysPages s n = (do
      let s₁ ← pfnRangeSetType .used (n + 1) s (i + m)
      let s₂ ← shrinkBlock s₁ i m (i + m)
      return (s₂, some (i + m))) := by
  have hfind : findBlock s n (s.count + 1) s.freeLl = .ok (firstFit s n) := by
    rw [firstFit, h.chain.freeRuns_eq]
    exact findBlock_eq h.chain.linked h.chain.bound (Nat.lt_succ_of_le h.chain.length_le)
  have hle := stretch_le_count hrun
  have hpos := hrun.1
  have hstart : sub32 (i + (m + n)) n = i + m := by
    rw [sub32_of_le (by omega) (by omega)]
    omega
  have hlen : sub32 (i + (m + n)) (i + m) = n := by
    rw [sub32_of_le (by omega) (by omega)]
    omega
  have hrest : sub32 (m + n) n = m := by
    rw [sub32_of_le (by omega) (by omega)]
    omega
  have hin : ∀ j, i + m ≤ j → j < i + m + n → s.Unused j ∧ (s.desc j).refCount = 0 := by
    intro j hj hjn
    have hu := hrun.2.1 j (by omega) (by omega)
    exact ⟨hu, h.idle j hu⟩
  simp only [frameAllocPhysPages, hfind, ok_bind, hfit]
  rw [load_ok (show i < s.count by omega), ok_bind, hcount,
    u32_of_lt (show i + (m + n) < 2 ^ 32 by omega), hstart, hlen, hrest,
    u32_of_lt (show n + 1 < 2 ^ 32 by omega), assertUnused_ok n (i + m) hin, ok_bind]

theorem frameAllocPhysPages_full (h : Intact s L) (hfit : firstFit s n = none) :
    frameAllocPhysPages s n = .ok (s, none) := by
  have hfind : findBlock s n (s.count + 1) s.freeLl = .ok (firstFit s n) := by
    rw [firstFit, h.chain.freeRuns_eq]
    exact findBlock_eq h.chain.linked h.chain.bound (Nat.lt_succ_of_le h.chain.length_le)
  simp only [frameAllocPhysPages, hfind, ok_bind, hfit]
  rfl

end Fit

/-- An allocation: nothing, or `n` pages that were unused and no longer are. -/
theorem frameAllocPhysPages_ok {s : Frames} {L : List Nat} {n : Nat} (h : Intact s L)
    (hsmall : s.count < 2 ^ 20) (hn : 0 < n) (hsafe : s.AllocSafe n) :
    (frameAllocPhysPages s n = .ok (s, none)) ∨
    ∃ s' a L', frameAllocPhysPages s n = .ok (s', some a) ∧ Intact s' L' ∧ s'.count = s.count ∧
      (∀ j, a ≤ j → j < a + n → s.Unused j) ∧
      ∀ j, s'.Unused j ↔ s.Unused j ∧ ¬ (a ≤ j ∧ j < a + n) := by
  cases hfit : firstFit s n with
  | none => exact .inl (frameAllocPhysPages_full h hfit)
  | some i =>
    right
    obtain ⟨m, hrun, hcount, -⟩ := h.fit hfit
    have hsplits := hsafe i hfit
    rw [hcount] at hsplits
    obtain ⟨s', L', hs', hintact, hsize, hunused⟩ := shrinkBlock_ok h hrun hn hsplits
    have hend : i + (m + n) < s.count := hsplits.1
    refine ⟨s', i + m, L', ?_, hintact, hsize, ?_, ?_⟩
    · rw [h.alloc_eq hsmall hfit hrun hcount,
        pfnRangeSetType_ok .used (n + 1) s (i + m) (by omega), ok_bind, hs', ok_bind, pure_eq_ok]
    · intro j hj hjn
      exact hrun.2.1 j (by omega) (by omega)
    · intro j
      rw [hunused, Nat.add_assoc i m n]

/-! ## Freeing -/

theorem setCount_both {s : Frames} {L : List Nat} {i j n : Nat} (h : Chain s L)
    (hi : i < s.count) (hj : j < s.count) :
    ∃ s', (setCount s i n >>= fun s => setCount s j n) = .ok s' ∧ Chain s' L ∧
      s'.count = s.count ∧
      (∀ k, (s'.desc k).count = if k = i ∨ k = j then n else (s.desc k).count) ∧
      ∀ k, (s'.desc k).type = (s.desc k).type ∧ (s'.desc k).refCount = (s.desc k).refCount := by
  let s₁ := s.set i { s.desc i with count := n }
  let s₂ := s₁.set j { s₁.desc j with count := n }
  have hlinks : ∀ k, s₂.next k = s.next k ∧ s₂.prev k = s.prev k ∧
      (s₂.desc k).type = (s.desc k).type ∧ (s₂.desc k).refCount = (s.desc k).refCount := by
    intro k
    by_cases hkj : k = j <;> by_cases hki : k = i <;>
      simp_all [s₂, s₁, set_desc, Frames.next, Frames.prev]
  refine ⟨s₂, ?_, h.congr rfl rfl fun k _ => ⟨(hlinks k).1, (hlinks k).2.1⟩, rfl, ?_,
    fun k => (hlinks k).2.2⟩
  · rw [setCount, modify_ok _ hi, ok_bind]
    exact modify_ok _ hj
  · intro k
    by_cases hkj : k = j <;> by_cases hki : k = i <;> simp_all [s₂, s₁, set_desc]

/-- The pages after the range are joined: `k` of them, 0 when the page after it is
in use. -/
theorem mergeForwards_ok {s : Frames} {L : List Nat} {e k : Nat} (h : Chain s L)
    (hsmall : s.count < 2 ^ 20) (hpos : 0 < e) (hle : e ≤ s.count)
    (hafter : (k = 0 ∧ ¬ s.Unused e ∧ e ∉ L) ∨
      (0 < k ∧ e + k ≤ s.count ∧ s.Unused e ∧ e ∈ L ∧ (s.desc e).count = k)) :
    ∃ s', mergeForwards s e = .ok (s', e + k - 1) ∧ Chain s' (L.erase e) ∧ SameRuns s s' := by
  have hlast : sub32 e 1 = e - 1 := sub32_of_le (by omega) hpos
  rcases hafter with ⟨rfl, hno, hnot⟩ | ⟨hk, hek, hunused, hmem, hcount⟩
  · refine ⟨s, ?_, by rwa [List.erase_of_not_mem hnot], ⟨rfl, fun _ => rfl, fun _ => rfl,
      fun _ => rfl⟩⟩
    unfold mergeForwards
    split
    · rename_i hlt
      rw [load_ok hlt, ok_bind, if_neg (fun htype => hno ⟨hlt, htype⟩), hlast]
      rfl
    · rw [hlast]
      rfl
  · obtain ⟨s', hs', hchain, hsame⟩ := unlink_ok h hmem
    refine ⟨s', ?_, hchain, hsame⟩
    rw [mergeForwards, if_pos hunused.1, load_ok hunused.1, ok_bind, if_pos hunused.2, hs', ok_bind,
      hcount, u32_of_lt (by omega), sub32_of_le (by omega) (by omega)]
    rfl

theorem Listed.add {s s' : Frames} {P Q : Nat → Prop} {L : List Nat} {p n k : Nat}
    (h : Listed s P L) (hnodup : L.Nodup) (hn : 0 < n)
    (hout : ∀ j, p ≤ j → j < p + n → ¬ P j) (hbefore : ∀ j, j + 1 = p → ¬ P j)
    (hafter : (k = 0 ∧ ¬ P (p + n)) ∨ Stretch P (p + n) k)
    (hQ : ∀ j, Q j ↔ P j ∨ (p ≤ j ∧ j < p + n))
    (hcount : ∀ j, (s'.desc j).count =
      if j = p ∨ j = p + n + k - 1 then n + k else (s.desc j).count) :
    Listed s' Q (p :: L.erase (p + n)) := by
  have hadd := stretch_add hn hout hbefore hafter hQ
  have hnew : Stretch Q p (n + k) := (hadd _ _).2 (.inl ⟨rfl, rfl⟩)
  refine ⟨fun j => ?_, fun j d hd => ?_⟩
  · rw [List.mem_cons, hnodup.mem_erase_iff, h.nodes]
    constructor
    · intro hj
      rcases hj with rfl | ⟨hne, c, hc⟩
      · exact ⟨n + k, hnew⟩
      · exact ⟨c, (hadd _ _).2 (.inr ⟨hc, hne⟩)⟩
    · intro hj
      obtain ⟨d, hd⟩ := hj
      rcases (hadd _ _).1 hd with ⟨rfl, -⟩ | ⟨hd, hne⟩
      · exact .inl rfl
      · exact .inr ⟨hne, d, hd⟩
  · by_cases hjp : j = p
    · subst hjp
      have hd' : d = n + k := hd.unique hnew
      subst hd'
      refine ⟨by rw [hcount, if_pos (.inl rfl)], ?_⟩
      rw [hcount, if_pos]
      omega
    · -- the other runs are away from the new one
      have hapart := hnew.apart hd hjp
      have hpos := hd.1
      rcases (hadd _ _).1 hd with ⟨rfl, -⟩ | ⟨hd', -⟩
      · exact absurd rfl hjp
      · obtain ⟨hhead, hfoot⟩ := h.tagged j d hd'
        refine ⟨?_, ?_⟩
        · rw [hcount, if_neg (by omega)]
          exact hhead
        · rw [hcount, if_neg (by omega)]
          exact hfoot

theorem unused_after_free {s : Frames} {p n : Nat} (hle : p + n ≤ s.count) (j : Nat) :
    (s.onRange p n fun d => { d with type := .unused, flags := 0, refCount := 0 }).Unused j ↔
      s.Unused j ∨ (p ≤ j ∧ j < p + n) := by
  simp only [Frames.Unused, onRange_desc]
  show j < s.count ∧ _ ↔ _
  by_cases hj : p ≤ j ∧ j < p + n
  · rw [if_pos hj]
    constructor
    · intro _
      exact .inr hj
    · intro _
      exact ⟨by omega, rfl⟩
  · rw [if_neg hj]
    simp [hj]

/-- Pages `p` to `p + n - 1`, none of them unused, are given back; the page before
them is in use, so nothing is merged backwards. -/
theorem frameFreePhysPages_ok {s : Frames} {L : List Nat} {p n : Nat} (h : Intact s L)
    (hsmall : s.count < 2 ^ 20) (hn : 0 < n) (hle : p + n ≤ s.count)
    (hused : ∀ j, p ≤ j → j < p + n → ¬ s.Unused j)
    (hbefore : ∀ j, j + 1 = p → ¬ s.Unused j) :
    ∃ s' L', frameFreePhysPages s p n = .ok s' ∧ Intact s' L' ∧ s'.count = s.count ∧
      ∀ j, s'.Unused j ↔ s.Unused j ∨ (p ≤ j ∧ j < p + n) := by
  -- the run right after the range, if there is one
  obtain ⟨k, hk⟩ : ∃ k, (k = 0 ∧ ¬ s.Unused (p + n)) ∨ Stretch s.Unused (p + n) k := by
    by_cases hafter : s.Unused (p + n)
    · obtain ⟨k, hk⟩ := s.exists_run hafter fun j hj => hused j (by omega) (by omega)
      exact ⟨k, .inr hk⟩
    · exact ⟨0, .inl ⟨rfl, hafter⟩⟩
  have hkle : p + n + k ≤ s.count := by
    rcases hk with ⟨rfl, -⟩ | hk
    · exact hle
    · exact stretch_le_count hk
  obtain ⟨s₁, hs₁⟩ : ∃ s₁, s₁ = s.onRange p n fun d =>
    { d with type := .unused, flags := 0, refCount := 0 } := ⟨_, rfl⟩
  have hsize₁ : s₁.count = s.count := by rw [hs₁]; rfl
  have hdesc : ∀ j, s₁.desc j = if p ≤ j ∧ j < p + n then
      { s.desc j with type := .unused, flags := 0, refCount := 0 } else s.desc j := by
    intro j
    rw [hs₁, onRange_desc]
  have hfields : ∀ j, s₁.next j = s.next j ∧ s₁.prev j = s.prev j ∧
      (s₁.desc j).count = (s.desc j).count := by
    intro j
    simp only [Frames.next, Frames.prev, hdesc]
    split <;> simp
  have hunused₁ : ∀ j, s₁.Unused j ↔ s.Unused j ∨ (p ≤ j ∧ j < p + n) := by
    rw [hs₁]
    exact unused_after_free hle
  have hchain₁ : Chain s₁ L :=
    h.chain.congr hsize₁ (by rw [hs₁]; rfl) fun j _ => ⟨(hfields j).1, (hfields j).2.1⟩
  -- the steps of the call
  have hback : mergeBackwards s₁ p = .ok p := by
    unfold mergeBackwards
    split
    · rfl
    · rename_i hp
      rw [load_ok (show p - 1 < s₁.count by omega), ok_bind, if_neg]
      · rfl
      · intro htype
        rcases (hunused₁ (p - 1)).1 ⟨by omega, htype⟩ with hu | hu
        · exact hbefore (p - 1) (by omega) hu
        · omega
  obtain ⟨s₂, h₂, hchain₂, hsame₂⟩ : ∃ s₂, mergeForwards s₁ (p + n) = .ok (s₂, p + n + k - 1) ∧
      Chain s₂ (L.erase (p + n)) ∧ SameRuns s₁ s₂ := by
    apply mergeForwards_ok hchain₁ (by omega) (by omega) (by omega)
    rcases hk with ⟨rfl, hno⟩ | hk
    · left
      refine ⟨rfl, fun hu => ?_, fun hmem => ?_⟩
      · rcases (hunused₁ _).1 hu with hu | hu
        · exact hno hu
        · omega
      · obtain ⟨c, hc⟩ := (h.nodes _).1 hmem
        exact hno hc.isStart.1
    · right
      exact ⟨hk.1, by omega, (hunused₁ _).2 (.inl hk.isStart.1), (h.nodes _).2 ⟨k, hk⟩,
        (hfields _).2.2.trans (h.tagged _ k hk).1⟩
  have hsize₂ := hsame₂.size
  obtain ⟨s₃, h₃, hchain₃, hsize₃, hcount₃, hrest₃⟩ :=
    setCount_both (n := n + k) hchain₂ (show p < s₂.count by omega)
      (show p + n + k - 1 < s₂.count by omega)
  have hnew : p ∉ L.erase (p + n) := by
    intro hmem
    obtain ⟨c, hc⟩ := (h.nodes p).1 (List.mem_of_mem_erase hmem)
    exact hused p le_rfl (by omega) hc.isStart.1
  obtain ⟨s₄, h₄, hchain₄, hsame₄⟩ := pushFront_ok hchain₃ hnew (show p < s₃.count by omega)
  have hsize₄ := hsame₄.size
  have hsize : s₄.count = s.count := by omega
  have hunused : ∀ j, s₄.Unused j ↔ s.Unused j ∨ (p ≤ j ∧ j < p + n) := by
    intro j
    rw [← hunused₁ j]
    simp only [Frames.Unused, hsize, hsize₁, hsame₄.type, (hrest₃ j).1, hsame₂.type]
  have href : ∀ j, (s₄.desc j).refCount = (s₁.desc j).refCount := by
    intro j
    rw [hsame₄.refCount, (hrest₃ j).2, hsame₂.refCount]
  refine ⟨s₄, p :: L.erase (p + n), ?_, ?_, hsize, hunused⟩
  · have hstart : u32 (pageSize * p) = pageSize * p := u32_of_lt (by simp only [pageSize]; omega)
    have hstop : u32 (pageSize * p + u32 (n * pageSize)) = pageSize * (p + n) := by
      simp only [pageSize]
      rw [u32_of_lt (show n * 4096 < 2 ^ 32 by omega), u32_of_lt (by omega)]
      omega
    have hlen : u32 (sub32 (p + n + k - 1) p + 1) = n + k := by
      rw [sub32_of_le (by omega) (by omega), u32_of_lt (by omega)]
      omega
    simp only [frameFreePhysPages, hstart, hstop]
    rw [Nat.mul_div_cancel_left p (by decide), Nat.mul_div_cancel_left (p + n) (by decide),
      if_neg (by omega), if_neg (by omega), Nat.add_sub_cancel_left,
      pfnMarkPages_ok .unused 0 0 n s p hle, ← hs₁, ok_bind, hback, ok_bind, h₂, ok_bind]
    dsimp only
    rw [hlen, ← bind_assoc, h₃, ok_bind, h₄]
  · refine ⟨h.toListed.add h.chain.nodup hn hused hbefore hk hunused fun j => ?_, hchain₄,
      fun j hj => ?_⟩
    · rw [hsame₄.length, hcount₃, hsame₂.length, (hfields j).2.2]
    · rw [href, hdesc]
      rcases (hunused j).1 hj with hj | hj
      · rw [if_neg fun hr => hused j hr.1 hr.2 hj]
        exact h.idle j hj
      · rw [if_pos hj]

/-! ## The first list -/

/-- No type and no reference count is written. -/
structure SameTypes (s s' : Frames) : Prop where
  size : s'.count = s.count
  type : ∀ i, (s'.desc i).type = (s.desc i).type
  refCount : ∀ i, (s'.desc i).refCount = (s.desc i).refCount

theorem SameTypes.trans {s s' s'' : Frames} (h : SameTypes s s') (h' : SameTypes s' s'') :
    SameTypes s s'' :=
  ⟨h'.size.trans h.size, fun i => (h'.type i).trans (h.type i),
    fun i => (h'.refCount i).trans (h.refCount i)⟩

theorem SameTypes.unused {s s' : Frames} (h : SameTypes s s') (i : Nat) :
    s'.Unused i ↔ s.Unused i := by
  simp only [Frames.Unused, h.size, h.type]

theorem skipUsed_ok : ∀ (fuel : Nat) (s : Frames) (i : Nat), s.count - i ≤ fuel → i ≤ s.count →
    ∃ s' i', skipUsed fuel s i = (s', i') ∧ i ≤ i' ∧ i' ≤ s.count ∧ SameTypes s s' ∧
      s'.freeLl = s.freeLl ∧ (∀ j, s.Unused j → s'.desc j = s.desc j) ∧
      (∀ j, i ≤ j → j < i' → ¬ s.Unused j) ∧
      (i' < s.count → s.Unused i') := by
  intro fuel
  induction fuel with
  | zero =>
    intro s i hfuel hi
    exact ⟨s, i, rfl, le_rfl, hi, ⟨rfl, fun _ => rfl, fun _ => rfl⟩, rfl,
      fun _ _ => rfl, by omega, by omega⟩
  | succ fuel ih =>
    intro s i hfuel hi
    rw [skipUsed]
    split
    · rename_i hc
      obtain ⟨hlt, htype⟩ := hc
      let s₁ := s.set i { s.desc i with count := 0, prevDesc := none, nextDesc := none }
      have hsame : SameTypes s s₁ := by
        refine ⟨rfl, ?_, ?_⟩
        all_goals
          intro j
          by_cases hj : j = i <;> simp [s₁, set_desc, hj]
      obtain ⟨s', i', hs', hle, hle', hsame', hhead, hkeep, hskip, hstop⟩ :=
        ih s₁ (i + 1) (show s.count - (i + 1) ≤ fuel by omega) hlt
      refine ⟨s', i', hs', by omega, hle', hsame.trans hsame', hhead, fun j hj => ?_,
        fun j hij hj => ?_, fun h => (hsame.unused i').1 (hstop h)⟩
      · rw [hkeep j ((hsame.unused j).2 hj)]
        exact if_neg fun e : j = i => htype (e ▸ hj.2)
      · by_cases hji : j = i
        · exact fun hu => htype (hji ▸ hu.2)
        · exact fun hu => hskip j (by omega) hj ((hsame.unused j).2 hu)
    · rename_i hc
      refine ⟨s, i, rfl, le_rfl, hi, ⟨rfl, fun _ => rfl, fun _ => rfl⟩, rfl,
        fun _ _ => rfl, by omega, fun hlt => ⟨hlt, ?_⟩⟩
      by_contra hne
      exact hc ⟨hlt, hne⟩

theorem skipUnused_ok {s : Frames} : ∀ (fuel i : Nat), s.count - i ≤ fuel → i ≤ s.count →
    i ≤ skipUnused s fuel i ∧ skipUnused s fuel i ≤ s.count ∧
      (∀ j, i ≤ j → j < skipUnused s fuel i → s.Unused j) ∧ ¬ s.Unused (skipUnused s fuel i) := by
  intro fuel
  induction fuel with
  | zero =>
    intro i hfuel hi
    refine ⟨le_rfl, hi, fun j hij hj => ?_, fun hu => ?_⟩
    · have : j < i := hj
      omega
    · have := hu.1
      simp only [skipUnused] at this
      omega
  | succ fuel ih =>
    intro i hfuel hi
    rw [skipUnused]
    split
    · rename_i hc
      obtain ⟨h₁, h₂, h₃, h₄⟩ := ih (i + 1) (by omega) hc.1
      refine ⟨by omega, h₂, fun j hij hj => ?_, h₄⟩
      by_cases hji : j = i
      · exact hji ▸ hc
      · exact h₃ j (by omega) hj
    · rename_i hc
      exact ⟨le_rfl, hi, by omega, hc⟩

/-- The unused pages before `i`. -/
def Frames.UnusedBelow (s : Frames) (i k : Nat) : Prop := s.Unused k ∧ k < i

theorem unusedBelow_eq {s : Frames} {i : Nat} (h : s.count ≤ i) : s.UnusedBelow i = s.Unused := by
  funext j
  apply propext
  constructor
  · intro hj
    exact hj.1
  · intro hj
    exact ⟨hj, lt_of_lt_of_le hj.1 h⟩

/-- The list has the runs before `i`. -/
structure Upto (s : Frames) (i : Nat) (L : List Nat) : Prop where
  le : i ≤ s.count
  chain : Chain s L
  listed : Listed s (s.UnusedBelow i) L

theorem skipUsed_upto {s : Frames} {i : Nat} {L : List Nat} (h : Upto s i L)
    (hedge : ∀ j, j + 1 = i → s.Unused j → ¬ s.Unused i) :
    ∃ s' i', skipUsed (s.count - i) s i = (s', i') ∧ i ≤ i' ∧ Upto s' i' L ∧ SameTypes s s' ∧
      (i' < s.count → s'.Unused i' ∧ ∀ j, j + 1 = i' → ¬ s'.Unused j) := by
  obtain ⟨s₁, i₁, h₁, hle, hle', hsame, hhead, hkeep, hskip, hstop⟩ :=
    skipUsed_ok (s.count - i) s i le_rfl h.le
  have hbelow : ∀ j, s₁.UnusedBelow i₁ j ↔ s.UnusedBelow i j := by
    intro j
    simp only [Frames.UnusedBelow, hsame.unused]
    constructor
    · intro hj
      refine ⟨hj.1, ?_⟩
      by_contra hge
      exact hskip j (by omega) hj.2 hj.1
    · intro hj
      exact ⟨hj.1, by omega⟩
  refine ⟨s₁, i₁, h₁, hle, ⟨hsame.size ▸ hle', ?_, ?_⟩, hsame, fun hlt => ⟨?_, ?_⟩⟩
  · -- the nodes are unused, and only other pages lose their links
    apply h.chain.congr hsame.size hhead
    intro j hj
    obtain ⟨c, hc⟩ := (h.listed.nodes j).1 hj
    simp only [Frames.next, Frames.prev, hkeep j hc.isStart.1.1, and_self]
  · rw [show s₁.UnusedBelow i₁ = s.UnusedBelow i from funext fun j => propext (hbelow j)]
    refine ⟨h.listed.nodes, fun j c hc => ?_⟩
    have hpos := hc.1
    rw [Frames.Tagged, hkeep j (hc.2.1 j le_rfl (by omega)).1,
      hkeep (j + c - 1) (hc.2.1 _ (by omega) (by omega)).1]
    exact h.listed.tagged j c hc
  · exact (hsame.unused i₁).2 (hstop hlt)
  · -- what is before the run is in use: skipped now, or where the last run ended
    intro j hj hu
    rw [hsame.unused] at hu
    by_cases hii : i₁ = i
    · exact hedge j (by omega) hu (hii ▸ hstop hlt)
    · exact hskip j (by omega) (by omega) hu

theorem pushRun_upto {s : Frames} {i e : Nat} {L : List Nat} (h : Upto s i L) (hlt : i < e)
    (hle : e ≤ s.count) (hrun : ∀ j, i ≤ j → j < e → s.Unused j)
    (hbefore : ∀ j, j + 1 = i → ¬ s.Unused j) :
    ∃ s', (setCount s i (e - i) >>= fun s => setCount s (i + (e - i) - 1) (e - i) >>= fun s =>
        pushFront s i) = .ok s' ∧ Upto s' e (i :: L) ∧ SameTypes s s' := by
  obtain ⟨s₁, h₁, hchain₁, hsize₁, hcount₁, hrest₁⟩ :=
    setCount_both (n := e - i) h.chain (show i < s.count by omega)
      (show i + (e - i) - 1 < s.count by omega)
  have hout : ∀ j, i ≤ j → j ∉ L := by
    intro j hij hj
    obtain ⟨c, hc⟩ := (h.listed.nodes j).1 hj
    exact absurd hc.isStart.1.2 (by omega)
  obtain ⟨s₂, h₂, hchain₂, hsame₂⟩ := pushFront_ok hchain₁ (hout i le_rfl) (by omega)
  have hsize₂ := hsame₂.size
  have hsame : SameTypes s s₂ := by
    refine ⟨by omega, fun j => ?_, fun j => ?_⟩
    · rw [hsame₂.type, (hrest₁ j).1]
    · rw [hsame₂.refCount, (hrest₁ j).2]
  refine ⟨s₂, ?_, ⟨by omega, hchain₂, ?_⟩, hsame⟩
  · rw [← bind_assoc, h₁, ok_bind, h₂]
  · rw [← List.erase_of_not_mem (hout (i + (e - i)) (by omega))]
    refine h.listed.add (k := 0) h.chain.nodup (by omega) ?_ ?_ ?_ ?_ ?_
    · intro j hj _ hbelow
      exact absurd hbelow.2 (by omega)
    · intro j hj hbelow
      exact hbefore j hj hbelow.1
    · exact .inl ⟨rfl, fun hbelow => absurd hbelow.2 (by omega)⟩
    · intro j
      simp only [Frames.UnusedBelow, hsame.unused]
      constructor
      · intro hj
        by_cases hji : j < i
        · exact .inl ⟨hj.1, hji⟩
        · exact .inr ⟨by omega, by omega⟩
      · intro hj
        rcases hj with hj | hj
        · exact ⟨hj.1, by omega⟩
        · exact ⟨hrun j hj.1 (by omega), by omega⟩
    · intro j
      rw [hsame₂.length, hcount₁]
      rfl

/-- The list grows by one run in each turn. At the start of a turn the runs before
`i` are in it, and no run goes over `i`. -/
theorem buildFreeListLoop_ok : ∀ (fuel : Nat) (s : Frames) (i freeCount : Nat) (L : List Nat),
    s.count - i < fuel → Upto s i L → (∀ j, j + 1 = i → s.Unused j → ¬ s.Unused i) →
    ∃ s' n L', buildFreeListLoop fuel s i freeCount = .ok (s', n) ∧ Upto s' s'.count L' ∧
      SameTypes s s' := by
  intro fuel
  induction fuel with
  | zero => intro s i freeCount L hfuel; omega
  | succ fuel ih =>
    intro s i freeCount L hfuel h hedge
    have hle := h.le
    rw [buildFreeListLoop]
    split
    · obtain ⟨s₁, i₁, h₁, hle₁, hupto₁, hsame₁, hstart⟩ := skipUsed_upto h hedge
      have hsize₁ := hsame₁.size
      rw [h₁]
      dsimp only
      split
      · have hi₁ : i₁ = s₁.count := le_antisymm hupto₁.le (by assumption)
        exact ⟨s₁, freeCount, L, rfl, hi₁ ▸ hupto₁, hsame₁⟩
      · obtain ⟨hunused, hbefore⟩ := hstart (by omega)
        obtain ⟨hle₂, hle₂', hrun, hend⟩ := skipUnused_ok (s := s₁)
          (s₁.count - i₁) i₁ le_rfl hupto₁.le
        generalize skipUnused s₁ (s₁.count - i₁) i₁ = e at *
        have hlt : i₁ < e := by
          by_contra hge
          exact hend (by rwa [show e = i₁ by omega])
        obtain ⟨s₂, h₂, hupto₂, hsame₂⟩ := pushRun_upto hupto₁ hlt hle₂' hrun hbefore
        have hsize₂ := hsame₂.size
        obtain ⟨s', n, L', hs', hupto', hsame'⟩ :=
          ih s₂ e (freeCount + (e - i₁)) (i₁ :: L) (by omega) hupto₂
            (fun j _ _ hu => hend ((hsame₂.unused e).1 hu))
        refine ⟨s', n, L', ?_, hupto', (hsame₁.trans hsame₂).trans hsame'⟩
        rw [if_neg (by omega), ← hs']
        simp only [← bind_assoc] at h₂ ⊢
        rw [h₂, ok_bind]
    · have hi : i = s.count := le_antisymm hle (by omega)
      exact ⟨s, freeCount, L, rfl, hi ▸ h, ⟨rfl, fun _ => rfl, fun _ => rfl⟩⟩

theorem buildFreeList_listed (s : Frames) : ∃ s' n L, buildFreeList s = .ok (s', n) ∧ Chain s' L ∧
    Listed s' s'.Unused L ∧ SameTypes s s' := by
  have hnone : ∀ j c, ¬ Stretch (Frames.UnusedBelow { s with freeLl := none } 0) j c :=
    fun j c h => absurd h.isStart.1.2 (by omega)
  have hempty : Upto { s with freeLl := none } 0 [] :=
    ⟨Nat.zero_le _, ⟨rfl, List.nodup_nil, by simp⟩,
      ⟨by simp [hnone], fun j c h => absurd h (hnone j c)⟩⟩
  obtain ⟨s', n, L, hs', hupto, hsame⟩ :=
    buildFreeListLoop_ok (s.count + 1) _ 0 0 [] (by simp) hempty (fun j hj => by omega)
  refine ⟨s', n, L, hs', hupto.chain, ?_, hsame.size, hsame.type, hsame.refCount⟩
  rw [← unusedBelow_eq le_rfl]
  exact hupto.listed

theorem buildFreeList_ok (s : Frames)
    (hidle : ∀ i, s.Unused i → (s.desc i).refCount = 0) :
    ∃ s' n L, buildFreeList s = .ok (s', n) ∧ Intact s' L ∧ s'.count = s.count := by
  obtain ⟨s', n, L, hs', hchain, hlisted, hsame⟩ := buildFreeList_listed s
  refine ⟨s', n, L, hs', ⟨hlisted, hchain, fun i hi => ?_⟩, hsame.size⟩
  rw [hsame.refCount]
  exact hidle i ((hsame.unused i).1 hi)

end X86Kernel.Frame
