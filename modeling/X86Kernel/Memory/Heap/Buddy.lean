import X86Kernel.Memory.Heap.FreeBlocks

/- Blocks of the buddy allocator: splitting and joining keep the heap well formed.

   `Flagged F` adds to the listed blocks (`FreeBlocks`) their flags: those of `F` are set at
   their heads, and all three nowhere else; with `Marked` all three are. The abstract state is
   `Blocks`: for each order the addresses of its free blocks, in the order of the list, and the
   live blocks. `Shown` says that the descriptors and the lists of the heap show these blocks
   and that they tile the heap (`Lib.Tiling`), `Rep` adds that no other page has the frame of a
   page of the heap, and `WellFormed` that no two free blocks are each other's buddy. The second
   is needed: `resolve_merge` looks at the page of the buddy without asking whether it is in the
   heap (`aliasedPage_merges`).

   What is proved: from every well-formed state, `alloc_buddy` of a power of two of
   pages that some list can serve, and `free_buddy` of a live block, return, and
   end in a well-formed state (`buddy_wellFormed`). Between the steps of a call two
   free buddies may exist; `Loose` says that one given block is part of every such
   pair. A split makes the first block of the next list that one, a join the joined
   block, and handing the block out, or finding no buddy, leaves no pair. -/
namespace X86Kernel.Heap
open X86Kernel.Lib

variable {ω : Type}

/-! ## Flags -/

/-- All three flags are set. -/
abbrev HeapFlags.IsFree (f : HeapFlags) : Prop := f = ⟨true, true, true⟩

/-- The flag is set that `add_buddies` sets. -/
abbrev HeapFlags.IsHead (f : HeapFlags) : Prop := f.head = true

/-- Flags that the heads of listed blocks may be asked to have. -/
class ListedFlags (F : HeapFlags → Prop) : Prop where
  free : F ⟨true, true, true⟩
  head : ∀ {f}, F f → f.head = true

instance : ListedFlags HeapFlags.IsFree where
  free := rfl
  head h := by rw [h]

instance : ListedFlags HeapFlags.IsHead where
  free := rfl
  head h := h

/-- The heap lists these blocks, with flags of `F`, and no others have all three flags. -/
structure Flagged (F : HeapFlags → Prop) (W : World ω) (s : HeapVars ω) (L : Nat → List Nat) : Prop
    extends FreeBlocks W s L where
  flags : ∀ {a k}, a ∈ L k → F (s.desc (descOf W s a)).flags
  cache : ∀ {a k}, a ∈ L k → (s.desc (descOf W s a)).buddyCache = .buddies k
  only : ∀ i, (s.desc i).flags = ⟨true, true, true⟩ → ∃ a k, a ∈ L k ∧ descOf W s a = i

/-- The heap lists these blocks, and the flags show them. -/
abbrev Marked (W : World ω) (s : HeapVars ω) (L : Nat → List Nat) : Prop :=
  Flagged HeapFlags.IsFree W s L

/-- The head of a live block. -/
structure LiveHead (d : Desc) (k : Nat) : Prop where
  flags : d.flags = ⟨false, true, true⟩
  numPages : d.numPages = .num (2 ^ k)
  buddyCache : d.buddyCache = .buddies k

theorem LiveHead.congr {d d' : Desc} {k : Nat} (h : LiveHead d k) (hflags : d'.flags = d.flags)
    (hpages : d'.numPages = d.numPages) (hcache : d'.buddyCache = d.buddyCache) : LiveHead d' k :=
  ⟨hflags.trans h.flags, hpages.trans h.numPages, hcache.trans h.buddyCache⟩

/-- The head of a block that has left its list, with flags of `F` before. -/
structure TakenHead (F : HeapFlags → Prop) (d : Desc) (k : Nat) : Prop where
  flags : ∃ f, F f ∧ d.flags = { f with vfree := false }
  numPages : d.numPages = .num (2 ^ k)
  buddyCache : d.buddyCache = .buddies k

theorem TakenHead.live {d : Desc} {k : Nat} (h : TakenHead HeapFlags.IsFree d k) :
    LiveHead d k := by
  obtain ⟨f, rfl, hflags⟩ := h.flags
  exact ⟨hflags, h.numPages, h.buddyCache⟩

section Flagged

variable {F : HeapFlags → Prop} [ListedFlags F] {W : World ω} {s : HeapVars ω}
  {L : Nat → List Nat} (h : Flagged F W s L)
include h

theorem Flagged.splitFirst {k a : Nat} {rest : List Nat} (hfirst : L (k + 1) = a :: rest) :
    ∃ s', splitFirst W s (k + 1) = .ok s' ∧ Flagged F W s' (cutList L k a rest) ∧
      SameData (splitDesc s (descOf W s a) (descOf W s (a + 2 ^ (buddyExponMin + k))) k
        (a + 2 ^ (buddyExponMin + k))) s' := by
  obtain ⟨s', hrun, hblocks, hsame⟩ := h.toFreeBlocks.splitFirst hfirst
  have hmem := mem_first hfirst
  have hcut := mem_cutList hfirst (h.nodup (k + 1))
  have hne : descOf W s a ≠ descOf W s (a + 2 ^ (buddyExponMin + k)) := h.upper_half hfirst hmem
  have hd : descOf W s' = descOf W s := descOf_congr hsame.world
  refine ⟨s', hrun, ⟨hblocks, ?_, ?_, ?_⟩, hsame⟩
  · intro x l hx
    rw [hd, hsame.flags, desc_splitDesc]
    rcases (hcut x l).1 hx with ⟨hx, -⟩ | ⟨rfl, rfl | rfl⟩
    · rw [if_neg (h.upper_half hfirst hx)]
      split
      · exact h.flags hmem
      · exact h.flags hx
    · rw [if_neg hne, if_pos rfl]
      exact h.flags hmem
    · rw [if_pos rfl]
      exact ListedFlags.free
  · intro x l hx
    rw [hd, hsame.buddyCache, desc_splitDesc]
    rcases (hcut x l).1 hx with ⟨hx, hxa⟩ | ⟨rfl, rfl | rfl⟩
    · rw [if_neg (h.upper_half hfirst hx), if_neg]
      · exact h.cache hx
      · intro e
        have hx' := h.head_inj hmem hx e
        exact hxa ⟨hx', h.packing.order_eq (hx' ▸ hx) hmem⟩
    · rw [if_neg hne, if_pos rfl]
    · rw [if_pos rfl]
  · intro i hi
    rw [hd]
    rw [hsame.flags, desc_splitDesc] at hi
    by_cases hnb : i = descOf W s (a + 2 ^ (buddyExponMin + k))
    · exact ⟨a + 2 ^ (buddyExponMin + k), k, (hcut _ k).2 (.inr ⟨rfl, .inr rfl⟩), hnb.symm⟩
    · by_cases hcur : i = descOf W s a
      · exact ⟨a, k, (hcut a k).2 (.inr ⟨rfl, .inl rfl⟩), hcur.symm⟩
      · rw [if_neg hnb, if_neg hcur] at hi
        obtain ⟨x, l, hx, hxi⟩ := h.only i hi
        exact ⟨x, l, (hcut x l).2 (.inl ⟨hx, fun e => hcur (by rw [← hxi, e.1])⟩), hxi⟩

omit [ListedFlags F] in
theorem Flagged.takeFirst {k a : Nat} {rest : List Nat} (hfirst : L k = a :: rest) :
    ∃ s', takeFirst W s k = .ok (s', a) ∧ Flagged F W s' (Function.update L k rest) ∧
      SameData (takeDesc s (descOf W s a)) s' := by
  obtain ⟨s', hrun, hblocks, hsame⟩ := h.toFreeBlocks.takeFirst hfirst
  have hmem := mem_first hfirst
  have htake := mem_tail hfirst (h.nodup k)
  have hd : descOf W s' = descOf W s := descOf_congr hsame.world
  have hne : ∀ {x l}, x ∈ Function.update L k rest l → descOf W s x ≠ descOf W s a := by
    intro x l hx e
    obtain ⟨hx, hxa⟩ := (htake x l).1 hx
    have hx' := h.head_inj hmem hx e
    exact hxa ⟨hx', h.packing.order_eq (hx' ▸ hx) hmem⟩
  refine ⟨s', hrun, ⟨hblocks, ?_, ?_, ?_⟩, hsame⟩
  · intro x l hx
    rw [hd, hsame.flags, desc_takeDesc, if_neg (hne hx)]
    exact h.flags ((htake x l).1 hx).1
  · intro x l hx
    rw [hd, hsame.buddyCache, desc_takeDesc, if_neg (hne hx)]
    exact h.cache ((htake x l).1 hx).1
  · intro i hi
    rw [hd]
    rw [hsame.flags, desc_takeDesc] at hi
    by_cases hcur : i = descOf W s a
    · simp [hcur] at hi
    · rw [if_neg hcur] at hi
      obtain ⟨x, l, hx, hxi⟩ := h.only i hi
      exact ⟨x, l, (htake x l).2 ⟨hx, fun e => hcur (by rw [← hxi, e.1])⟩, hxi⟩

omit [ListedFlags F] in
theorem Flagged.takeFirst_taken {s' : HeapVars ω} {k a : Nat} (ha : a ∈ L k)
    (hsame : SameData (takeDesc s (descOf W s a)) s') :
    TakenHead F (s'.desc (descOf W s a)) k := by
  refine ⟨⟨_, h.flags ha, ?_⟩, ?_, ?_⟩
  · rw [hsame.flags, desc_takeDesc, if_pos rfl]
  · rw [hsame.numPages, desc_takeDesc, if_pos rfl, (h.head ha).numPages]
  · rw [hsame.buddyCache, desc_takeDesc, if_pos rfl, h.cache ha]

theorem Flagged.putBack {k a : Nat} (hlive : LiveHead (s.desc (descOf W s a)) k)
    (hnew : ∀ l, a ∉ L l)
    (hpacking : Packing buddyExponMin (fun x l => x ∈ L l ∨ x = a ∧ l = k) s.minAddr s.curMaxAddr)
    (hk : k ≤ buddyOrderMax) : Flagged F W (putBack W s a k) (Function.update L k (a :: L k)) := by
  have hsame := sameData_putBack W s a k
  have hd : descOf W (Heap.putBack W s a k) = descOf W s := descOf_congr hsame.world
  refine ⟨h.toFreeBlocks.putBack hnew hpacking hk hlive.numPages, ?_, ?_, ?_⟩
  · intro x l hx
    rw [hd, hsame.flags, desc_giveDesc]
    split
    · show F { (s.desc (descOf W s a)).flags with vfree := true }
      rw [hlive.flags]
      exact ListedFlags.free
    · next hne =>
      rcases (mem_push x l).1 hx with hx | ⟨rfl, -⟩
      · exact h.flags hx
      · exact absurd rfl hne
  · intro x l hx
    rw [hd, hsame.buddyCache, desc_giveDesc]
    rcases (mem_push x l).1 hx with hx | ⟨rfl, rfl⟩
    · rw [if_neg (h.new_ne hnew hpacking hx)]
      exact h.cache hx
    · rw [if_pos rfl]
      exact hlive.buddyCache
  · intro i hi
    rw [hd]
    by_cases hcur : i = descOf W s a
    · exact ⟨a, k, (mem_push a k).2 (.inr ⟨rfl, rfl⟩), hcur.symm⟩
    · rw [hsame.flags, desc_giveDesc, if_neg hcur] at hi
      obtain ⟨x, l, hx, hxi⟩ := h.only i hi
      exact ⟨x, l, (mem_push x l).2 (.inl hx), hxi⟩

omit [ListedFlags F] in
theorem Flagged.joinBlocks {k low : Nat} (hlow : low ∈ L k)
    (hhigh : low + 2 ^ (buddyExponMin + k) ∈ L k)
    (haligned : 2 ^ (buddyExponMin + k + 1) ∣ low) :
    ∃ s', joinBlocks s k (descOf W s low) (descOf W s (low + 2 ^ (buddyExponMin + k))) =
        .ok (s', some (descOf W s low)) ∧
      Flagged F W s' (joinList L k low (low + 2 ^ (buddyExponMin + k))) ∧
      SameData (joinDesc s (descOf W s low) (descOf W s (low + 2 ^ (buddyExponMin + k))) k) s' := by
  obtain ⟨s', hrun, hblocks, hsame⟩ := h.toFreeBlocks.joinBlocks hlow hhigh haligned
  have hjoin := mem_joinList low (low + 2 ^ (buddyExponMin + k)) (h.nodup k)
  have hdne := h.halves_ne hlow hhigh
  have hd : descOf W s' = descOf W s := descOf_congr hsame.world
  have hother : ∀ {x l}, x ∈ L l ∧ ¬ (l = k ∧ (x = low ∨ x = low + 2 ^ (buddyExponMin + k))) →
      descOf W s x ≠ descOf W s low ∧
        descOf W s x ≠ descOf W s (low + 2 ^ (buddyExponMin + k)) := by
    intro x l hx
    constructor
    · intro e
      have hxy := h.head_inj hlow hx.1 e
      exact hx.2 ⟨h.packing.order_eq (hxy ▸ hx.1) hlow, .inl hxy⟩
    · intro e
      have hxy := h.head_inj hhigh hx.1 e
      exact hx.2 ⟨h.packing.order_eq (hxy ▸ hx.1) hhigh, .inr hxy⟩
  refine ⟨s', hrun, ⟨hblocks, ?_, ?_, ?_⟩, hsame⟩
  · intro x l hx
    rw [hd, hsame.flags, desc_joinDesc hdne]
    rcases (hjoin x l).1 hx with hx | ⟨rfl, -⟩
    · rw [if_neg (hother hx).1, if_neg (hother hx).2]
      exact h.flags hx.1
    · rw [if_pos rfl]
      exact h.flags hlow
  · intro x l hx
    rw [hd, hsame.buddyCache, desc_joinDesc hdne]
    rcases (hjoin x l).1 hx with hx | ⟨rfl, rfl⟩
    · rw [if_neg (hother hx).1, if_neg (hother hx).2]
      exact h.cache hx.1
    · rw [if_pos rfl]
  · intro i hi
    rw [hd]
    rw [hsame.flags, desc_joinDesc hdne] at hi
    by_cases hilow : i = descOf W s low
    · exact ⟨low, k + 1, (hjoin low (k + 1)).2 (.inr ⟨rfl, rfl⟩), hilow.symm⟩
    · rw [if_neg hilow] at hi
      by_cases hihigh : i = descOf W s (low + 2 ^ (buddyExponMin + k))
      · simp [hihigh] at hi
      · rw [if_neg hihigh] at hi
        obtain ⟨x, l, hx, hxi⟩ := h.only i hi
        refine ⟨x, l, (hjoin x l).2 (.inl ⟨hx, fun e => ?_⟩), hxi⟩
        rcases e.2 with e | e
        · exact hilow (by rw [← hxi, e])
        · exact hihigh (by rw [← hxi, e])

end Flagged

theorem Marked.takeFirst_live {W : World ω} {s s' : HeapVars ω} {L : Nat → List Nat}
    (h : Marked W s L) {k a : Nat} (ha : a ∈ L k)
    (hsame : SameData (takeDesc s (descOf W s a)) s') :
    LiveHead (s'.desc (descOf W s a)) k :=
  (h.takeFirst_taken ha hsame).live

/-! ## Blocks -/

/-- The blocks of a heap: the free ones by order, as the lists have them, and the
live ones. -/
structure Blocks where
  free : Nat → List Nat
  live : Nat → Nat → Prop

def Blocks.block (b : Blocks) (a k : Nat) : Prop := a ∈ b.free k ∨ b.live a k

/-- The head of a free block of order `k` at `a`. -/
structure FreeHead (d : Desc) (a k : Nat) : Prop where
  flags : d.flags = ⟨true, true, true⟩
  numPages : d.numPages = .num (2 ^ k)
  buddyCache : d.buddyCache = .buddies k
  virtAddr : d.virtAddr = a

/-- The heap shows these blocks. -/
structure Shown (W : World ω) (s : HeapVars ω) (b : Blocks) : Prop where
  lists : FreeLists s fun k => (b.free k).map (descOf W s)
  free : ∀ {a k}, a ∈ b.free k → FreeHead (s.desc (descOf W s a)) a k
  live : ∀ {a k}, b.live a k → LiveHead (s.desc (descOf W s a)) k
  only : ∀ i, (s.desc i).flags = ⟨true, true, true⟩ → ∃ a k, a ∈ b.free k ∧ descOf W s a = i
  tiling : Tiling buddyExponMin b.block s.minAddr s.curMaxAddr
  order : ∀ {a k}, b.block a k → k ≤ buddyOrderMax
  bound : s.curMaxAddr < 2 ^ 32
  inj : ∀ {p q}, s.minAddr ≤ p * pageSize → p * pageSize < s.curMaxAddr →
    s.minAddr ≤ q * pageSize → q * pageSize < s.curMaxAddr →
    W.descOf s.world p = W.descOf s.world q → p = q

/-- The heap shows these blocks, and no other page has the frame of one of its pages. -/
structure Rep (W : World ω) (s : HeapVars ω) (b : Blocks) : Prop extends Shown W s b where
  alone : ∀ {p q}, s.minAddr ≤ p * pageSize → p * pageSize < s.curMaxAddr →
    W.descOf s.world p = W.descOf s.world q → p = q

/-- No two free blocks are buddies. -/
def NoPair (b : Blocks) : Prop :=
  ∀ {a k}, a ∈ b.free k → buddy buddyExponMin a k ∉ b.free k

/-- Two free blocks that are buddies are `c` and another one. -/
def Loose (b : Blocks) (c : Nat) : Prop :=
  ∀ {a k}, a ∈ b.free k → buddy buddyExponMin a k ∈ b.free k →
    a = c ∨ buddy buddyExponMin a k = c

/-- A well-formed heap and its blocks. -/
structure WellFormed (W : World ω) (s : HeapVars ω) (b : Blocks) : Prop extends Rep W s b where
  noPair : NoPair b

theorem Rep.marked {W : World ω} {s : HeapVars ω} {b : Blocks} (h : Rep W s b) :
    Marked W s b.free where
  lists := h.lists
  head ha := ⟨(h.free ha).numPages, (h.free ha).virtAddr⟩
  packing := h.tiling.packing.mono fun _ _ => .inl
  order ha := h.order (.inl ha)
  bound := h.bound
  inj := h.inj
  flags ha := (h.free ha).flags
  cache ha := (h.free ha).buddyCache
  only := h.only

theorem Rep.update {W : World ω} {s s' : HeapVars ω} {b b' : Blocks} (h : Rep W s b)
    (hmarked : Marked W s' b'.free) (hworld : s'.world = s.world)
    (hmin : s'.minAddr = s.minAddr) (hmax : s'.curMaxAddr = s.curMaxAddr)
    (hlive : ∀ {a k}, b'.live a k → LiveHead (s'.desc (descOf W s a)) k)
    (htiling : Tiling buddyExponMin b'.block s.minAddr s.curMaxAddr)
    (horder : ∀ {a k}, b'.live a k → k ≤ buddyOrderMax) : Rep W s' b' where
  lists := hmarked.lists
  free ha := ⟨hmarked.flags ha, (hmarked.head ha).numPages, hmarked.cache ha,
    (hmarked.head ha).virtAddr⟩
  live := by rw [descOf_congr hworld]; exact hlive
  only := hmarked.only
  tiling := by rw [hmin, hmax]; exact htiling
  order hb := hb.elim hmarked.order horder
  bound := hmarked.bound
  inj := hmarked.inj
  alone := by rw [hmin, hmax, hworld]; exact h.alone

section Rep

variable {W : World ω} {s : HeapVars ω} {b : Blocks} (h : Rep W s b)
include h

theorem Rep.page_aligned {a k : Nat} (ha : b.block a k) : a / pageSize * pageSize = a :=
  page_of_dvd (h.tiling.aligned ha)

theorem Rep.desc_inj {a k x : Nat} (ha : b.block a k) (hx : x / pageSize * pageSize = x)
    (he : descOf W s x = descOf W s a) : x = a := by
  have hpage := h.page_aligned ha
  obtain ⟨hlo, hhi⟩ := h.tiling.inside ha
  have hpos := Nat.two_pow_pos (buddyExponMin + k)
  have hp : a / pageSize = x / pageSize := h.alone (by omega) (by omega) he.symm
  rw [← hpage, ← hx, hp]

theorem Rep.nodup (k : Nat) : (b.free k).Nodup := h.marked.nodup k

theorem Rep.not_live {a k l : Nat} (ha : a ∈ b.free k) : ¬ b.live a l := by
  intro hl
  have h₁ := (h.free ha).flags
  rw [(h.live hl).flags] at h₁
  cases h₁

theorem Rep.live_ne {a k x l : Nat} (ha : a ∈ b.free k) (hx : b.live x l) :
    descOf W s x ≠ descOf W s a := by
  intro e
  have hxa := h.desc_inj (.inl ha) (h.page_aligned (.inr hx)) e
  exact h.not_live ha (hxa ▸ hx)

end Rep

/-! ## Splitting -/

/-- The blocks after the first free block of order `k + 1`, at `a`, was cut. -/
def Blocks.split (b : Blocks) (k a : Nat) (rest : List Nat) : Blocks where
  free := Function.update (Function.update b.free (k + 1) rest) k
    ((a + 2 ^ (buddyExponMin + k)) :: a :: b.free k)
  live := b.live

theorem Blocks.mem_split {b : Blocks} {k a : Nat} {rest : List Nat}
    (hfirst : b.free (k + 1) = a :: rest) (hn : (b.free (k + 1)).Nodup) (x l : Nat) :
    x ∈ (b.split k a rest).free l ↔
      (x ∈ b.free l ∧ ¬ (x = a ∧ l = k + 1)) ∨ l = k ∧ (x = a ∨ x = a + 2 ^ (buddyExponMin + k)) :=
  mem_cutList hfirst hn x l

theorem Rep.splitFirst {W : World ω} {s : HeapVars ω} {b : Blocks} (h : Rep W s b) {k a : Nat}
    {rest : List Nat} (hfirst : b.free (k + 1) = a :: rest) :
    ∃ s', splitFirst W s (k + 1) = .ok s' ∧ Rep W s' (b.split k a rest) ∧ s'.world = s.world := by
  obtain ⟨s', hrun, hmarked, hsame⟩ := h.marked.splitFirst hfirst
  have hmem := mem_first hfirst
  have hsplit := Blocks.mem_split hfirst (h.nodup (k + 1))
  refine ⟨s', hrun, h.update hmarked hsame.world hsame.minAddr hsame.curMaxAddr ?_ ?_
    fun hx => h.order (.inr hx), hsame.world⟩
  · intro x l hx
    -- the upper half is inside the block, and so the head of no live block
    have hnb : descOf W s x ≠ descOf W s (a + 2 ^ (buddyExponMin + k)) := by
      intro e
      have hdvd : 2 ^ (buddyExponMin + k) ∣ a :=
        Dvd.dvd.trans ⟨2, by ring⟩ (h.tiling.aligned (.inl hmem))
      have hxa := h.desc_inj (.inr hx)
        (page_of_dvd (k := k) (Nat.dvd_add hdvd (Nat.dvd_refl _))) e.symm
      have hpos := Nat.two_pow_pos (buddyExponMin + k)
      have hpos' := Nat.two_pow_pos (buddyExponMin + l)
      have hdouble : 2 ^ (buddyExponMin + (k + 1)) = 2 * 2 ^ (buddyExponMin + k) := by ring
      have := (h.tiling.apart x (.inl hmem) (.inr hx) (by omega) (by omega) (Nat.le_refl _)
        (by omega)).1
      omega
    have hcur := h.live_ne hmem hx
    apply (h.live hx).congr
    · rw [hsame.flags, desc_splitDesc, if_neg hnb, if_neg hcur]
    · rw [hsame.numPages, desc_splitDesc, if_neg hnb, if_neg hcur]
    · rw [hsame.buddyCache, desc_splitDesc, if_neg hnb, if_neg hcur]
  · apply h.tiling.split (.inl hmem)
    intro x l
    have hlive : b.live x l → ¬ (x = a ∧ l = k + 1) := by
      intro hx e
      exact h.not_live hmem (e.1 ▸ hx)
    simp only [Blocks.block, hsplit]
    constructor
    · intro hx
      rcases hx with (hx | hx) | hx
      · exact .inl ⟨.inl hx.1, hx.2⟩
      · exact .inr hx
      · exact .inl ⟨.inr hx, hlive hx⟩
    · intro hx
      rcases hx with ⟨hx | hx, hne⟩ | hx
      · exact .inl (.inl ⟨hx, hne⟩)
      · exact .inr hx
      · exact .inl (.inr hx)

/-- The pair that a cut makes is the only one, and its upper half is first. -/
theorem Loose.split {W : World ω} {s : HeapVars ω} {b : Blocks} (h : Rep W s b) {k a : Nat}
    {rest : List Nat} (hfirst : b.free (k + 1) = a :: rest) (hloose : Loose b a) :
    Loose (b.split k a rest) (a + 2 ^ (buddyExponMin + k)) := by
  have hmem := mem_first hfirst
  have hsplit := Blocks.mem_split hfirst (h.nodup (k + 1))
  have hlow : buddy buddyExponMin a k = a + 2 ^ (buddyExponMin + k) :=
    buddy_low (h.tiling.aligned (.inl hmem))
  intro x l hx hbx
  rcases (hsplit x l).1 hx with ⟨hx', hxa⟩ | ⟨rfl, rfl | rfl⟩
  · rcases (hsplit _ l).1 hbx with ⟨hbx', hbxa⟩ | ⟨rfl, he | he⟩
    · -- a pair of before would contain `a`, which is of order `k + 1`
      rcases hloose hx' hbx' with he | he
      · rw [he] at hx'
        exact absurd ⟨he, h.tiling.order_eq (.inl hx') (.inl hmem)⟩ hxa
      · rw [he] at hbx'
        exact absurd ⟨he, h.tiling.order_eq (.inl hbx') (.inl hmem)⟩ hbxa
    · left
      rw [← hlow, ← he, buddy_buddy]
    · exact .inr he
  · exact .inr hlow
  · exact .inl rfl

/-- The loop: some block of order `k`, from inside the block it started with, is
the first of its list in the end. -/
theorem Rep.splitDown {W : World ω} {k : Nat} : ∀ (n : Nat) {s : HeapVars ω} {b : Blocks} {a : Nat}
    {rest : List Nat}, Rep W s b → b.free (k + n) = a :: rest → Loose b a →
    ∃ s' b' a' rest', splitDown W n s (k + n) = .ok s' ∧ Rep W s' b' ∧ b'.free k = a' :: rest' ∧
      Loose b' a' ∧ b'.live = b.live ∧ a ≤ a' ∧
      a' + 2 ^ (buddyExponMin + k) ≤ a + 2 ^ (buddyExponMin + (k + n)) ∧ s'.world = s.world := by
  intro n s b a rest h hfirst hloose
  obtain ⟨s', b', a', rest', hrun, ⟨h', hloose'⟩, hfirst', hlive, hlo, hhi, hworld⟩ :=
    splitDown_rule (k := k) (F := Blocks.free) (I := fun s b a => Rep W s b ∧ Loose b a)
      (R := fun n s b a s' b' a' => b'.live = b.live ∧ a ≤ a' ∧
        a' + 2 ^ (buddyExponMin + k) ≤ a + 2 ^ (buddyExponMin + (k + n)) ∧ s'.world = s.world)
      (fun _ => ⟨rfl, Nat.le_refl _, Nat.le_refl _, rfl⟩) (by
        rintro n s b a rest ⟨h, hloose⟩ hfirst
        obtain ⟨s₁, hrun₁, h₁, hworld₁⟩ := h.splitFirst hfirst
        have hfirst₁ : (b.split (k + n) a rest).free (k + n) =
            (a + 2 ^ (buddyExponMin + (k + n))) :: a :: b.free (k + n) := by
          simp [Blocks.split]
        refine ⟨s₁, _, _, _, hrun₁, ⟨h₁, Loose.split h hfirst hloose⟩, hfirst₁, ?_⟩
        rintro s₂ b₂ a₂ ⟨hlive₂, hlo, hhi, hworld₂⟩
        have hdouble : 2 ^ (buddyExponMin + (k + (n + 1))) = 2 * 2 ^ (buddyExponMin + (k + n)) :=
          by ring
        exact ⟨hlive₂, by omega, by omega, hworld₂.trans hworld₁⟩) n ⟨h, hloose⟩ hfirst
  exact ⟨s', b', a', rest', hrun, h', hfirst', hloose', hlive, hlo, hhi, hworld⟩

/-! ## Handing out -/

/-- The blocks after the first free block of order `k` was handed out. -/
def Blocks.take (b : Blocks) (k a : Nat) (rest : List Nat) : Blocks where
  free := Function.update b.free k rest
  live x l := b.live x l ∨ x = a ∧ l = k

theorem Blocks.mem_take {b : Blocks} {k a : Nat} {rest : List Nat} (hfirst : b.free k = a :: rest)
    (hn : (b.free k).Nodup) (x l : Nat) :
    x ∈ (b.take k a rest).free l ↔ x ∈ b.free l ∧ ¬ (x = a ∧ l = k) :=
  mem_tail hfirst hn x l

theorem Loose.take {W : World ω} {s : HeapVars ω} {b : Blocks} (h : Rep W s b) {k a : Nat}
    {rest : List Nat} (hfirst : b.free k = a :: rest) (hloose : Loose b a) :
    NoPair (b.take k a rest) := by
  have htake := Blocks.mem_take hfirst (h.nodup k)
  have hmem := mem_first hfirst
  intro x l hx hbx
  obtain ⟨hx', hxa⟩ := (htake x l).1 hx
  obtain ⟨hbx', hbxa⟩ := (htake _ l).1 hbx
  rcases hloose hx' hbx' with he | he
  · rw [he] at hx'
    exact hxa ⟨he, h.tiling.order_eq (.inl hx') (.inl hmem)⟩
  · rw [he] at hbx'
    exact hbxa ⟨he, h.tiling.order_eq (.inl hbx') (.inl hmem)⟩

theorem Rep.takeFirst {W : World ω} {s : HeapVars ω} {b : Blocks} (h : Rep W s b) {k a : Nat}
    {rest : List Nat} (hfirst : b.free k = a :: rest) :
    ∃ s', takeFirst W s k = .ok (s', a) ∧ Rep W s' (b.take k a rest) ∧ s'.world = s.world := by
  obtain ⟨s', hrun, hmarked, hsame⟩ := h.marked.takeFirst hfirst
  have hmem := mem_first hfirst
  have htake := Blocks.mem_take hfirst (h.nodup k)
  refine ⟨s', hrun, h.update hmarked hsame.world hsame.minAddr hsame.curMaxAddr ?_ ?_ ?_,
    hsame.world⟩
  · intro x l hx
    rcases hx with hx | ⟨rfl, rfl⟩
    · have hne := h.live_ne hmem hx
      apply (h.live hx).congr
      · rw [hsame.flags, desc_takeDesc, if_neg hne]
      · rw [hsame.numPages, desc_takeDesc, if_neg hne]
      · rw [hsame.buddyCache, desc_takeDesc, if_neg hne]
    · exact h.marked.takeFirst_live hmem hsame
  · apply h.tiling.congr
    intro x l
    simp only [Blocks.block, htake]
    have hcase : x = a ∧ l = k → x ∈ b.free l := by
      intro e
      rw [e.1, e.2]
      exact hmem
    simp only [Blocks.take]
    tauto
  · intro x l hx
    rcases hx with hx | ⟨rfl, rfl⟩
    · exact h.order (.inr hx)
    · exact h.order (.inl hmem)

/-! ## Giving back -/

/-- The blocks after the live block at `a` came back. -/
def Blocks.release (b : Blocks) (k a : Nat) : Blocks where
  free := Function.update b.free k (a :: b.free k)
  live x l := b.live x l ∧ x ≠ a

theorem Blocks.mem_release {b : Blocks} {k a : Nat} (x l : Nat) :
    x ∈ (b.release k a).free l ↔ x ∈ b.free l ∨ x = a ∧ l = k :=
  mem_push x l

theorem NoPair.release {b : Blocks} (hb : NoPair b) (k a : Nat) :
    Loose (b.release k a) a := by
  intro x l hx hbx
  rcases (Blocks.mem_release x l).1 hx with hx | ⟨rfl, -⟩
  · rcases (Blocks.mem_release _ l).1 hbx with hbx | ⟨he, -⟩
    · exact absurd hbx (hb hx)
    · exact .inr he
  · exact .inl rfl

theorem and_pred_two_pow {k : Nat} (hk : k ≤ buddyOrderMax) :
    2 ^ k &&& sub32 (2 ^ k) 1 = 0 := by
  have hpos := Nat.two_pow_pos k
  have hlt : 2 ^ k < 2 ^ 32 := Nat.pow_lt_pow_right (by decide) (lt_of_le_of_lt hk (by decide))
  rw [sub32_of_le hlt hpos, Nat.and_two_pow_sub_one_eq_mod, Nat.mod_self]

theorem LiveHead.freeBuddy_eq {W : World ω} {s : HeapVars ω} {a k : Nat}
    (hlive : LiveHead (s.desc (descOf W s a)) k) (hpage : a / pageSize * pageSize = a)
    (hk : k ≤ buddyOrderMax) :
    freeBuddy W s a = mergeUpwards W (buddyOrderMax + 2) (putBack W s a k) (descOf W s a) k := by
  have haligned : a % pageSize = 0 := by
    rw [← hpage]
    exact Nat.mul_mod_left _ _
  have hand := and_pred_two_pow hk
  simp only [freeBuddy, assert, haligned, hlive.flags, hlive.numPages, hlive.buddyCache, Word.nat,
    ok_bind, hand, Nat.two_pow_pos, log2U32, Nat.log2_two_pow, decide_true, Bool.not_false, if_true,
    gt_iff_lt]
  rfl

theorem Rep.putBack {W : World ω} {s : HeapVars ω} {b : Blocks} (h : Rep W s b) {k a : Nat}
    (ha : b.live a k) : Rep W (putBack W s a k) (b.release k a) := by
  have hblock : b.block a k := .inr ha
  have hsame := sameData_putBack W s a k
  have hpacking : Packing buddyExponMin (fun x l => x ∈ b.free l ∨ x = a ∧ l = k) s.minAddr
      s.curMaxAddr := by
    refine h.tiling.packing.mono fun x l hx => hx.imp_right fun e => ?_
    rw [e.1, e.2]
    exact ha
  refine h.update (h.marked.putBack (h.live ha) (fun l hl => h.not_live hl ha) hpacking
    (h.order hblock)) hsame.world hsame.minAddr hsame.curMaxAddr ?_ ?_
    fun hx => h.order (.inr hx.1)
  · intro x l hx
    have hne : descOf W s x ≠ descOf W s a :=
      fun e => hx.2 (h.desc_inj hblock (h.page_aligned (.inr hx.1)) e)
    apply (h.live hx.1).congr
    · rw [hsame.flags, desc_giveDesc, if_neg hne]
    · rw [hsame.numPages, desc_giveDesc, if_neg hne]
    · rw [hsame.buddyCache, desc_giveDesc, if_neg hne]
  · apply h.tiling.congr
    intro x l
    have hlk : b.live x l → x = a → l = k := by
      intro hx e
      exact h.tiling.order_eq (.inr (e ▸ hx)) hblock
    have hak : x = a ∧ l = k → b.live x l := by
      intro e
      rw [e.1, e.2]
      exact ha
    simp only [Blocks.block, Blocks.mem_release]
    simp only [Blocks.release]
    by_cases hxa : x = a <;> tauto

/-! ## Joining -/

/-- The blocks after the free blocks of order `k` at `low` and `high` were joined. -/
def Blocks.join (b : Blocks) (k low high : Nat) : Blocks where
  free := Function.update (Function.update b.free k (((b.free k).erase low).erase high)) (k + 1)
    (low :: b.free (k + 1))
  live := b.live

theorem Blocks.mem_join {b : Blocks} {k : Nat} (low high : Nat) (hn : (b.free k).Nodup)
    (x l : Nat) :
    x ∈ (b.join k low high).free l ↔
      (x ∈ b.free l ∧ ¬ (l = k ∧ (x = low ∨ x = high))) ∨ x = low ∧ l = k + 1 :=
  mem_joinList low high hn x l

/-- Only the joined block can still have a free buddy. -/
theorem Loose.join {W : World ω} {s : HeapVars ω} {b : Blocks} (h : Rep W s b) {k low high a : Nat}
    (ha : a ∈ b.free k) (hcase : a = low ∨ a = high) (hloose : Loose b a) :
    Loose (b.join k low high) low := by
  have hjoin := Blocks.mem_join low high (h.nodup k)
  intro x l hx hbx
  rcases (hjoin x l).1 hx with ⟨hx', hxk⟩ | ⟨he, -⟩
  · rcases (hjoin _ l).1 hbx with ⟨hbx', hbxk⟩ | ⟨he, -⟩
    · rcases hloose hx' hbx' with he | he
      · rw [he] at hx' hxk
        exact absurd ⟨h.tiling.order_eq (.inl hx') (.inl ha), hcase⟩ hxk
      · rw [he] at hbx' hbxk
        exact absurd ⟨h.tiling.order_eq (.inl hbx') (.inl ha), hcase⟩ hbxk
    · exact .inr he
  · exact .inl he

/-- Where the buddy of `a` is not free, no two free blocks are buddies. -/
theorem Loose.noPair {W : World ω} {s : HeapVars ω} {b : Blocks} (h : Rep W s b) {k a : Nat}
    (ha : a ∈ b.free k) (hloose : Loose b a) (hbuddy : buddy buddyExponMin a k ∉ b.free k) :
    NoPair b := by
  intro x l hx hbx
  rcases hloose hx hbx with rfl | he
  · obtain rfl := h.tiling.order_eq (.inl hx) (.inl ha)
    exact hbuddy hbx
  · rw [he] at hbx
    obtain rfl := h.tiling.order_eq (.inl hbx) (.inl ha)
    rw [← he, buddy_buddy] at hbuddy
    exact hbuddy hx

theorem Rep.joined {W : World ω} {s s' : HeapVars ω} {b : Blocks} (h : Rep W s b) {k low : Nat}
    (hlow : low ∈ b.free k) (hhigh : low + 2 ^ (buddyExponMin + k) ∈ b.free k)
    (haligned : 2 ^ (buddyExponMin + k + 1) ∣ low)
    (hmarked : Marked W s' (joinList b.free k low (low + 2 ^ (buddyExponMin + k))))
    (hsame : SameData (joinDesc s (descOf W s low) (descOf W s (low + 2 ^ (buddyExponMin + k))) k)
      s') : Rep W s' (b.join k low (low + 2 ^ (buddyExponMin + k))) := by
  have hjoin := Blocks.mem_join low (low + 2 ^ (buddyExponMin + k)) (h.nodup k)
  have hdne := h.marked.halves_ne hlow hhigh
  refine h.update hmarked hsame.world hsame.minAddr hsame.curMaxAddr ?_ ?_
    fun hx => h.order (.inr hx)
  · intro x l hx
    have hx₁ := h.live_ne hlow hx
    have hx₂ := h.live_ne hhigh hx
    apply (h.live hx).congr
    · rw [hsame.flags, desc_joinDesc hdne, if_neg hx₁, if_neg hx₂]
    · rw [hsame.numPages, desc_joinDesc hdne, if_neg hx₁, if_neg hx₂]
    · rw [hsame.buddyCache, desc_joinDesc hdne, if_neg hx₁, if_neg hx₂]
  · apply h.tiling.merge (.inl hlow) (.inl hhigh) haligned
    intro x l
    have hlive : b.live x l → ¬ (l = k ∧ (x = low ∨ x = low + 2 ^ (buddyExponMin + k))) := by
      intro hx e
      rcases e.2 with rfl | rfl
      · exact h.not_live hlow hx
      · exact h.not_live hhigh hx
    simp only [Blocks.block, hjoin]
    constructor
    · intro hx
      rcases hx with (hx | hx) | hx
      · exact .inl ⟨.inl hx.1, hx.2⟩
      · exact .inr hx
      · exact .inl ⟨.inr hx, hlive hx⟩
    · intro hx
      rcases hx with ⟨hx | hx, hxk⟩ | hx
      · exact .inl (.inl ⟨hx, hxk⟩)
      · exact .inr hx
      · exact .inl (.inr hx)

/-- The test of `resolve_merge`: the descriptor found by flipping a bit of the address
shows the head of a free block of the same size. -/
def Mergeable (W : World ω) (s : HeapVars ω) (a k : Nat) : Prop :=
  (s.desc (descOf W s (buddy buddyExponMin a k))).flags = ⟨true, true, true⟩ ∧
    (s.desc (descOf W s (buddy buddyExponMin a k))).numPages = (s.desc (descOf W s a)).numPages

theorem Flagged.resolveMerge_none {F : HeapFlags → Prop} {W : World ω} {s : HeapVars ω}
    {L : Nat → List Nat} (h : Flagged F W s L) {k a : Nat} (ha : a ∈ L k)
    (hno : ¬ Mergeable W s a k) :
    resolveMerge W s (descOf W s a) k = .ok (s, none) := by
  have hva : a ^^^ 2 ^ (k + buddyExponMin) = buddy buddyExponMin a k := by
    rw [Nat.add_comm k]
    rfl
  simp only [Heap.resolveMerge, (h.head ha).virtAddr, hva]
  exact if_pos (not_and_or.1 hno)

theorem Marked.mergeable {W : World ω} {s : HeapVars ω} {L : Nat → List Nat} (h : Marked W s L)
    {k a : Nat} (ha : a ∈ L k) (hbuddy : buddy buddyExponMin a k ∈ L k) : Mergeable W s a k :=
  ⟨h.flags hbuddy, (h.head hbuddy).numPages.trans (h.head ha).numPages.symm⟩

theorem Flagged.resolveMerge_some {F : HeapFlags → Prop} {W : World ω}
    {s : HeapVars ω} {L : Nat → List Nat} (h : Flagged F W s L) {k a : Nat} (ha : a ∈ L k)
    (hbuddy : buddy buddyExponMin a k ∈ L k) (hmerge : Mergeable W s a k) :
    ∃ s' low, (a = low ∨ a = low + 2 ^ (buddyExponMin + k)) ∧ low ∈ L k ∧
      low + 2 ^ (buddyExponMin + k) ∈ L k ∧ 2 ^ (buddyExponMin + k + 1) ∣ low ∧
      resolveMerge W s (descOf W s a) k = .ok (s', some (descOf W s low)) ∧
      Flagged F W s' (joinList L k low (low + 2 ^ (buddyExponMin + k))) ∧
      SameData (joinDesc s (descOf W s low) (descOf W s (low + 2 ^ (buddyExponMin + k))) k) s' := by
  have hhead := h.head ha
  have hva : a ^^^ 2 ^ (k + buddyExponMin) = buddy buddyExponMin a k := by
    rw [Nat.add_comm k]
    rfl
  have hfound : ¬ ((s.desc (descOf W s (buddy buddyExponMin a k))).flags ≠ ⟨true, true, true⟩ ∨
      (s.desc (descOf W s (buddy buddyExponMin a k))).numPages ≠
        (s.desc (descOf W s a)).numPages) := by
    rw [hmerge.1, hmerge.2]
    simp
  by_cases heven : 2 ^ (buddyExponMin + k + 1) ∣ a
  · -- the block is the lower one
    have hlow := buddy_low heven
    have hmin : ¬ min (buddy buddyExponMin a k) a = buddy buddyExponMin a k := by
      have := Nat.two_pow_pos (buddyExponMin + k)
      omega
    have hhigh : a + 2 ^ (buddyExponMin + k) ∈ L k := by rw [← hlow]; exact hbuddy
    obtain ⟨s', hrun, hmarked, hsame⟩ := h.joinBlocks ha hhigh heven
    refine ⟨s', a, .inl rfl, ha, hhigh, heven, ?_, hmarked, hsame⟩
    simp only [Heap.resolveMerge, hhead.virtAddr, hva, if_neg hfound, if_neg hmin]
    rw [hlow]
    exact hrun
  · obtain ⟨low, hhigh, hlow, heven'⟩ := buddy_high (h.packing.aligned ha) heven
    have hmin : min (buddy buddyExponMin a k) a = buddy buddyExponMin a k := by omega
    rw [hlow] at hbuddy hfound
    have ha' := ha
    rw [hhigh] at ha'
    obtain ⟨s', hrun, hmarked, hsame⟩ := h.joinBlocks hbuddy ha' heven'
    refine ⟨s', low, .inr hhigh, hbuddy, ha', heven', ?_, hmarked, hsame⟩
    simp only [Heap.resolveMerge, hhead.virtAddr, hva, if_pos hmin]
    rw [hlow, if_neg hfound, hhigh]
    exact hrun

/-- A block that passes the test has a free buddy: all three flags show the head of a
free block, and no page outside the heap has such a descriptor. -/
theorem Rep.free_of_mergeable {W : World ω} {s : HeapVars ω} {b : Blocks} (h : Rep W s b)
    {k a : Nat} (ha : a ∈ b.free k) (hmerge : Mergeable W s a k) :
    buddy buddyExponMin a k ∈ b.free k := by
  obtain ⟨hflags, hsize⟩ := hmerge
  obtain ⟨x, l, hx, hxi⟩ := h.only _ hflags
  have hxb := h.desc_inj (.inl hx) (page_of_dvd (dvd_buddy (h.tiling.aligned (.inl ha)))) hxi.symm
  rw [← hxi, (h.free hx).numPages, (h.free ha).numPages] at hsize
  have hkl : l = k := Nat.pow_right_injective (Nat.le_refl 2) (Word.num.inj hsize)
  rw [hxb]
  exact hkl ▸ hx

/-- `merge_upwards` ends with no two free buddies. -/
theorem Rep.mergeUpwards {W : World ω} : ∀ (fuel : Nat) {s : HeapVars ω} {b : Blocks} {k a : Nat},
    Rep W s b → a ∈ b.free k → Loose b a → buddyOrderMax + 1 ≤ fuel + k →
    ∃ s' b', mergeUpwards W fuel s (descOf W s a) k = .ok s' ∧ WellFormed W s' b' ∧
      b'.live = b.live ∧ s'.world = s.world := by
  intro fuel
  induction fuel with
  | zero =>
    intro s b k a h ha _ hfuel
    have := h.order (.inl ha)
    omega
  | succ fuel ih =>
    intro s b k a h ha hloose hfuel
    by_cases hbuddy : buddy buddyExponMin a k ∈ b.free k
    · obtain ⟨s₁, low, hcase, hlow, hhigh, haligned, hrun, hmarked, hsame⟩ :=
        h.marked.resolveMerge_some ha hbuddy (h.marked.mergeable ha hbuddy)
      have h₁ := h.joined hlow hhigh haligned hmarked hsame
      have hworld₁ : s₁.world = s.world := hsame.world
      have hk := h.marked.join_order hhigh
      obtain ⟨s₂, b₂, hrun₂, hwf, hlive, hworld₂⟩ := ih h₁
        ((Blocks.mem_join _ _ (h.nodup k) _ _).2 (.inr ⟨rfl, rfl⟩))
        (Loose.join h ha hcase hloose) (by omega)
      refine ⟨s₂, b₂, ?_, hwf, hlive, hworld₂.trans hworld₁⟩
      rw [Heap.mergeUpwards, hrun]
      simp only [ok_bind]
      rw [← descOf_congr hworld₁]
      exact hrun₂
    · have hrun := h.marked.resolveMerge_none ha fun hmerge => hbuddy
        (h.free_of_mergeable ha hmerge)
      refine ⟨s, b, ?_, ⟨h, Loose.noPair h ha hloose hbuddy⟩, rfl, rfl⟩
      simp [Heap.mergeUpwards, hrun]

/-! ## The two calls -/

theorem WellFormed.allocBuddy {W : World ω} {s : HeapVars ω} {b : Blocks} (h : WellFormed W s b)
    {k : Nat} (hserved : Served s k) (fuel : Nat) :
    ∃ s' b' a, allocBuddy W (fuel + 1) s (2 ^ (buddyExponMin + k)) = .ok (s', a) ∧
      WellFormed W s' b' ∧ (∀ x l, b'.live x l ↔ b.live x l ∨ x = a ∧ l = k) ∧
      (∃ c j, c ∈ b.free j ∧ c ≤ a ∧
        a + 2 ^ (buddyExponMin + k) ≤ c + 2 ^ (buddyExponMin + j)) ∧
      (∀ l, a ∉ b'.free l) ∧ s'.world = s.world := by
  obtain ⟨n, c, rest, hle, hfirst, hrun⟩ := h.toRep.marked.allocBuddy_eq hserved fuel
  have hnone : Loose b c := fun hx hbx => absurd hbx (h.noPair hx)
  obtain ⟨s₁, b₁, a, rest₁, hrun₁, h₁, hfirst₁, hloose₁, hlive₁, hlo, hhi, hworld₁⟩ :=
    Rep.splitDown n h.toRep hfirst hnone
  obtain ⟨s₂, hrun₂, h₂, hworld₂⟩ := h₁.takeFirst hfirst₁
  refine ⟨s₂, b₁.take k a rest₁, a, ?_, ⟨h₂, Loose.take h₁ hfirst₁ hloose₁⟩, ?_,
    ⟨c, k + n, mem_first hfirst, hlo, hhi⟩, ?_, hworld₂.trans hworld₁⟩
  · rw [hrun, hrun₁, ok_bind, hrun₂]
  · intro x l
    rw [← hlive₁]
    rfl
  · intro l hl
    obtain ⟨hl, hne⟩ := (Blocks.mem_take hfirst₁ (h₁.nodup k) a l).1 hl
    exact hne ⟨rfl, h₁.tiling.order_eq (.inl hl) (.inl (mem_first hfirst₁))⟩

theorem WellFormed.freeBuddy {W : World ω} {s : HeapVars ω} {b : Blocks} (h : WellFormed W s b)
    {a k : Nat} (ha : b.live a k) :
    ∃ s' b', freeBuddy W s a = .ok s' ∧ WellFormed W s' b' ∧
      (∀ x l, b'.live x l ↔ b.live x l ∧ x ≠ a) ∧ s'.world = s.world := by
  have hput := h.toRep.putBack ha
  have hworld : (putBack W s a k).world = s.world := (sameData_putBack W s a k).world
  have hmem : a ∈ (b.release k a).free k := (Blocks.mem_release a k).2 (.inr ⟨rfl, rfl⟩)
  obtain ⟨s', b', hrun, hwf, hlive, hworld'⟩ := Rep.mergeUpwards (buddyOrderMax + 2) hput hmem
    (NoPair.release h.noPair k a) (by omega)
  refine ⟨s', b', ?_, hwf, ?_, hworld'.trans hworld⟩
  · rw [(h.live ha).freeBuddy_eq (h.toRep.page_aligned (.inr ha)) (h.order (.inr ha)),
      ← descOf_congr hworld]
    exact hrun
  · intro x l
    rw [hlive]
    rfl

/-- Every call of the buddy allocator on a well-formed heap returns and leaves it
well formed: an allocation that some list can serve hands out one block, which was
free and is in no list any more, and a live block that is given back becomes free. -/
theorem buddy_wellFormed {W : World ω} {s : HeapVars ω} {b : Blocks} (h : WellFormed W s b) :
    (∀ k fuel, Served s k →
      ∃ s' b' a, allocBuddy W (fuel + 1) s (2 ^ (buddyExponMin + k)) = .ok (s', a) ∧
        WellFormed W s' b' ∧ (∀ x l, b'.live x l ↔ b.live x l ∨ x = a ∧ l = k) ∧
        (∃ c j, c ∈ b.free j ∧ c ≤ a ∧
          a + 2 ^ (buddyExponMin + k) ≤ c + 2 ^ (buddyExponMin + j)) ∧
        ∀ l, a ∉ b'.free l) ∧
    (∀ a k, b.live a k →
      ∃ s' b', freeBuddy W s a = .ok s' ∧ WellFormed W s' b' ∧
        ∀ x l, b'.live x l ↔ b.live x l ∧ x ≠ a) := by
  constructor
  · intro k fuel hserved
    obtain ⟨s', b', a, hrun, hwf, hlive, hfree, hgone, -⟩ := h.allocBuddy hserved fuel
    exact ⟨s', b', a, hrun, hwf, hlive, hfree, hgone⟩
  · intro a k ha
    obtain ⟨s', b', hrun, hwf, hlive, -⟩ := h.freeBuddy ha
    exact ⟨s', b', hrun, hwf, hlive⟩

/-- Pages 2 and 3 have the frames of their numbers, other pages have none. -/
def twoPageWorld : World Unit where
  descOf _ p := if p = 2 ∨ p = 3 then p else 0
  mmAllocPages _ _ := .error .abort
  pfnToPa _ _ := 0
  pagingMapPages _ _ _ _ _ := .error .abort
  markRegion _ _ _ _ := .error .abort

/-- A heap of two pages, the first one free and the second one live. -/
def twoPageHeap : HeapVars Unit where
  world := ()
  desc i := {
    flags := ⟨i = 2, i = 2 ∨ i = 3, i = 2 ∨ i = 3⟩
    numPages := .num 1
    virtAddr := i * pageSize
    buddyOrder := .num 0
    prevFree := .num 0
    nextFree := .num 0
    buddyCache := .buddies 0 }
  mem _ := .num 0
  freeBuddies k := if k = 0 then some 2 else none
  slabs _ := ⟨0, 0, 0, none⟩
  intervalCache := 0
  minAddr := 0x2000
  curMaxAddr := 0x4000
  reservedMaxAddr := 0x4000
  curSize := 0x2000
  reservedMaxSize := 0x2000

def twoPageBlocks : Blocks where
  free k := if k = 0 then [0x2000] else []
  live a k := a = 0x3000 ∧ k = 0

theorem mem_twoPageBlocks {a k : Nat} : a ∈ twoPageBlocks.free k ↔ a = 0x2000 ∧ k = 0 := by
  by_cases hk : k = 0 <;> simp [twoPageBlocks, hk]

theorem block_twoPageBlocks {a k : Nat} :
    twoPageBlocks.block a k ↔ (a = 0x2000 ∨ a = 0x3000) ∧ k = 0 := by
  rw [Blocks.block, mem_twoPageBlocks]
  simp only [twoPageBlocks]
  tauto

theorem twoPageWorld_alone {p q : Nat} (hlo : 0x2000 ≤ p * pageSize) (hhi : p * pageSize < 0x4000)
    (he : twoPageWorld.descOf () p = twoPageWorld.descOf () q) : p = q := by
  have hlo' : 0x2000 ≤ p * 4096 := hlo
  have hhi' : p * 4096 < 0x4000 := hhi
  have hp : p = 2 ∨ p = 3 := by omega
  simp only [twoPageWorld, if_pos hp] at he
  split at he <;> omega

theorem twoPageHeap_wellFormed : WellFormed twoPageWorld twoPageHeap twoPageBlocks where
  lists := by
    constructor
    · intro k
      by_cases hk : k = 0
      · simp
          [hk, twoPageBlocks, twoPageHeap, Linked, descOf, twoPageWorld, pageSize, nextOf, prevOf,
          Word.ptr?]
      · simp [hk, twoPageBlocks, twoPageHeap, Linked]
    · intro k
      by_cases hk : k = 0 <;> simp [hk, twoPageBlocks]
    · intro k l i hk hl
      obtain ⟨x, hx, -⟩ := List.mem_map.1 hk
      obtain ⟨y, hy, -⟩ := List.mem_map.1 hl
      rw [(mem_twoPageBlocks.1 hx).2, (mem_twoPageBlocks.1 hy).2]
    · intro k i _
      exact ⟨isPtr_null, isPtr_null⟩
  free := by
    intro a k ha
    obtain ⟨rfl, rfl⟩ := mem_twoPageBlocks.1 ha
    exact ⟨by decide, by decide, by decide, by decide⟩
  live := by
    intro a k ha
    obtain ⟨rfl, rfl⟩ := ha
    exact ⟨by decide, by decide, by decide⟩
  only := by
    intro i hi
    have h2 : i = 2 ∧ (i = 2 ∨ i = 3) := by simpa [twoPageHeap] using hi
    exact ⟨0x2000, 0, mem_twoPageBlocks.2 ⟨rfl, rfl⟩, by rw [h2.1]; decide⟩
  tiling := by
    constructor
    · intro a k ha
      obtain ⟨rfl | rfl, rfl⟩ := block_twoPageBlocks.1 ha <;> decide
    · intro a k ha
      obtain ⟨rfl | rfl, rfl⟩ := block_twoPageBlocks.1 ha <;> decide
    · intro x hlo hhi
      have hlo' : 0x2000 ≤ x := hlo
      have hhi' : x < 0x4000 := hhi
      by_cases hx : x < 0x3000
      · exact ⟨0x2000, 0, block_twoPageBlocks.2 ⟨.inl rfl, rfl⟩, hlo', hx⟩
      · exact ⟨0x3000, 0, block_twoPageBlocks.2 ⟨.inr rfl, rfl⟩, by omega, hhi'⟩
    · intro a k b l x ha hb hax hxa hbx hxb
      have hsize : 2 ^ (buddyExponMin + 0) = 0x1000 := rfl
      obtain ⟨ha, rfl⟩ := block_twoPageBlocks.1 ha
      obtain ⟨hb, rfl⟩ := block_twoPageBlocks.1 hb
      rw [hsize] at hxa hxb
      exact ⟨by omega, rfl⟩
  order := by
    intro a k ha
    rw [(block_twoPageBlocks.1 ha).2]
    exact Nat.zero_le _
  bound := by decide
  inj hlo hhi _ _ := twoPageWorld_alone hlo hhi
  alone := twoPageWorld_alone
  noPair := by
    intro a k ha hb
    obtain ⟨rfl, rfl⟩ := mem_twoPageBlocks.1 ha
    have := (mem_twoPageBlocks.1 hb).1
    revert this
    decide

/-- The free page is handed out, and the live page, given back, is joined with it. -/
theorem twoPageHeap_calls :
    (∃ s' b' a, allocBuddy twoPageWorld 1 twoPageHeap 4096 = .ok (s', a) ∧
      WellFormed twoPageWorld s' b') ∧
    ∃ s' b', freeBuddy twoPageWorld twoPageHeap 0x3000 = .ok s' ∧
      WellFormed twoPageWorld s' b' ∧ ∀ x l, ¬ b'.live x l := by
  obtain ⟨halloc, hfree⟩ := buddy_wellFormed twoPageHeap_wellFormed
  constructor
  · obtain ⟨s', b', a, hrun, hwf, -⟩ := halloc 0 0 ⟨0, Nat.le_refl _, by decide, by decide⟩
    exact ⟨s', b', a, hrun, hwf⟩
  · obtain ⟨s', b', hrun, hwf, hlive⟩ := hfree 0x3000 0 ⟨rfl, rfl⟩
    refine ⟨s', b', hrun, hwf, ?_⟩
    intro x l hx
    obtain ⟨⟨rfl, -⟩, hne⟩ := (hlive x l).1 hx
    exact hne rfl

/-! ## A page outside of the heap with the frame of a heap page -/

/-- Pages 2 and 3 have the same frame. -/
def aliasedWorld : World Unit where
  descOf _ p := if p = 2 ∨ p = 3 then 2 else 0
  mmAllocPages _ _ := .error .abort
  pfnToPa _ _ := 0
  pagingMapPages _ _ _ _ _ := .error .abort
  markRegion _ _ _ _ := .error .abort

/-- A heap of one live page, page 2. -/
def onePageHeap : HeapVars Unit where
  world := ()
  desc i := {
    flags := ⟨false, i = 2, i = 2⟩
    numPages := .num 1
    virtAddr := i * pageSize
    buddyOrder := .num 0
    prevFree := .num 0
    nextFree := .num 0
    buddyCache := .buddies 0 }
  mem _ := .num 0
  freeBuddies _ := none
  slabs _ := ⟨0, 0, 0, none⟩
  intervalCache := 0
  minAddr := 0x2000
  curMaxAddr := 0x3000
  reservedMaxAddr := 0x3000
  curSize := 0x1000
  reservedMaxSize := 0x1000

def onePageBlocks : Blocks where
  free _ := []
  live a k := a = 0x2000 ∧ k = 0

theorem block_onePageBlocks {a k : Nat} : onePageBlocks.block a k ↔ a = 0x2000 ∧ k = 0 := by
  simp [Blocks.block, onePageBlocks]

theorem onePageHeap_shown : Shown aliasedWorld onePageHeap onePageBlocks where
  lists := by
    constructor
    · intro k
      simp [onePageBlocks, onePageHeap, Linked]
    · intro k
      exact List.nodup_nil
    · intro k l i hk
      cases hk
    · intro k i _
      exact ⟨isPtr_null, isPtr_null⟩
  free := by
    intro a k ha
    cases ha
  live := by
    intro a k ha
    obtain ⟨rfl, rfl⟩ := ha
    exact ⟨by decide, by decide, by decide⟩
  only := by
    intro i hi
    simp [onePageHeap] at hi
  tiling := by
    constructor
    · intro a k ha
      obtain ⟨rfl, rfl⟩ := block_onePageBlocks.1 ha
      decide
    · intro a k ha
      obtain ⟨rfl, rfl⟩ := block_onePageBlocks.1 ha
      decide
    · intro x hlo hhi
      exact ⟨0x2000, 0, block_onePageBlocks.2 ⟨rfl, rfl⟩, hlo, hhi⟩
    · intro a k b l x ha hb _ _ _ _
      obtain ⟨rfl, rfl⟩ := block_onePageBlocks.1 ha
      obtain ⟨rfl, rfl⟩ := block_onePageBlocks.1 hb
      exact ⟨rfl, rfl⟩
  order := by
    intro a k ha
    rw [(block_onePageBlocks.1 ha).2]
    exact Nat.zero_le _
  bound := by decide
  inj := by
    intro p q hlo hhi hlo' hhi' _
    have hp : 0x2000 ≤ p * 4096 ∧ p * 4096 < 0x3000 := ⟨hlo, hhi⟩
    have hq : 0x2000 ≤ q * 4096 ∧ q * 4096 < 0x3000 := ⟨hlo', hhi'⟩
    omega

/-- The page that comes back is found again under the address of its buddy, which is
not in the heap, and joined with itself: the heap lists a block of two pages at its only
page, and no blocks are shown any more. -/
theorem aliasedPage_merges :
    Shown aliasedWorld onePageHeap onePageBlocks ∧ NoPair onePageBlocks ∧
      onePageBlocks.live 0x2000 0 ∧
      ∃ s', freeBuddy aliasedWorld onePageHeap 0x2000 = .ok s' ∧
        ∀ b, ¬ Shown aliasedWorld s' b := by
  refine ⟨onePageHeap_shown, nofun, ⟨rfl, rfl⟩, ?_⟩
  obtain ⟨s', hrun, hmin, hmax, hfirst⟩ : ∃ s', freeBuddy aliasedWorld onePageHeap 0x2000 = .ok s' ∧
      s'.minAddr = 0x2000 ∧ s'.curMaxAddr = 0x3000 ∧ s'.freeBuddies 1 = some 2 :=
    ⟨_, rfl, rfl, rfl, rfl⟩
  refine ⟨s', hrun, fun b h => ?_⟩
  have hlinked := h.lists.linked 1
  rw [hfirst] at hlinked
  cases hlist : b.free 1 with
  | nil => simp [hlist, Linked] at hlinked
  | cons a rest =>
    obtain ⟨hlo, hhi⟩ := h.tiling.inside (.inl (mem_first hlist))
    rw [hmin] at hlo
    rw [hmax, show 2 ^ (buddyExponMin + 1) = 0x2000 from rfl] at hhi
    omega

end X86Kernel.Heap
