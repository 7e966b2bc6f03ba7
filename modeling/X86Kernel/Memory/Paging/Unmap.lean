import X86Kernel.Memory.Paging

/- Unmapping (`paging_unmap_page` and `paging_unmap_pages` of
   `kernel/arch/i386/memory/paging.c`). Both read the directory and the page entry through
   the recursive window, but clear the entry at the physical address of the table, taken for
   a pointer. So the store goes to whatever frame the current translation has for it.

   What is proved: exactly when that unmaps the pages of the range and changes no other word
   (`unmap_exact_iff`). The table of every page that is present has to be mapped at its own
   physical address, and to be still mapped there when its page is reached. A store that goes
   elsewhere leaves its page present, and no later store can make up for it: a store clears one
   entry at most, and the page whose turn it is stays behind in its place
   (`Behind.unmapLoop`).

   The argument `wp` is the bit CR0.WP, which `cpu_init` sets: with it a store of the kernel
   needs the write bit of both entries. The words of the memory are 32 bits wide.

   Correspondence (C ↔ Lean):
     `get_page_entry`      ↔ `getPageEntry`
     `paging_unmap_page`   ↔ `pagingUnmapPage`
     `paging_unmap_pages`  ↔ `pagingUnmapPages` (its loop: `unmapLoop`) -/
namespace X86Kernel.Paging

/-- `INVALID_PAGE_MEMORY`. -/
def invalidPageMemory : Nat := 0xFFFFFFFF

def getPageEntry (s : Space) (virtAddr : Nat) : Kernel Nat := do
  let pde ← loadWord s (pageDirectory + 4 * getPdeIndex virtAddr)
  if !present pde then return invalidPageMemory
  else loadWord s (pageTable (getPdeIndex virtAddr) + 4 * getPteIndex virtAddr)

/-- `entry & PAGE_ENTRY_FLAG_WRITE`. -/
def writable (entry : Nat) : Bool := entry / 2 % 2 = 1

/-- A store of the kernel through a pointer. -/
def kernelStore (wp : Bool) (s : Space) (va value : Nat) : Kernel Space := do
  let frame ← walk s va
  if wp && !(writable (s.pde (getPdeIndex va)) && writable (s.entry (va / pageSize))) then
    .error .outOfBounds
  else return s.put frame (va % pageSize / 4) value

def pagingUnmapPage (wp : Bool) (s : Space) (va : Nat) : Kernel (Space × Bool) := do
  let pde ← getTableEntry s va
  -- `(page_table_t*)(get_table_entry(va) & PAGE_MASK)`
  let table := pde / pageSize * pageSize
  let entry ← getPageEntry s va
  if entry = 0 || !present entry then return (s, false)
  else
    let s ← kernelStore wp s (table + 4 * getPteIndex va) 0
    return (s, true)

/-- The loop of `paging_unmap_pages`, with `count - i` turns left. -/
def unmapLoop (wp : Bool) : Nat → Space → Nat → Kernel Space
  | 0, s, _ => .ok s
  | n + 1, s, va => do
    let pde ← getTableEntry s va
    if !present pde then unmapLoop wp n s (u32 (va + pageSize))
    else
      let table := pde / pageSize * pageSize
      let entry ← getPageEntry s va
      if !present entry then unmapLoop wp n s (u32 (va + pageSize))
      else
        let s ← kernelStore wp s (table + 4 * getPteIndex va) 0
        unmapLoop wp n s (u32 (va + pageSize))

def pagingUnmapPages (wp : Bool) (s : Space) (va count : Nat) : Kernel (Space × Bool) := do
  let s ← unmapLoop wp count s va
  return (s, true)

/-! ## What unmapping has to do -/

/-- The frame of the table of a page. -/
def Space.tableOf (s : Space) (page : Nat) : Nat := frameOf (s.pde (page / 1024))

/-- The word is the entry of one of the `n` pages from `page` on. -/
def EntryOf (s : Space) (page n frame word : Nat) : Prop :=
  ∃ q, page ≤ q ∧ q < page + n ∧ present (s.pde (q / 1024)) = true ∧ frame = s.tableOf q ∧
    word = q % 1024

/-- Nothing but entries of the `n` pages from `page` on has changed. -/
structure Within (s s' : Space) (page n : Nat) : Prop where
  dir : s'.dir = s.dir
  word : ∀ f w, ¬ EntryOf s page n f w → s'.mem f w = s.mem f w

/-- The pages are unmapped, every other one is translated as before, and no word is changed
but entries of the pages. -/
structure Unmapped (s s' : Space) (page n : Nat) : Prop where
  gone : ∀ va, page ≤ va / pageSize → va / pageSize < page + n → virtToPhys s' va = .ok 0
  others : ∀ va < 2 ^ 32, ¬ (page ≤ va / pageSize ∧ va / pageSize < page + n) →
    virtToPhys s' va = virtToPhys s va
  within : Within s s' page n

/-- The frame can be written at its physical address. -/
structure Reaches (wp : Bool) (s : Space) (frame : Nat) : Prop where
  present : present (s.entry frame) = true
  identity : frameOf (s.entry frame) = frame
  write : wp = true → writable (s.pde (frame / 1024)) = true ∧ writable (s.entry frame) = true

/-- When the stores go to the entries: the table of every present page can be written at its
physical address, and the page there is not unmapped before it is needed. -/
def UnmapSafe (wp : Bool) (s : Space) (page n : Nat) : Prop :=
  ∀ q, page ≤ q → q < page + n → present (s.entry q) = true →
    Reaches wp s (s.tableOf q) ∧ ¬ (page ≤ s.tableOf q ∧ s.tableOf q < q)

/-! ## Changes within the entries of a range -/

section Range

variable {s s' : Space} {page n : Nat}

theorem Within.refl (s : Space) (page n : Nat) : Within s s page n := ⟨rfl, fun _ _ _ => rfl⟩

theorem EntryOf.of_le {m f w : Nat} (hle : n ≤ m) (h : EntryOf s page n f w) :
    EntryOf s page m f w := by
  obtain ⟨q, hlo, hhi, hrest⟩ := h
  exact ⟨q, hlo, by omega, hrest⟩

theorem Within.of_le {m : Nat} (hle : n ≤ m) (h : Within s s' page n) : Within s s' page m :=
  ⟨h.dir, fun f w hne => h.word f w fun he => hne (he.of_le hle)⟩

theorem Recursive.not_entryOf_dir (hs : Recursive s) (hend : page + n ≤ 1023 * 1024) (w : Nat) :
    ¬ EntryOf s page n s.dir w := by
  intro h
  obtain ⟨q, -, hhi, hp, hframe, -⟩ := h
  exact hs.table_ne_dir (show q / 1024 < 1023 by omega) hp hframe.symm

theorem Within.pde (h : Within s s' page n) (hs : Recursive s) (hend : page + n ≤ 1023 * 1024)
    (d : Nat) : s'.pde d = s.pde d := by
  rw [Space.pde, h.dir]
  exact h.word s.dir d (hs.not_entryOf_dir hend d)

theorem Within.tableOf (h : Within s s' page n) (hs : Recursive s) (hend : page + n ≤ 1023 * 1024)
    (q : Nat) : s'.tableOf q = s.tableOf q := by
  rw [Space.tableOf, h.pde hs hend, Space.tableOf]

theorem Within.recursive (h : Within s s' page n) (hs : Recursive s)
    (hend : page + n ≤ 1023 * 1024) : Recursive s' where
  here := by rw [h.pde hs hend]; exact hs.here
  self := by rw [h.pde hs hend, h.dir]; exact hs.self
  own := by
    intro d e hd he
    rw [h.pde hs hend, h.pde hs hend]
    exact hs.own d e hd he

theorem Recursive.entryOf_iff (hs : Recursive s) (hend : page + n ≤ 1023 * 1024) {q : Nat}
    (hq : q < 1024 * 1024) (hp : present (s.pde (q / 1024)) = true) :
    EntryOf s page n (s.tableOf q) (q % 1024) ↔ page ≤ q ∧ q < page + n := by
  constructor
  · intro h
    obtain ⟨r, hlo, hhi, hpr, hframe, hword⟩ := h
    have hdir := hs.own (q / 1024) (r / 1024) (by omega) (by omega) hp hpr hframe
    have hqr : q = r := by omega
    exact hqr ▸ ⟨hlo, hhi⟩
  · intro h
    exact ⟨q, h.1, h.2, hp, rfl, rfl⟩

theorem Within.entry (h : Within s s' page n) (hs : Recursive s) (hend : page + n ≤ 1023 * 1024)
    {q : Nat} (hq : q < 1024 * 1024) (hout : ¬ (page ≤ q ∧ q < page + n)) :
    s'.entry q = s.entry q := by
  unfold Space.entry
  rw [h.pde hs hend]
  apply ite_congr rfl _ fun _ => rfl
  intro hp
  exact h.word _ _ fun he => hout ((hs.entryOf_iff hend hq hp).1 he)

theorem Within.put (h : Within s s' page n) {f w : Nat} (he : EntryOf s page n f w) (v : Nat) :
    Within s (s'.put f w v) page n := by
  refine ⟨h.dir, fun g u hne => ?_⟩
  rw [← h.word g u hne]
  apply if_neg
  intro hsame
  exact hne (hsame.1 ▸ hsame.2 ▸ he)

theorem Within.entry_eq (h : Within s s' page n) (hs : Recursive s)
    (hend : page + n ≤ 1023 * 1024) (q : Nat) :
    s'.entry q = if present (s.pde (q / 1024)) then s'.mem (s.tableOf q) (q % 1024) else 0 := by
  unfold Space.entry
  rw [h.pde hs hend, Space.tableOf]

theorem present_pde {q : Nat} (h : present (s.entry q) = true) :
    present (s.pde (q / 1024)) = true := by
  by_contra hne
  rw [Space.entry, if_neg hne] at h
  cases h

end Range

/-! ## One turn -/

section Turn

variable {wp : Bool} {s : Space}

theorem getTableEntry_page (hs : Recursive s) {q : Nat} (hq : q < 1024 * 1024) :
    getTableEntry s (q * 4096) = .ok (s.pde (q / 1024)) := by
  have hd : getPdeIndex (q * 4096) = q / 1024 := by unfold getPdeIndex; omega
  rw [getTableEntry, hd, hs.load_dir (by omega)]

theorem getPageEntry_eq (hs : Recursive s) {va : Nat} (hva : va < 2 ^ 32)
    (hp : present (s.pde (getPdeIndex va)) = true) :
    getPageEntry s va = .ok (s.entry (va / pageSize)) := by
  have hd : getPdeIndex va < 1024 := by unfold getPdeIndex; omega
  have hload := hs.load_table hd (getPteIndex_lt va) hp
  simp only [getPageEntry, hs.load_dir hd, ok_bind, hp, Bool.not_true, Bool.false_eq_true, if_false,
    hload, Space.entry, page_div, page_mod, if_true]

theorem getPageEntry_page (hs : Recursive s) {q : Nat} (hq : q < 1024 * 1024)
    (hp : present (s.pde (q / 1024)) = true) :
    getPageEntry s (q * 4096) = .ok (s.entry q) := by
  have hd : getPdeIndex (q * 4096) = q / 1024 := by unfold getPdeIndex; omega
  have hdiv : q * 4096 / pageSize = q := Nat.mul_div_cancel q (by decide)
  have h := getPageEntry_eq hs (show q * 4096 < 2 ^ 32 by omega) (by rw [hd]; exact hp)
  rw [hdiv] at h
  exact h

theorem kernelStore_eq_ok_iff {s' : Space} {page i v : Nat} (hi : i < 1024) :
    kernelStore wp s (page * 4096 + 4 * i) v = .ok s' ↔ present (s.entry page) = true ∧
      (wp = true → writable (s.pde (page / 1024)) = true ∧ writable (s.entry page) = true) ∧
      s' = s.put (frameOf (s.entry page)) i v := by
  have hdiv : (page * 4096 + 4 * i) / pageSize = page := by unfold pageSize; omega
  have hmod : (page * 4096 + 4 * i) % pageSize / 4 = i := by unfold pageSize; omega
  have hd : getPdeIndex (page * 4096 + 4 * i) = page / 1024 := by unfold getPdeIndex; omega
  rw [kernelStore, walk_eq_entry, hdiv, hmod, hd]
  by_cases hp : present (s.entry page) = true
  · rw [if_pos hp, ok_bind]
    have hguard : (wp && !(writable (s.pde (page / 1024)) && writable (s.entry page))) = true ↔
        ¬ (wp = true → writable (s.pde (page / 1024)) = true ∧
          writable (s.entry page) = true) := by
      cases wp <;> cases writable (s.pde (page / 1024)) <;> cases writable (s.entry page) <;> simp
    by_cases hw : wp = true → writable (s.pde (page / 1024)) = true ∧ writable (s.entry page) = true
    · rw [if_neg (fun h => hguard.1 h hw)]
      constructor
      · intro h
        exact ⟨hp, hw, (Except.ok.inj h).symm⟩
      · intro h
        exact congrArg _ h.2.2.symm
    · rw [if_pos (hguard.2 hw)]
      constructor
      · intro h
        cases h
      · intro h
        exact absurd h.2.1 hw
  · rw [if_neg hp]
    constructor
    · intro h
      cases h
    · intro h
      exact absurd h.1 hp

theorem unmapLoop_turn (hs : Recursive s) {q : Nat} (hq : q < 1023 * 1024) (n : Nat) :
    unmapLoop wp (n + 1) s (q * 4096) =
      if present (s.entry q) then do
        let s ← kernelStore wp s (s.tableOf q * 4096 + 4 * (q % 1024)) 0
        unmapLoop wp n s ((q + 1) * 4096)
      else unmapLoop wp n s ((q + 1) * 4096) := by
  have hnext : u32 (q * 4096 + pageSize) = (q + 1) * 4096 := by
    rw [u32_of_lt (by unfold pageSize; omega)]
    unfold pageSize
    omega
  have hi : getPteIndex (q * 4096) = q % 1024 := by unfold getPteIndex; omega
  rw [unmapLoop, getTableEntry_page hs (by omega), ok_bind, hnext, hi]
  by_cases hp : present (s.pde (q / 1024)) = true
  · rw [hp, getPageEntry_page hs (by omega) hp]
    simp only [Bool.not_true, Bool.false_eq_true, if_false, ok_bind]
    cases hq' : present (s.entry q) with
    | false => rfl
    | true => rfl
  · have hq' : ¬ present (s.entry q) = true := fun h => hp (present_pde h)
    have hp' : present (s.pde (q / 1024)) = false := by simpa using hp
    rw [hp', if_neg hq']
    rfl

/-- The loop only ever writes zeros. -/
theorem unmapLoop_zeros : ∀ (n : Nat) {s s' : Space} {va : Nat}, unmapLoop wp n s va = .ok s' →
    ∀ f w, s.mem f w = 0 → s'.mem f w = 0 := by
  intro n
  induction n with
  | zero =>
    intro s s' va h f w hzero
    cases h
    exact hzero
  | succ n ih =>
    intro s s' va h f w hzero
    obtain ⟨pde, -, h⟩ := exists_of_bind_eq_ok h
    cases hp : present pde with
    | false =>
      rw [hp] at h
      exact ih h f w hzero
    | true =>
      rw [hp] at h
      obtain ⟨entry, -, h⟩ := exists_of_bind_eq_ok h
      cases he : present entry with
      | false =>
        rw [he] at h
        exact ih h f w hzero
      | true =>
        rw [he] at h
        obtain ⟨t, hstore, h⟩ := exists_of_bind_eq_ok h
        refine ih h f w ?_
        obtain ⟨frame, -, hput⟩ := exists_of_bind_eq_ok hstore
        split at hput
        · cases hput
        · cases hput
          simp only [Space.put]
          split
          · rfl
          · exact hzero

end Turn

/-! ## Stores that go to the entries -/

section Runs

variable {wp : Bool} {s t : Space} {page n k : Nat}

/-- The first `k` pages are unmapped, and nothing else has changed. -/
structure Done (s t : Space) (page k : Nat) : Prop where
  within : Within s t page k
  gone : ∀ q, page ≤ q → q < page + k → present (t.entry q) = false

theorem Done.skip (h : Done s t page k) (hs : Recursive s) (hend : page + k < 1023 * 1024)
    (hp : present (s.entry (page + k)) = false) : Done s t page (k + 1) := by
  refine ⟨h.within.of_le (by omega), fun q hlo hhi => ?_⟩
  by_cases hq : q < page + k
  · exact h.gone q hlo hq
  · obtain rfl : q = page + k := by omega
    rw [h.within.entry hs (by omega) (by omega) (by omega)]
    exact hp

theorem Done.clear (h : Done s t page k) (hs : Recursive s) (hend : page + k < 1023 * 1024)
    (hp : present (s.entry (page + k)) = true) :
    Done s (t.put (s.tableOf (page + k)) ((page + k) % 1024) 0) page (k + 1) := by
  have hwithin := (h.within.of_le (Nat.le_succ k)).put
    ⟨page + k, by omega, by omega, present_pde hp, rfl, rfl⟩ 0
  refine ⟨hwithin, fun q hlo hhi => ?_⟩
  rw [hwithin.entry_eq hs (by omega)]
  by_cases hpq : present (s.pde (q / 1024)) = true
  · rw [if_pos hpq]
    simp only [Space.put]
    split
    · rfl
    · next hne =>
      -- an earlier page: its entry is what it was
      have hq : q < page + k := by
        by_contra hlast
        obtain rfl : q = page + k := by omega
        exact hne ⟨rfl, rfl⟩
      have hgone := h.gone q hlo hq
      rw [h.within.entry_eq hs (by omega), if_pos hpq] at hgone
      exact hgone
  · rw [if_neg hpq]
    rfl

theorem tableOf_lt (hword : ∀ f w, s.mem f w < 2 ^ 32) (q : Nat) :
    s.tableOf q < 1024 * 1024 := by
  have h := hword s.dir (q / 1024)
  unfold Space.tableOf frameOf Space.pde pageSize
  omega

theorem Done.unmapLoop (hs : Recursive s) (hword : ∀ f w, s.mem f w < 2 ^ 32)
    (hend : page + n ≤ 1023 * 1024) (hsafe : UnmapSafe wp s page n) : ∀ (m : Nat) {k : Nat}
    {t : Space}, k + m = n → Done s t page k →
    ∃ s', unmapLoop wp m t ((page + k) * 4096) = .ok s' ∧ Done s s' page n := by
  intro m
  induction m with
  | zero =>
    intro k t hk h
    obtain rfl : k = n := by omega
    exact ⟨t, rfl, h⟩
  | succ m ih =>
    intro k t hk h
    have hentry : t.entry (page + k) = s.entry (page + k) :=
      h.within.entry hs (by omega) (by omega) (by omega)
    rw [unmapLoop_turn (h.within.recursive hs (by omega)) (show page + k < 1023 * 1024 by omega),
      hentry, h.within.tableOf hs (by omega), Nat.add_assoc page k 1]
    cases hp : present (s.entry (page + k)) with
    | false => exact ih (k := k + 1) (by omega) (h.skip hs (by omega) hp)
    | true =>
      obtain ⟨hreach, hnot⟩ := hsafe (page + k) (by omega) (by omega) hp
      have htable : t.entry (s.tableOf (page + k)) = s.entry (s.tableOf (page + k)) :=
        h.within.entry hs (by omega) (tableOf_lt hword _) hnot
      have hstore : kernelStore wp t (s.tableOf (page + k) * 4096 + 4 * ((page + k) % 1024)) 0 =
          .ok (t.put (s.tableOf (page + k)) ((page + k) % 1024) 0) := by
        apply (kernelStore_eq_ok_iff (Nat.mod_lt _ (by decide))).2
        rw [htable, h.within.pde hs (by omega)]
        exact ⟨hreach.present, hreach.write, by rw [hreach.identity]⟩
      rw [if_pos rfl, hstore, ok_bind]
      exact ih (k := k + 1) (by omega) (h.clear hs (by omega) hp)

/-! ## Stores that go elsewhere -/

/-- A word that is no entry of the pages has been lost. -/
def Lost (s t : Space) (page n : Nat) : Prop :=
  ∃ f w, ¬ EntryOf s page n f w ∧ s.mem f w ≠ 0 ∧ t.mem f w = 0

/-- One of the first `k` pages, whose turn is over, is still present. -/
structure Behind (s t : Space) (page n k : Nat) : Prop where
  within : Within s t page n
  stays : ∃ q, page ≤ q ∧ q < page + k ∧ present (t.entry q) = true

theorem Within.put_zero (h : Within s t page n) (f w : Nat) :
    Lost s (t.put f w 0) page n ∨ Within s (t.put f w 0) page n := by
  by_cases he : EntryOf s page n f w
  · exact .inr (h.put he 0)
  · by_cases hz : s.mem f w = 0
    · refine .inr ⟨h.dir, fun g u hne => ?_⟩
      simp only [Space.put]
      split
      · next hsame => rw [hsame.1, hsame.2, hz]
      · exact h.word g u hne
    · exact .inl ⟨f, w, he, hz, by simp [Space.put]⟩

theorem Within.present_put {f w q : Nat} (hs : Recursive s) (hend : page + n ≤ 1023 * 1024)
    (h : Within s t page n) (h' : Within s (t.put f w 0) page n)
    (hp : present (t.entry q) = true) (hne : ¬ (s.tableOf q = f ∧ q % 1024 = w)) :
    present ((t.put f w 0).entry q) = true := by
  rw [h.entry_eq hs hend] at hp
  rw [h'.entry_eq hs hend]
  simp only [Space.put, if_neg hne]
  exact hp

/-- A turn with a page left behind leaves one behind: if it clears that page's entry, it does
not clear its own. -/
theorem Behind.turn (h : Behind s t page n k) (hs : Recursive s) (hend : page + n ≤ 1023 * 1024)
    (hk : k < n) (hp : present (t.entry (page + k)) = true) (frame : Nat) :
    Lost s (t.put frame ((page + k) % 1024) 0) page n ∨
      Behind s (t.put frame ((page + k) % 1024) 0) page n (k + 1) := by
  refine (h.within.put_zero frame ((page + k) % 1024)).imp_right fun h' => ⟨h', ?_⟩
  obtain ⟨q, hlo, hhi, hq⟩ := h.stays
  by_cases hsame : s.tableOf q = frame ∧ q % 1024 = (page + k) % 1024
  · refine ⟨page + k, by omega, by omega, h.within.present_put hs hend h' hp ?_⟩
    intro hown
    have hpq := present_pde hq
    have hpk := present_pde hp
    rw [h.within.pde hs hend] at hpq hpk
    have := hs.own (q / 1024) ((page + k) / 1024) (by omega) (by omega) hpq hpk
      (hsame.1.trans hown.1.symm)
    omega
  · exact ⟨q, hlo, by omega, h.within.present_put hs hend h' hq hsame⟩

theorem Behind.unmapLoop (hs : Recursive s) (hend : page + n ≤ 1023 * 1024) : ∀ (m : Nat)
    {k : Nat} {t s' : Space}, k + m = n → Behind s t page n k →
    unmapLoop wp m t ((page + k) * 4096) = .ok s' →
    Lost s s' page n ∨ Behind s s' page n n := by
  intro m
  induction m with
  | zero =>
    intro k t s' hk h hrun
    obtain rfl : k = n := by omega
    cases hrun
    exact .inr h
  | succ m ih =>
    intro k t s' hk h hrun
    rw [unmapLoop_turn (h.within.recursive hs hend) (show page + k < 1023 * 1024 by omega),
      Nat.add_assoc page k 1] at hrun
    cases hp : present (t.entry (page + k)) with
    | false =>
      rw [hp] at hrun
      obtain ⟨q, hlo, hhi, hq⟩ := h.stays
      exact ih (k := k + 1) (by omega) ⟨h.within, q, hlo, by omega, hq⟩ hrun
    | true =>
      rw [hp, if_pos rfl] at hrun
      obtain ⟨t', hstore, hrun⟩ := exists_of_bind_eq_ok hrun
      obtain ⟨-, -, rfl⟩ := (kernelStore_eq_ok_iff (Nat.mod_lt _ (by decide))).1 hstore
      rcases h.turn hs hend (by omega) hp _ with hlost | hbehind
      · obtain ⟨f, w, hno, hne, hzero⟩ := hlost
        exact .inl ⟨f, w, hno, hne, unmapLoop_zeros m hrun f w hzero⟩
      · exact ih (k := k + 1) (by omega) hbehind hrun

theorem Unmapped.not_lost (h : Unmapped s t page n) : ¬ Lost s t page n := by
  intro hlost
  obtain ⟨f, w, hno, hne, hzero⟩ := hlost
  exact hne ((h.within.word f w hno).symm.trans hzero)

theorem Unmapped.not_behind (h : Unmapped s t page n) (hs : Recursive s)
    (hend : page + n ≤ 1023 * 1024) : ¬ Behind s t page n n := by
  intro hbehind
  obtain ⟨q, hlo, hhi, hq⟩ := hbehind.stays
  have ht := h.within.recursive hs hend
  have hdiv : (q * 4096 + 1) / pageSize = q := by unfold pageSize; omega
  have hmod : (q * 4096 + 1) % pageSize = 1 := by unfold pageSize; omega
  have hgone := h.gone (q * 4096 + 1) (by omega) (by omega)
  rw [ht.virtToPhys (by omega), hdiv, hmod, if_pos hq] at hgone
  -- the second byte of a present page is never at address 0
  have hzero := Except.ok.inj hgone
  rw [or_flags _ (by decide)] at hzero
  omega

theorem Done.safe (hs : Recursive s) (hword : ∀ f w, s.mem f w < 2 ^ 32)
    (hend : page + n ≤ 1023 * 1024) : ∀ (m : Nat) {k : Nat} {t s' : Space}, k + m = n →
    Done s t page k → Paging.unmapLoop wp m t ((page + k) * 4096) = .ok s' →
    Unmapped s s' page n →
    ∀ q, page + k ≤ q → q < page + n → present (s.entry q) = true →
      Reaches wp s (s.tableOf q) ∧ ¬ (page ≤ s.tableOf q ∧ s.tableOf q < q) := by
  intro m
  induction m with
  | zero =>
    intro k t s' hk _ _ _ q hlo hhi
    omega
  | succ m ih =>
    intro k t s' hk h hrun hout q hlo hhi hp
    have hentry : t.entry (page + k) = s.entry (page + k) :=
      h.within.entry hs (by omega) (by omega) (by omega)
    rw [unmapLoop_turn (h.within.recursive hs (by omega)) (show page + k < 1023 * 1024 by omega),
      hentry, h.within.tableOf hs (by omega), Nat.add_assoc page k 1] at hrun
    cases hpk : present (s.entry (page + k)) with
    | false =>
      rw [hpk] at hrun
      have hne : q ≠ page + k := by
        intro he
        rw [he, hpk] at hp
        cases hp
      exact ih (k := k + 1) (by omega) (h.skip hs (by omega) hpk) hrun hout q (by omega) hhi hp
    | true =>
      rw [hpk, if_pos rfl] at hrun
      obtain ⟨t', hstore, hrun⟩ := exists_of_bind_eq_ok hrun
      obtain ⟨hpt, hwrite, rfl⟩ := (kernelStore_eq_ok_iff (Nat.mod_lt _ (by decide))).1 hstore
      have hnot : ¬ (page ≤ s.tableOf (page + k) ∧ s.tableOf (page + k) < page + k) := by
        intro hin
        rw [h.gone _ hin.1 hin.2] at hpt
        cases hpt
      have htable : t.entry (s.tableOf (page + k)) = s.entry (s.tableOf (page + k)) :=
        h.within.entry hs (by omega) (tableOf_lt hword _) hnot
      rw [htable] at hpt hwrite hrun
      rw [h.within.pde hs (by omega)] at hwrite
      by_cases hown : frameOf (s.entry (s.tableOf (page + k))) = s.tableOf (page + k)
      · rw [hown] at hrun
        by_cases hq : q = page + k
        · rw [hq]
          exact ⟨⟨hpt, hown, hwrite⟩, hnot⟩
        · exact ih (k := k + 1) (by omega) (h.clear hs (by omega) hpk) hrun hout q (by omega) hhi hp
      · -- the page whose turn it is stays behind
        have hwithin : Within s t page n := h.within.of_le (by omega)
        exfalso
        rcases hwithin.put_zero (frameOf (s.entry (s.tableOf (page + k)))) ((page + k) % 1024)
          with hlost | h'
        · obtain ⟨f, w, hno, hne, hzero⟩ := hlost
          exact hout.not_lost ⟨f, w, hno, hne, unmapLoop_zeros m hrun f w hzero⟩
        · have hstays := hwithin.present_put hs hend h' (hentry ▸ hpk)
            fun hsame => hown hsame.1.symm
          have hbehind : Behind s _ page n (k + 1) :=
            ⟨h', page + k, by omega, by omega, hstays⟩
          rcases Behind.unmapLoop hs hend m (k := k + 1) (by omega) hbehind hrun with hlost | hb
          · exact hout.not_lost hlost
          · exact hout.not_behind hs hend hb

theorem Done.unmapped (h : Done s t page n) (hs : Recursive s) (hend : page + n ≤ 1023 * 1024) :
    Unmapped s t page n := by
  have ht := h.within.recursive hs hend
  refine ⟨?_, ?_, h.within⟩
  · intro va hlo hhi
    have hlt : va < 2 ^ 32 := by unfold pageSize at hhi; omega
    rw [ht.virtToPhys hlt, h.gone _ hlo hhi]
    rfl
  · intro va hlt hout
    have hq : va / pageSize < 1024 * 1024 := by unfold pageSize; omega
    rw [ht.virtToPhys hlt, hs.virtToPhys hlt, h.within.entry hs hend hq hout]

end Runs

/-- `paging_unmap_page` of a present page is `paging_unmap_pages` of that page. -/
theorem pagingUnmapPage_eq {wp : Bool} {s : Space} (hs : Recursive s) {q : Nat}
    (hq : q < 1023 * 1024) (hp : present (s.entry q) = true) :
    pagingUnmapPage wp s (q * 4096) = pagingUnmapPages wp s (q * 4096) 1 := by
  have hpde := present_pde hp
  have hi : getPteIndex (q * 4096) = q % 1024 := by unfold getPteIndex; omega
  have hne : s.entry q ≠ 0 := by
    intro hzero
    rw [hzero] at hp
    cases hp
  rw [pagingUnmapPages, unmapLoop_turn hs hq, if_pos hp, pagingUnmapPage,
    getTableEntry_page hs (by omega), ok_bind, getPageEntry_page hs (by omega) hpde, ok_bind, hi]
  simp only [hne, hp, Bool.not_true, decide_false, Bool.or_self, Bool.false_eq_true, if_false]
  rw [bind_assoc]
  rfl

theorem pagingUnmapPages_iff (wp : Bool) {s : Space} (hs : Recursive s)
    (hword : ∀ f w, s.mem f w < 2 ^ 32) (page n : Nat) (hend : page + n ≤ 1023 * 1024) :
    (∃ s', pagingUnmapPages wp s (page * 4096) n = .ok (s', true) ∧ Unmapped s s' page n) ↔
      UnmapSafe wp s page n := by
  have hstart : Done s s page 0 := ⟨Within.refl s page 0, fun q hlo hhi => by omega⟩
  constructor
  · intro hrun
    obtain ⟨s', hrun, hout⟩ := hrun
    obtain ⟨t, hloop, hret⟩ := exists_of_bind_eq_ok hrun
    obtain rfl : t = s' := congrArg Prod.fst (Except.ok.inj hret)
    exact Done.safe hs hword hend n (k := 0) (by omega) hstart hloop hout
  · intro hsafe
    obtain ⟨s', hloop, hdone⟩ :=
      Done.unmapLoop hs hword hend hsafe n (k := 0) (by omega) hstart
    rw [Nat.add_zero] at hloop
    refine ⟨s', ?_, hdone.unmapped hs hend⟩
    rw [pagingUnmapPages, hloop]
    rfl

/-- Exactly when the pages of a range below the window are unmapped and nothing else is
changed, by `paging_unmap_pages` and, for one present page, by `paging_unmap_page`. -/
theorem unmap_exact_iff (wp : Bool) {s : Space} (hs : Recursive s)
    (hword : ∀ f w, s.mem f w < 2 ^ 32) (va : Nat) (hva : va % pageSize = 0) :
    (∀ count, va + count * pageSize ≤ 0xFFC00000 →
      ((∃ s', pagingUnmapPages wp s va count = .ok (s', true) ∧
        Unmapped s s' (va / pageSize) count) ↔ UnmapSafe wp s (va / pageSize) count)) ∧
    (va < 0xFFC00000 → present (s.entry (va / pageSize)) = true →
      ((∃ s', pagingUnmapPage wp s va = .ok (s', true) ∧
        Unmapped s s' (va / pageSize) 1) ↔ UnmapSafe wp s (va / pageSize) 1)) := by
  have hpage : va = va / pageSize * 4096 := by unfold pageSize at hva ⊢; omega
  constructor
  · intro count hrange
    have hiff := pagingUnmapPages_iff wp hs hword (va / pageSize) count
      (by unfold pageSize at *; omega)
    rw [← hpage] at hiff
    exact hiff
  · intro hlt hp
    have hq : va / pageSize < 1023 * 1024 := by unfold pageSize; omega
    have hiff := pagingUnmapPages_iff wp hs hword (va / pageSize) 1 (by omega)
    rw [← pagingUnmapPage_eq hs hq hp, ← hpage] at hiff
    exact hiff

/-! ## Two address spaces -/

/-- A directory in frame 1 and one table, in frame `table`, for the first 1024 pages: page 5 is
frame 9, and the page with the number of the table's frame is frame `behind`, whose word 5
is in use. -/
def oneTable (table behind : Nat) : Space where
  dir := 1
  mem f w :=
    if f = 1 then
      if w = 1023 then 1 * pageSize + 3 else if w = 0 then table * pageSize + 3 else 0
    else if f = table then
      if w = 5 then 9 * pageSize + 3 else if w = table then behind * pageSize + 3 else 0
    else if f = behind ∧ w = 5 then 7
    else 0

theorem pde_oneTable (table behind d : Nat) : (oneTable table behind).pde d =
    if d = 1023 then 1 * pageSize + 3 else if d = 0 then table * pageSize + 3 else 0 := by
  simp [Space.pde, oneTable]

theorem recursive_oneTable {table behind : Nat} (htable : table ≠ 1) :
    Recursive (oneTable table behind) where
  here := by rw [pde_oneTable, if_pos rfl]; decide
  self := by rw [pde_oneTable, if_pos rfl]; rfl
  own := by
    intro d e hd he
    rw [pde_oneTable, pde_oneTable]
    by_cases h₁ : d = 1023 <;> by_cases h₂ : e = 1023 <;> by_cases h₃ : d = 0 <;>
      by_cases h₄ : e = 0 <;> simp [h₁, h₂, h₃, h₄, frameOf, present, pageSize] <;> omega

theorem words_oneTable {table behind : Nat} (htable : table < 1024) (hbehind : behind < 1024)
    (f w : Nat) : (oneTable table behind).mem f w < 2 ^ 32 := by
  simp only [oneTable, pageSize]
  split_ifs <;> omega

/-- A table that is mapped at its physical address. -/
theorem identityTable_unmapped :
    ∃ s', pagingUnmapPages true (oneTable 0x300 0x300) 0x5000 1 = .ok (s', true) ∧
      virtToPhys s' 0x5000 = .ok 0 ∧ virtToPhys s' 0x300000 = .ok 0x300000 := by
  have hsafe : UnmapSafe true (oneTable 0x300 0x300) (0x5000 / pageSize) 1 := by
    intro q hlo hhi _
    obtain rfl : q = 5 := by unfold pageSize at *; omega
    exact ⟨⟨by decide, by decide, by decide⟩, by decide⟩
  obtain ⟨s', hrun, hout⟩ := ((unmap_exact_iff true (recursive_oneTable (by decide))
    (words_oneTable (by decide) (by decide)) 0x5000 (by decide)).1 1 (by decide)).2 hsafe
  refine ⟨s', hrun, hout.gone 0x5000 (by decide) (by decide), ?_⟩
  rw [hout.others 0x300000 (by decide) (by decide)]
  decide +kernel

/-- A table in frame `0x300`, while the page `0x300` is frame `0x50`: page 5 stays mapped, and a
word of frame `0x50` is lost. -/
theorem other_frame_cleared : Recursive (oneTable 0x300 0x50) ∧
    (∀ f w, (oneTable 0x300 0x50).mem f w < 2 ^ 32) ∧
    (∃ r, pagingUnmapPages true (oneTable 0x300 0x50) 0x5000 1 = .ok r ∧
      virtToPhys r.1 0x5000 = .ok 0x9000 ∧ (oneTable 0x300 0x50).mem 0x50 5 = 7 ∧
      r.1.mem 0x50 5 = 0) ∧
    ∃ r, pagingUnmapPage true (oneTable 0x300 0x50) 0x5000 = .ok r ∧
      virtToPhys r.1 0x5000 = .ok 0x9000 := by
  refine ⟨recursive_oneTable (by decide), words_oneTable (by decide) (by decide), ?_, ?_⟩
  · decide +kernel
  · decide +kernel

end X86Kernel.Paging
