import Mathlib.Data.Nat.Bitwise
import X86Kernel.Memory.Paging.Unmap

/- The flags of a page (`paging_get_flags`, `set_page_entry` and `paging_clear_flags` of
   `kernel/arch/i386/memory/paging_utils.c`). The flags have two encodings: `PAGING_FLAG_*` of
   the kernel's interface and `PAGE_ENTRY_FLAG_*` of the processor's entries.

   What is proved: exactly when `paging_clear_flags` removes the flags it is given, keeps the
   frame and leaves every other page alone (`clearFlags_exact_iff`). It reads the mask only in
   its assertion and tests the entry in its place, with the bits of the other encoding: a page
   is no longer accessed if it is a user's page, no longer dirty if it may be written, may
   no longer be written if it is not cached, and is no longer a user's if it is written
   through. The frame and the other pages are always kept (`clearedEntry_frame`,
   `setPageEntry_entry`).

   As in `Unmap.lean`, `wp` is CR0.WP; through the recursive window the entries of a store are
   entry 1023 and that of the table.

   Correspondence (C ↔ Lean):
     `set_page_entry`      ↔ `setPageEntry`
     `paging_get_flags`    ↔ `pagingGetFlags`
     `paging_clear_flags`  ↔ `pagingClearFlags` -/
namespace X86Kernel.Paging

def setPageEntry (wp : Bool) (s : Space) (virtAddr entry : Nat) : Kernel Space := do
  let pde ← loadWord s (pageDirectory + 4 * getPdeIndex virtAddr)
  if !present pde then return s
  else kernelStore wp s (pageTable (getPdeIndex virtAddr) + 4 * getPteIndex virtAddr) entry

/-- The bits of `PAGE_ENTRY_FLAG_PRESENT`, `DIRTY`, `ACCESS`, `WRITE` and `USER`, in the order of
the source, and the `PAGING_FLAG_*` they become. -/
def entryFlags (entry : Nat) : Nat :=
  hwFlag entry 1 1 ||| hwFlag entry 64 2 ||| hwFlag entry 32 4 ||| hwFlag entry 2 16 |||
    hwFlag entry 4 8

def pagingGetFlags (s : Space) (va : Nat) : Kernel Nat := do
  let entry ← getPageEntry s va
  return entryFlags entry

/-- `if (entry & tested) entry &= ~cleared;` -/
def clearIf (tested cleared entry : Nat) : Nat :=
  if entry &&& tested ≠ 0 then entry &&& (2 ^ 32 - 1 ^^^ cleared) else entry

/-- The entry is tested for `PAGING_FLAG_ACCESS`, `DIRTY`, `WRITE` and `USER`, and the bits of
`PAGE_ENTRY_FLAG_*` are cleared. -/
def clearedEntry (entry : Nat) : Nat :=
  clearIf 8 4 (clearIf 16 2 (clearIf 2 64 (clearIf 4 32 entry)))

def pagingClearFlags (wp : Bool) (s : Space) (va flags : Nat) : Kernel Space := do
  let entry ← getPageEntry s va
  assert (flags &&& 1 = 0)
  setPageEntry wp s va (clearedEntry entry)

/-! ## What clearing has to do -/

/-- The flags are removed from those of the page, its frame is the same, and so are the
entries of all other pages. -/
structure FlagsCleared (s s' : Space) (va flags : Nat) : Prop where
  flags : ∃ old, pagingGetFlags s va = .ok old ∧ pagingGetFlags s' va = .ok (old.ldiff flags)
  frame : frameOf (s'.entry (va / pageSize)) = frameOf (s.entry (va / pageSize))
  others : ∀ q < 1024 * 1024, q ≠ va / pageSize → s'.entry q = s.entry q

/-- When the tests of the entry say what the mask says: for each flag that the entry has, the
bit that is tested in its place is set exactly if the mask has the flag. -/
structure TestsAgree (entry flags : Nat) : Prop where
  access : entry.testBit 5 = true → entry.testBit 2 = flags.testBit 2
  dirty : entry.testBit 6 = true → entry.testBit 1 = flags.testBit 1
  write : entry.testBit 1 = true → entry.testBit 4 = flags.testBit 4
  user : entry.testBit 2 = true → entry.testBit 3 = flags.testBit 3

/-! ## Bits -/

theorem and_bit_ne_zero (x a : Nat) : x &&& 2 ^ a ≠ 0 ↔ x.testBit a = true := by
  rw [Nat.and_two_pow]
  cases x.testBit a <;> simp

theorem testBit_hwFlag (x a b i : Nat) :
    (hwFlag x (2 ^ a) (2 ^ b)).testBit i = (x.testBit a && decide (i = b)) := by
  unfold hwFlag
  by_cases h : x.testBit a = true
  · rw [if_pos ((and_bit_ne_zero x a).2 h), Nat.testBit_two_pow, h, Bool.true_and]
    exact decide_eq_decide.2 eq_comm
  · rw [if_neg (fun h' => h ((and_bit_ne_zero x a).1 h')), Nat.zero_testBit]
    simp [h]

theorem testBit_entryFlags (entry i : Nat) : (entryFlags entry).testBit i =
    (entry.testBit 0 && decide (i = 0) || entry.testBit 6 && decide (i = 1) ||
      entry.testBit 5 && decide (i = 2) || entry.testBit 1 && decide (i = 4) ||
      entry.testBit 2 && decide (i = 3)) := by
  have h := testBit_hwFlag entry
  rw [entryFlags, Nat.testBit_or, Nat.testBit_or, Nat.testBit_or, Nat.testBit_or]
  rw [← h 0 0, ← h 6 1, ← h 5 2, ← h 1 4, ← h 2 3]
  rfl

theorem testBit_clearIf {entry : Nat} (hlt : entry < 2 ^ 32) (a b i : Nat) :
    (clearIf (2 ^ a) (2 ^ b) entry).testBit i =
      (entry.testBit i && !(entry.testBit a && decide (i = b))) := by
  unfold clearIf
  by_cases h : entry.testBit a = true
  · rw [if_pos ((and_bit_ne_zero entry a).2 h), Nat.testBit_and, Nat.testBit_xor,
      Nat.testBit_two_pow_sub_one, Nat.testBit_two_pow, h, Bool.true_and]
    by_cases hi : i < 32
    · have hcomm : decide (b = i) = decide (i = b) := decide_eq_decide.2 eq_comm
      simp [hi, hcomm]
    · have hbit : entry.testBit i = false :=
        Nat.testBit_lt_two_pow
        (Nat.lt_of_lt_of_le hlt (Nat.pow_le_pow_right (by decide) (by omega)))
      simp [hbit]
  · rw [if_neg (fun h' => h ((and_bit_ne_zero entry a).1 h'))]
    simp [h]

theorem clearIf_lt {entry : Nat} (hlt : entry < 2 ^ 32) (tested cleared : Nat) :
    clearIf tested cleared entry < 2 ^ 32 := by
  unfold clearIf
  split
  · exact Nat.lt_of_le_of_lt Nat.and_le_left hlt
  · exact hlt

theorem testBit_clearedEntry {entry : Nat} (hlt : entry < 2 ^ 32) (i : Nat) :
    (clearedEntry entry).testBit i = (entry.testBit i &&
      !(entry.testBit 2 && decide (i = 5)) && !(entry.testBit 1 && decide (i = 6)) &&
      !(entry.testBit 4 && decide (i = 1)) && !(entry.testBit 3 && decide (i = 2))) := by
  have h₁ := clearIf_lt hlt 4 32
  have h₂ := clearIf_lt h₁ 2 64
  have h₃ := clearIf_lt h₂ 16 2
  have e₁ := testBit_clearIf hlt 2 5
  have e₂ := testBit_clearIf h₁ 1 6
  have e₃ := testBit_clearIf h₂ 4 1
  have e₄ := testBit_clearIf h₃ 3 2
  simp only [Nat.reducePow] at e₁ e₂ e₃ e₄
  -- each test is of a bit that no earlier step has cleared
  have t₂ : (clearIf 4 32 entry).testBit 1 = entry.testBit 1 := by rw [e₁]; simp
  have t₃ : (clearIf 2 64 (clearIf 4 32 entry)).testBit 4 = entry.testBit 4 := by
    rw [e₂, e₁]; simp
  have t₄ : (clearIf 16 2 (clearIf 2 64 (clearIf 4 32 entry))).testBit 3 = entry.testBit 3 := by
    rw [e₃, e₂, e₁]; simp
  rw [clearedEntry, e₄, t₄, e₃, t₃, e₂, t₂, e₁]

theorem clearedEntry_frame {entry : Nat} (hlt : entry < 2 ^ 32) :
    frameOf (clearedEntry entry) = frameOf entry ∧
      present (clearedEntry entry) = present entry := by
  constructor
  · unfold frameOf
    rw [show pageSize = 2 ^ 12 from rfl]
    apply Nat.eq_of_testBit_eq
    intro i
    rw [Nat.testBit_div_two_pow, Nat.testBit_div_two_pow, testBit_clearedEntry hlt]
    have h₁ : i + 12 ≠ 5 := by omega
    have h₂ : i + 12 ≠ 6 := by omega
    have h₃ : i + 12 ≠ 1 := by omega
    have h₄ : i + 12 ≠ 2 := by omega
    simp [h₁, h₂, h₃, h₄]
  · have h := testBit_clearedEntry hlt 0
    simp only [Nat.testBit_zero, OfNat.zero_ne_ofNat, zero_ne_one, decide_false, Bool.and_false,
      Bool.not_false, Bool.and_true] at h
    exact h

/-- The flags are the old ones without those of the mask exactly if the tests agree. -/
theorem entryFlags_clearedEntry_iff {entry flags : Nat} (hlt : entry < 2 ^ 32)
    (hflags : flags.testBit 0 = false) :
    entryFlags (clearedEntry entry) = (entryFlags entry).ldiff flags ↔ TestsAgree entry flags := by
  constructor
  · intro h
    have hbit (i : Nat) := congrArg (Nat.testBit · i) h
    simp only [Nat.testBit_ldiff, testBit_entryFlags, testBit_clearedEntry hlt] at hbit
    refine ⟨fun he => ?_, fun he => ?_, fun he => ?_, fun he => ?_⟩
    · simpa [he] using hbit 2
    · simpa [he] using hbit 1
    · simpa [he] using hbit 4
    · simpa [he] using hbit 3
  · intro h
    -- a bit that the entry does not have is not there before or after
    have agree {x y z : Bool} (hxy : x = true → y = z) : (x && !y) = (x && !z) := by
      cases x with
      | false => rfl
      | true => rw [hxy rfl]
    have haccess := agree h.access
    have hdirty := agree h.dirty
    have hwrite := agree h.write
    have huser := agree h.user
    apply Nat.eq_of_testBit_eq
    intro i
    rw [Nat.testBit_ldiff, testBit_entryFlags, testBit_entryFlags]
    simp only [testBit_clearedEntry hlt]
    match i with
    | 0 => simp [hflags]
    | 1 => simpa using hdirty
    | 2 => simpa using haccess
    | 3 => simpa using huser
    | 4 => simpa using hwrite
    | i + 5 => simp

/-! ## The store -/

section Store

variable {wp : Bool} {s : Space}

theorem Recursive.entry_window (hs : Recursive s) {d : Nat} (hd : d < 1024) :
    s.entry (1023 * 1024 + d) = s.pde d := by
  have hdiv : (1023 * 1024 + d) / 1024 = 1023 := by omega
  have hmod : (1023 * 1024 + d) % 1024 = d := by omega
  rw [Space.entry, hdiv, hmod, if_pos hs.here, hs.self, Space.pde]

theorem setPageEntry_eq_ok_iff (hs : Recursive s) {va : Nat} (hva : va < 2 ^ 32)
    (hp : present (s.pde (getPdeIndex va)) = true) {entry : Nat} {s' : Space} :
    setPageEntry wp s va entry = .ok s' ↔
      (wp = true → writable (s.pde 1023) = true ∧ writable (s.pde (getPdeIndex va)) = true) ∧
      s' = s.put (s.tableOf (va / pageSize)) (va / pageSize % 1024) entry := by
  have hd : getPdeIndex va < 1024 := by unfold getPdeIndex; omega
  have haddr : pageTable (getPdeIndex va) + 4 * getPteIndex va =
      (1023 * 1024 + getPdeIndex va) * 4096 + 4 * getPteIndex va := by
    unfold pageTable pageSize; omega
  have hdiv : (1023 * 1024 + getPdeIndex va) / 1024 = 1023 := by omega
  simp only [setPageEntry, hs.load_dir hd, ok_bind, hp, Bool.not_true, Bool.false_eq_true, if_false]
  rw [haddr, kernelStore_eq_ok_iff (getPteIndex_lt va), hs.entry_window hd, hdiv, Space.tableOf,
    page_div, page_mod]
  simp only [hp, true_and]

variable {q v : Nat}

theorem Recursive.pde_put_entry (hs : Recursive s) (hq : q < 1024 * 1024)
    (hp : present (s.pde (q / 1024)) = true) (hframe : frameOf v = frameOf (s.entry q))
    (hpres : present v = present (s.entry q)) (d : Nat) :
    frameOf ((s.put (s.tableOf q) (q % 1024) v).pde d) = frameOf (s.pde d) ∧
      present ((s.put (s.tableOf q) (q % 1024) v).pde d) = present (s.pde d) := by
  simp only [Space.pde, Space.put]
  split
  · next hsame =>
    -- the page is in the window, its entry is that of the directory
    have hself : frameOf (s.pde (q / 1024)) = frameOf (s.pde 1023) :=
      hsame.1.symm.trans hs.self.symm
    have hdir := hs.own (q / 1024) 1023 (by omega) (by decide) hp hs.here hself
    have hentry : s.entry q = s.mem s.dir d := by
      rw [Space.entry, if_pos hp, hsame.2, hdir, hs.self]
    rw [hframe, hpres, hentry]
    exact ⟨rfl, rfl⟩
  · exact ⟨rfl, rfl⟩

theorem Recursive.put_same_frame (hs : Recursive s) (hq : q < 1024 * 1024)
    (hp : present (s.pde (q / 1024)) = true) (hframe : frameOf v = frameOf (s.entry q))
    (hpres : present v = present (s.entry q)) :
    Recursive (s.put (s.tableOf q) (q % 1024) v) := by
  have hpde := hs.pde_put_entry hq hp hframe hpres
  constructor
  · rw [(hpde 1023).2]
    exact hs.here
  · rw [(hpde 1023).1]
    exact hs.self
  · intro d e hd he
    rw [(hpde d).1, (hpde d).2, (hpde e).1, (hpde e).2]
    exact hs.own d e hd he

theorem setPageEntry_entry (hs : Recursive s) (hq : q < 1024 * 1024)
    (hp : present (s.pde (q / 1024)) = true) (hframe : frameOf v = frameOf (s.entry q))
    (hpres : present v = present (s.entry q)) {r : Nat} (hr : r < 1024 * 1024) :
    (s.put (s.tableOf q) (q % 1024) v).entry r = if r = q then v else s.entry r := by
  have hpde := hs.pde_put_entry hq hp hframe hpres (r / 1024)
  unfold Space.entry
  rw [hpde.1, hpde.2]
  by_cases hpr : present (s.pde (r / 1024)) = true
  · rw [if_pos hpr, if_pos hpr]
    simp only [Space.put, Space.tableOf]
    refine if_congr ⟨fun hsame => ?_, fun he => by rw [he]; exact ⟨rfl, rfl⟩⟩ rfl rfl
    have := hs.own (r / 1024) (q / 1024) (by omega) (by omega) hpr hp hsame.1
    omega
  · have hne : r ≠ q := by
      intro he
      rw [he] at hpr
      exact hpr hp
    rw [if_neg hpr, if_neg hne, if_neg hpr]

end Store

/-- Exactly when `paging_clear_flags` removes the flags of the mask from those of a mapped page
and changes nothing else. -/
theorem clearFlags_exact_iff (wp : Bool) {s : Space} (hs : Recursive s)
    (hword : ∀ f w, s.mem f w < 2 ^ 32) {va flags : Nat} (hva : va < 2 ^ 32)
    (hp : present (s.entry (va / pageSize)) = true) (hflags : flags &&& 1 = 0) :
    (∃ s', pagingClearFlags wp s va flags = .ok s' ∧ FlagsCleared s s' va flags) ↔
      (wp = true → writable (s.pde 1023) = true ∧ writable (s.pde (getPdeIndex va)) = true) ∧
        TestsAgree (s.entry (va / pageSize)) flags := by
  have hpde := present_pde hp
  have hq : va / pageSize < 1024 * 1024 := by unfold pageSize; omega
  have hget := getPageEntry_eq hs hva (page_div va ▸ hpde)
  have hlt : s.entry (va / pageSize) < 2 ^ 32 := by
    rw [Space.entry, if_pos hpde]
    exact hword _ _
  obtain ⟨hframe, hpres⟩ := clearedEntry_frame hlt
  have hbit : flags.testBit 0 = false := by
    rw [Nat.testBit_zero]
    rw [Nat.and_one_is_mod] at hflags
    simp [hflags]
  have hiff := entryFlags_clearedEntry_iff hlt hbit
  -- the state that the store leaves
  have hs' := hs.put_same_frame hq hpde hframe hpres
  have hentry := fun r (hr : r < 1024 * 1024) => setPageEntry_entry hs hq hpde hframe hpres hr
  have hrun (s' : Space) : pagingClearFlags wp s va flags = .ok s' ↔
      setPageEntry wp s va (clearedEntry (s.entry (va / pageSize))) = .ok s' := by
    rw [pagingClearFlags, hget, ok_bind]
    simp [assert, hflags]
  have hget' : pagingGetFlags (s.put (s.tableOf (va / pageSize)) (va / pageSize % 1024)
      (clearedEntry (s.entry (va / pageSize)))) va =
        .ok (entryFlags (clearedEntry (s.entry (va / pageSize)))) := by
    rw [pagingGetFlags, getPageEntry_eq hs' hva, hentry _ hq, if_pos rfl]
    · rfl
    · rw [(hs.pde_put_entry hq hpde hframe hpres _).2, ← page_div]
      exact hpde
  have hold : pagingGetFlags s va = .ok (entryFlags (s.entry (va / pageSize))) := by
    rw [pagingGetFlags, hget]
    rfl
  constructor
  · intro hout
    obtain ⟨s', hret, hcleared⟩ := hout
    rw [hrun, setPageEntry_eq_ok_iff hs hva (page_div va ▸ hpde)] at hret
    obtain ⟨hwrite, rfl⟩ := hret
    obtain ⟨old, hold', hnew⟩ := hcleared.flags
    rw [hold] at hold'
    rw [hget'] at hnew
    refine ⟨hwrite, hiff.1 ?_⟩
    rw [Except.ok.inj hnew, Except.ok.inj hold']
  · intro hsafe
    refine ⟨_, (hrun _).2 ((setPageEntry_eq_ok_iff hs hva (page_div va ▸ hpde)).2
      ⟨hsafe.1, rfl⟩), ?_, ?_, ?_⟩
    · refine ⟨_, hold, ?_⟩
      rw [hget', hiff.2 hsafe.2]
    · rw [hentry _ hq, if_pos rfl, hframe]
    · intro q hq' hne
      rw [hentry q hq', if_neg hne]

/-- The page 5 of the table is neither accessed nor dirty: that can be cleared. -/
theorem accessedAndDirty_cleared :
    ∃ s', pagingClearFlags true (oneTable 0x300 0x300) 0x5000 6 = .ok s' ∧
      FlagsCleared (oneTable 0x300 0x300) s' 0x5000 6 := by
  refine (clearFlags_exact_iff true (recursive_oneTable (by decide))
    (words_oneTable (by decide) (by decide)) (by decide) (by decide) (by decide)).2 ?_
  exact ⟨by decide, ⟨by decide, by decide, by decide, by decide⟩⟩

/-- The page may be written. `PAGING_FLAG_WRITE` is not removed: the bit that is tested is that
of the cache. -/
theorem write_not_cleared : Recursive (oneTable 0x300 0x300) ∧
    (∀ f w, (oneTable 0x300 0x300).mem f w < 2 ^ 32) ∧
    present ((oneTable 0x300 0x300).entry 5) = true ∧ 16 &&& 1 = 0 ∧
    pagingGetFlags (oneTable 0x300 0x300) 0x5000 = .ok 17 ∧
    ∃ s', pagingClearFlags true (oneTable 0x300 0x300) 0x5000 16 = .ok s' ∧
      pagingGetFlags s' 0x5000 = .ok 17 ∧ Nat.ldiff 17 16 = 1 := by
  refine ⟨recursive_oneTable (by decide), words_oneTable (by decide) (by decide), by decide,
    by decide, by decide +kernel, ?_⟩
  decide +kernel

end X86Kernel.Paging
