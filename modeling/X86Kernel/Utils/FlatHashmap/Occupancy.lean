import X86Kernel.Lib.Run
import X86Kernel.Utils.FlatHashmap.Table

/- The occupancy of the flat hash map.

   What is proved: every call keeps the counters, the load and the probe paths
   (`step_sound`), whatever keys are inserted, so that along every run
   every probe ends, `find_exact_entry` has an EMPTY slot and `need_rehash` has
   something to divide by (`run_keeps_probing`). The only fault is that of
   `kmalloc`, which refuses the table of 2^27 slots.

   This needs the table of the first map to have as many slots as its capacity:
   28 bytes a slot are computed in 32 bits, and from 2^29 slots on the block is
   too small (`capacity_wraps`). -/
namespace X86Kernel.Hash
open X86Kernel.Lib

/-! ## Looking for a key -/

theorem Sound.exists_empty {m : FlatHashmap} (hs : Sound m) :
    ∃ e ∈ m.entries, e.state = .empty := by
  have hpos := hs.emptyCount_pos
  rw [hs.empty] at hpos
  obtain ⟨e, he, hstate⟩ := List.countP_pos_iff.1 hpos
  exact ⟨e, he, of_decide_eq_true hstate⟩

theorem Sound.exists_free {m : FlatHashmap} (hs : Sound m) : ∃ e ∈ m.entries, e.state ≠ .used := by
  obtain ⟨e, he, hstate⟩ := hs.exists_empty
  exact ⟨e, he, by simp [hstate]⟩

/-- Where an EMPTY slot ends the probe, `find_exact_entry` finds an entry that is reached
from its home slot, or there is none with this hash and key. -/
theorem findExactEntry_cases {m : FlatHashmap} (hshape : Shape m.entries m.capacity)
    (hempty : m.emptyCount = countState m.entries .empty) (hpos : 0 < m.emptyCount)
    (hash : UInt64) (key : Key) :
    (∃ i e, findExactEntry m hash key = .ok (some i) ∧ m.entries[i]? = some e ∧
      e.state = .used ∧ e.hash = hash ∧ e.keyData = key ∧
      Reached m.entries m.capacity hash i) ∨
    (findExactEntry m hash key = .ok none ∧
      ∀ i e, m.entries[i]? = some e → e.state = .used → e.hash = hash → e.keyData = key →
        ¬ Reached m.entries m.capacity hash i) := by
  have hhome : home m.capacity hash < m.capacity := Nat.mod_lt _ (pow_pos_of hshape.pow)
  obtain ⟨e₀, he₀, hstate⟩ : ∃ e ∈ m.entries, e.state = .empty := by
    have hcount := hpos
    rw [hempty] at hcount
    obtain ⟨e, he, hs⟩ := List.countP_pos_iff.1 hcount
    exact ⟨e, he, of_decide_eq_true hs⟩
  obtain ⟨j, hj, hje⟩ := List.mem_iff_getElem.1 he₀
  have hj' : m.entries[j]? = some e₀ := by rw [List.getElem?_eq_getElem hj, hje]
  obtain ⟨d, hd, hfirst⟩ := exists_first (testAt m.entries fun e => decide (e.state = .empty) ||
    (decide (e.state = .used) && sameKey e hash key)) (home m.capacity hash)
    (hshape.length ▸ hj) (by simp [testAt_some hj', hstate])
  obtain ⟨e, he⟩ := hshape.offset_get (home m.capacity hash) d
  have hcode : findExactEntry m hash key =
      .ok (if e.state = .empty then none
        else some (offset m.capacity (home m.capacity hash) d)) := by
    have hloop := findExactEntryLoop_eq hshape hash key m.capacity hhome
      (scan_eq_some d m.capacity hhome hd hfirst) he
    simp only [findExactEntry, assert, ne_eq, hpos.ne', not_false_eq_true, decide_true, if_true,
      ok_bind, slotOf_eq hshape.pow, hloop]
  have hstop := hfirst.1
  rw [testAt_some he, Bool.or_eq_true, Bool.and_eq_true, decide_eq_true_eq,
    decide_eq_true_eq] at hstop
  by_cases hemp : e.state = .empty
  · -- an entry with the key would have been met before
    refine .inr ⟨by rw [hcode, if_pos hemp], ?_⟩
    rintro i x hx hxused hxhash hkey ⟨d', hd', rfl, hpath⟩
    rcases Nat.lt_trichotomy d' d with hlt | rfl | hgt
    · have hno := hfirst.2 d' hlt
      rw [testAt_some hx] at hno
      simp [hxused, sameKey_iff.2 ⟨hxhash, hkey⟩] at hno
    · obtain rfl := Option.some.inj (hx.symm.trans he)
      rw [hxused] at hemp
      cases hemp
    · exact hpath d hgt e he hemp
  · obtain ⟨hused, hsame⟩ := hstop.resolve_left hemp
    obtain ⟨hhash, hkey⟩ := sameKey_iff.1 hsame
    refine .inl ⟨_, e, by rw [hcode, if_neg hemp], he, hused, hhash, hkey, d, hd, rfl, ?_⟩
    intro c hc x hx hxempty
    have hno := hfirst.2 c hc
    rw [testAt_some hx] at hno
    simp [hxempty] at hno

theorem findExactEntry_ok {m : FlatHashmap} (h : Sound m) (key : Key) :
    (∃ i e, findExactEntry m (m.hash key) key = .ok (some i) ∧ m.entries[i]? = some e ∧
      e.state = .used ∧ e.keyData = key) ∨
    (findExactEntry m (m.hash key) key = .ok none ∧
      ∀ e ∈ usedEntries m.entries, e.keyData ≠ key) := by
  rcases findExactEntry_cases h.shape h.empty h.emptyCount_pos (m.hash key) key with
    ⟨i, e, hfind, he, hused, -, hkey, -⟩ | ⟨hfind, hnone⟩
  · exact .inl ⟨i, e, hfind, he, hused, hkey⟩
  · refine .inr ⟨hfind, fun x hx hkey => ?_⟩
    obtain ⟨hxm, hxused⟩ := mem_usedEntries.1 hx
    obtain ⟨i, hi, hix⟩ := List.mem_iff_getElem.1 hxm
    have hi' : m.entries[i]? = some x := by rw [List.getElem?_eq_getElem hi, hix]
    have hxhash : x.hash = m.hash key := by rw [h.hashes x hxm hxused, hkey]
    exact hnone i x hi' hxused hxhash hkey (hxhash ▸ h.reach i x hi' hxused)

theorem findExactEntryInterval_ok {m : FlatHashmap} (h : Sound m) (key : Key) {d : Nat}
    (hd : d < m.capacity)
    (hpath : ∀ c < d, ∀ x, m.entries[offset m.capacity (home m.capacity (m.hash key)) c]? = some x →
      x.state = .used) :
    (∃ i e, findExactEntryInterval m (offset m.capacity (home m.capacity (m.hash key)) d)
        (m.hash key) key m.capacity (slotOf (m.hash key) m.capacity) = .ok (some i) ∧
      m.entries[i]? = some e ∧ e.state = .used ∧ e.hash = m.hash key ∧ e.keyData = key) ∨
    (findExactEntryInterval m (offset m.capacity (home m.capacity (m.hash key)) d)
        (m.hash key) key m.capacity (slotOf (m.hash key) m.capacity) = .ok none ∧
      ∀ c < d, ∀ x, m.entries[offset m.capacity (home m.capacity (m.hash key)) c]? = some x →
        x.hash = m.hash key → x.keyData ≠ key) := by
  have hhome : home m.capacity (m.hash key) < m.capacity := Nat.mod_lt _ (pow_pos_of h.shape.pow)
  rw [slotOf_eq h.shape.pow]
  generalize hto : offset m.capacity (home m.capacity (m.hash key)) d = toIndex
  obtain ⟨c, hc, hfirst⟩ := exists_first (fun j => decide (j = toIndex) ||
    testAt m.entries (fun e => decide (e.state = .empty) || sameKey e (m.hash key) key) j)
    (home m.capacity (m.hash key))
    (offset_lt (pow_pos_of h.shape.pow) (home m.capacity (m.hash key)) d) (by simp [hto])
  obtain ⟨e, he⟩ := h.shape.offset_get (home m.capacity (m.hash key)) c
  have hcode := findExactEntryInterval_eq h.shape toIndex (m.hash key) key m.capacity hhome
    (scan_eq_some c m.capacity hhome hc hfirst) he
  rw [hcode]
  have hcd : c ≤ d := by
    by_contra hgt
    have hno := hfirst.2 d (by omega)
    simp [hto] at hno
  rcases Nat.lt_or_eq_of_le hcd with hlt | rfl
  · -- stopped before the free slot: at an entry in use, so at the key
    have hused := hpath c hlt e he
    have hne : offset m.capacity (home m.capacity (m.hash key)) c ≠ toIndex := by
      intro heq
      exact absurd (offset_inj hc hd (heq.trans hto.symm)) (by omega)
    have hsame : sameKey e (m.hash key) key = true := by
      have hstop := hfirst.1
      simpa [hne, testAt_some he, hused] using hstop
    refine .inl ⟨_, e, by rw [if_neg (by simp [hne, hused])], he, hused, sameKey_iff.1 hsame⟩
  · refine .inr ⟨by rw [if_pos (.inl hto)], fun c' hc' x hx hhash hkey => ?_⟩
    have hno := hfirst.2 c' hc'
    simp [testAt_some hx, sameKey_iff.2 ⟨hhash, hkey⟩] at hno

/-! ## One call -/

theorem Probing.set {m m' : FlatHashmap} (h : Probing m) {i : Nat} {x y : Entry}
    (hx : m.entries[i]? = some x) (hent : m'.entries = m.entries.set i y)
    (hcap : m'.capacity = m.capacity) (hfun : m'.hash = m.hash) (hy : y.state ≠ .empty)
    (hhash : y.state = .used → y.hash = m.hash y.keyData ∧ Reached m.entries m.capacity y.hash i)
    (hused : m'.usedCount + (if x.state = .used then 1 else 0) =
      m.usedCount + (if y.state = .used then 1 else 0))
    (hdeleted : m'.deleteCount + (if x.state = .delete then 1 else 0) =
      m.deleteCount + (if y.state = .delete then 1 else 0))
    (hempty : m'.emptyCount + (if x.state = .empty then 1 else 0) = m.emptyCount) : Probing m' := by
  have h₁ := countState_set hx y .used
  have h₂ := countState_set hx y .delete
  have h₃ := countState_set hx y .empty
  rw [← h.used] at h₁
  rw [← h.deleted] at h₂
  rw [← h.empty, if_neg hy] at h₃
  refine ⟨?_, ?_, ?_, ?_, ?_, ?_, ?_, ?_⟩
  · rw [hent, hcap]
    exact h.shape.set i y
  · rw [hcap]
    exact h.min
  · rw [hcap]
    exact h.fits
  · rw [hent]
    omega
  · rw [hent]
    omega
  · rw [hent]
    omega
  · intro e he hstate
    rw [hent] at he
    rw [hfun]
    rcases List.mem_or_eq_of_mem_set he with he | rfl
    · exact h.hashes e he hstate
    · exact (hhash hstate).1
  · rw [hent, hcap]
    exact h.reach.set hy fun hs => (hhash hs).2

theorem newEntries_refused {cap : Nat} (hpow : ∃ n, cap = 2 ^ n) (hfits : entrySize * cap ≤ 2 ^ 31)
    (hlarge : 2 ^ 31 < entrySize * (cap * 2)) : newEntries (cap * 2) = .error .assertion := by
  have hu : u32 (entrySize * (cap * 2)) = entrySize * (cap * 2) := u32_of_lt (by
    obtain ⟨n, rfl⟩ := hpow
    have hn : n < 27 := by
      by_contra hge
      have : 2 ^ 27 ≤ 2 ^ n := Nat.pow_le_pow_right (by decide) (by omega)
      simp only [entrySize] at hfits
      omega
    have : 2 ^ n ≤ 2 ^ 26 := Nat.pow_le_pow_right (by decide) (by omega)
    simp only [entrySize]
    omega)
  have hno : ¬ entrySize * (cap * 2) ≤ 2 ^ 31 := by omega
  simp only [newEntries, hu, assert, hno, decide_false, Bool.false_eq_true, if_false]
  rfl

theorem handleRehash_refused {m : FlatHashmap} (h : Probing m)
    (hload : (m.usedCount + m.deleteCount) * 100 / m.capacity > 75)
    (hlarge : 2 ^ 31 < entrySize * (m.capacity * 2)) : handleRehash m = .error .assertion := by
  have hcap := pow_pos_of h.shape.pow
  have hle : m.capacity ≤ m.capacity * 2 := by omega
  simp only [handleRehash, needResize, divide, hcap.ne', if_false, ok_bind, pure_eq_ok, hload,
    decide_true, if_true, rehash, assert, hle, newEntries_refused h.shape.pow h.fits hlarge]
  rfl

/-- An entry goes into a slot that is not in use: the table grows by the entry, or
`kmalloc` refuses the larger table. -/
theorem insertEntry_sound {m : FlatHashmap} (hs : Sound m) {key : Key} {i : Nat} {x : Entry}
    (hx : m.entries[i]? = some x) (hxused : x.state ≠ .used)
    (hreached : Reached m.entries m.capacity (m.hash key) i) (data : Ptr) (flags : BitVec 8) :
    (∃ m' y, insertEntry m i (m.hash key) key data flags = .ok m' ∧ Sound m' ∧
      (y.keyData = key ∧ y.data = data) ∧
      (usedEntries m'.entries).Perm (y :: usedEntries m.entries)) ∨
    (x.state = .empty ∧ (m.usedCount + m.deleteCount + 1) * 100 / m.capacity > 75 ∧
      2 ^ 31 < entrySize * (m.capacity * 2) ∧
      insertEntry m i (m.hash key) key data flags = .error .assertion) := by
  simp only [insertEntry, hx]
  generalize hy : (Entry.mk (m.hash key) key data .used (flags &&& insFlagKeyCopy != 0#8)) = y
  have hyused : y.state = .used := by rw [← hy]
  have hyhash : y.hash = m.hash key := by rw [← hy]
  have hykey : y.keyData = key := by rw [← hy]
  have hdel : x.state = .delete → 0 < m.deleteCount := by
    intro hd
    rw [hs.deleted]
    exact List.countP_pos_iff.2 ⟨x, List.mem_of_getElem? hx, by simp [hd]⟩
  have hemp : x.state = .empty → 0 < m.emptyCount := by
    intro he
    rw [hs.empty]
    exact List.countP_pos_iff.2 ⟨x, List.mem_of_getElem? hx, by simp [he]⟩
  generalize hm₁ : ({ m with
      usedCount := m.usedCount + 1
      emptyCount := if x.state = .empty then m.emptyCount - 1 else m.emptyCount
      deleteCount := if x.state = .delete then m.deleteCount - 1 else m.deleteCount
      entries := m.entries.set i y } : FlatHashmap) = m₁
  have hload := hs.load
  have hprobe : Probing m₁ := by
    refine hs.toProbing.set hx (y := y) ?_ ?_ ?_ (by simp [hyused])
      (fun _ => ⟨by rw [hyhash, hykey], ?_⟩)
      ?_ ?_ ?_
    · rw [← hm₁]
    · rw [← hm₁]
    · rw [← hm₁]
    · rw [hyhash]
      exact hreached
    · rw [← hm₁, if_neg hxused, if_pos hyused]
    · rw [← hm₁, hyused]
      simp only [reduceCtorEq, if_false]
      split
      · rename_i hd
        have := hdel hd
        omega
      · rfl
    · rw [← hm₁]
      simp only
      split
      · rename_i he
        have := hemp he
        omega
      · rfl
  have hcap : m₁.capacity = m.capacity := by rw [← hm₁]
  have hpos : 0 < m₁.usedCount + m₁.deleteCount := by
    rw [← hm₁]
    simp only
    omega
  by_cases hgrow : (m₁.usedCount + m₁.deleteCount) * 100 / m₁.capacity > 75 ∧
      2 ^ 31 < entrySize * (m₁.capacity * 2)
  · -- a DELETE slot leaves the load as it was
    right
    have hxempty : x.state = .empty := by
      cases hxs : x.state with
      | used => exact absurd hxs hxused
      | empty => rfl
      | delete =>
        have := hdel hxs
        have hbig := hgrow.1
        rw [← hm₁] at hbig
        simp only [hxs, if_true] at hbig
        rw [show m.usedCount + 1 + (m.deleteCount - 1) = m.usedCount + m.deleteCount by omega]
          at hbig
        omega
    refine ⟨hxempty, ?_, hcap ▸ hgrow.2, handleRehash_refused hprobe hgrow.1 hgrow.2⟩
    have hbig := hgrow.1
    rw [← hm₁] at hbig
    simp only [hxempty, reduceCtorEq, if_false] at hbig
    rwa [show m.usedCount + m.deleteCount + 1 = m.usedCount + 1 + m.deleteCount by omega]
  · left
    obtain ⟨m', hm', hsound, hperm, -⟩ := handleRehash_ok hprobe hpos (by
      intro hbig
      by_contra hge
      exact hgrow ⟨hbig, by omega⟩)
    have hused : (usedEntries m₁.entries).Perm (y :: usedEntries m.entries) := by
      rw [← hm₁]
      exact usedEntries_set_used hx hxused hyused
    exact ⟨m', y, hm', hsound, ⟨hykey, by rw [← hy]⟩, hperm.trans hused⟩

theorem insertEntry_again_sound {m : FlatHashmap} (hs : Sound m) {key : Key} {i : Nat} {e : Entry}
    (he : m.entries[i]? = some e) (hused : e.state = .used) (hhash : e.hash = m.hash key)
    (data : Ptr) (flags : BitVec 8) :
    ∃ m' y rest, insertEntry { cleanEntry m i e .empty with
        usedCount := m.usedCount - 1, emptyCount := m.emptyCount + 1 } i (m.hash key) key data flags
        = .ok m' ∧ Sound m' ∧ (y.keyData = key ∧ y.data = data) ∧
      (usedEntries m.entries).Perm (e :: rest) ∧ (usedEntries m'.entries).Perm (y :: rest) := by
  have hi : i < m.entries.length := (List.getElem?_eq_some_iff.1 he).1
  have hpos : 0 < m.usedCount := by
    rw [hs.used]
    exact List.countP_pos_iff.2 ⟨e, List.mem_of_getElem? he, by simp [hused]⟩
  simp only [insertEntry, cleanEntry, List.getElem?_set_self hi, reduceCtorEq, if_false, if_true,
    List.set_set]
  generalize hy : (Entry.mk (m.hash key) key data .used (flags &&& insFlagKeyCopy != 0#8)) = y
  have hyused : y.state = .used := by rw [← hy]
  have hyhash : y.hash = m.hash key := by rw [← hy]
  have hykey : y.keyData = key := by rw [← hy]
  generalize hm₁ : (FlatHashmap.mk _ _ _ _ _ _ _ _) = m₁
  have hprobe : Probing m₁ := by
    refine hs.toProbing.set he (y := y) ?_ ?_ ?_ (by simp [hyused])
      (fun _ => ⟨by rw [hyhash, hykey], ?_⟩) ?_ ?_ ?_
    · rw [← hm₁]
    · rw [← hm₁]
    · rw [← hm₁]
    · rw [hyhash, ← hhash]
      exact hs.reach i e he hused
    · rw [← hm₁, if_pos hused, if_pos hyused]
      simp only
      omega
    · rw [← hm₁, hused, hyused]
    · rw [← hm₁, hused]
      simp
  have hload := hs.load
  obtain ⟨m', hm', hsound, hperm, -⟩ := handleRehash_ok hprobe (by rw [← hm₁]; simp only; omega) (by
    rw [← hm₁]
    simp only [show m.usedCount - 1 + 1 = m.usedCount by omega]
    omega)
  obtain ⟨rest, hrest, hset⟩ := exists_usedEntries he hused
  have hafter : (usedEntries m₁.entries).Perm (y :: rest) := by
    have := hset y
    rw [if_pos hyused] at this
    rw [← hm₁]
    exact this
  exact ⟨m', y, rest, hm', hsound, ⟨hykey, by rw [← hy]⟩, hrest, hperm.trans hafter⟩

theorem fhashmapDelete_sound {m : FlatHashmap} (hs : Sound m) (key : Key) :
    (∃ m' e rest, fhashmapDelete m key = .ok (m', some e.data) ∧ Sound m' ∧ e.keyData = key ∧
      (usedEntries m.entries).Perm (e :: rest) ∧ (usedEntries m'.entries).Perm rest) ∨
    (fhashmapDelete m key = .ok (m, none) ∧ ∀ e ∈ usedEntries m.entries, e.keyData ≠ key) := by
  rcases findExactEntry_ok hs key with ⟨i, e, hfind, he, hused, hkey⟩ | ⟨hfind, hnone⟩
  · left
    obtain ⟨rest, hrest, hset⟩ := exists_usedEntries he hused
    have hpos : 0 < m.usedCount := by
      rw [hs.used]
      exact List.countP_pos_iff.2 ⟨e, List.mem_of_getElem? he, by simp [hused]⟩
    generalize hm₁ : ({ cleanEntry m i e .delete with
      deleteCount := (cleanEntry m i e .delete).deleteCount + 1
      usedCount := (cleanEntry m i e .delete).usedCount - 1 } : FlatHashmap) = m₁
    generalize hy :
      ({ e with keyData := [], hash := 0, allocated := false, state := .delete } : Entry) = y
    have hydel : y.state = .delete := by rw [← hy]
    have hent : m₁.entries = m.entries.set i y := by rw [← hm₁, ← hy]; rfl
    have hprobe : Probing m₁ := by
      refine hs.toProbing.set he hent ?_ ?_ (by simp [hydel]) (fun hu => ?_) ?_ ?_ ?_
      · rw [← hm₁]; rfl
      · rw [← hm₁]; rfl
      · rw [hydel] at hu
        cases hu
      · rw [← hm₁, hused, hydel]
        simp only [cleanEntry, if_true, reduceCtorEq, if_false]
        omega
      · rw [← hm₁, hused, hydel]
        simp [cleanEntry]
      · rw [← hm₁, hused]
        simp [cleanEntry]
    have hload := hs.load
    have hcounts : m₁.usedCount + m₁.deleteCount = m.usedCount + m.deleteCount := by
      rw [← hm₁]
      simp only [cleanEntry]
      omega
    have hcap : m₁.capacity = m.capacity := by rw [← hm₁]; rfl
    obtain ⟨m', hm', hsound, hperm, -⟩ := handleRehash_ok hprobe (by omega) (by
      rw [hcounts, hcap]
      omega)
    refine ⟨m', e, rest, ?_, hsound, hkey, hrest, hperm.trans ?_⟩
    · simp only [fhashmapDelete, hfind, ok_bind, he, hm₁, hm', pure_eq_ok]
    · have := hset y
      rw [hydel] at this
      rw [hent]
      simpa using this
  · right
    exact ⟨by simp only [fhashmapDelete, hfind, ok_bind, pure_eq_ok], hnone⟩

theorem sound_of_zero {m : FlatHashmap} (hpow : ∃ n, m.capacity = 2 ^ n)
    (hmin : minCapacity ≤ m.capacity) (hfits : entrySize * m.capacity ≤ 2 ^ 31)
    (hent : m.entries = List.replicate m.capacity .zero) (hused : m.usedCount = 0)
    (hdel : m.deleteCount = 0) (hemp : m.emptyCount = m.capacity) :
    Sound m ∧ usedEntries m.entries = [] := by
  have hfill := filled_replicate hpow
  rw [← hent] at hfill
  have hnone : usedEntries m.entries = [] := hfill.perm.eq_nil
  have hcount : countState m.entries .used = 0 := by rw [← length_usedEntries, hnone]; rfl
  have hsum := countState_sum m.entries
  rw [hfill.shape.length, hfill.clean, hcount] at hsum
  refine ⟨⟨⟨hfill.shape, hmin, hfits, by rw [hused, hcount], by rw [hdel, hfill.clean], by omega,
    ?_, hfill.reach⟩, ?_⟩, hnone⟩
  · intro e he hstate
    have hmem : e ∈ usedEntries m.entries := mem_usedEntries.2 ⟨he, hstate⟩
    rw [hnone] at hmem
    cases hmem
  · rw [hused, hdel]
    simp

theorem fhashmapClear_sound {m : FlatHashmap} (hs : Sound m) :
    ∃ m', fhashmapClear m = .ok m' ∧ Sound m' ∧ usedEntries m'.entries = [] := by
  refine ⟨_, by rw [fhashmapClear, if_pos hs.shape.length.ge], ?_⟩
  refine sound_of_zero hs.shape.pow hs.min hs.fits ?_ rfl rfl rfl
  simp only [hs.shape.length]

/-- An insert returns with the key in the table and at most one entry more, or
`kmalloc` refuses the larger table. -/
theorem fhashmapInsert_sound {m : FlatHashmap} (hs : Sound m) (key : Key) (data : Ptr)
    (flags : BitVec 8) :
    (∃ m' c, fhashmapInsert m key data flags = .ok (m', c) ∧ Sound m' ∧
      (∃ e ∈ usedEntries m'.entries, e.keyData = key) ∧
      ∀ e ∈ usedEntries m'.entries, (e.keyData = key ∧ e.data = data) ∨
        e ∈ usedEntries m.entries) ∨
    (newEntries (m.capacity * 2) = .error .assertion ∧
      fhashmapInsert m key data flags = .error .assertion) := by
  obtain ⟨d, hd, x, hslot, hx, hxused, hpath⟩ :=
    findFreeSlot_ok hs.shape (m.hash key) (hs.exists_free)
  rcases findExactEntryInterval_ok hs key hd hpath with
    ⟨i, e, hfind, he, hused, hhash, hkey⟩ | ⟨hfind, -⟩
  · left
    by_cases hover : flags &&& insFlagOverwrite = 0#8
    · refine ⟨m, -1, ?_, hs, ⟨e, mem_usedEntries.2 ⟨List.mem_of_getElem? he, hused⟩, hkey⟩,
        fun e he => .inr he⟩
      simp only [fhashmapInsert, hslot, ok_bind, hfind, hover, if_true, pure_eq_ok]
    · obtain ⟨m', y, rest, hm', hsound, hy, hrest, hperm⟩ :=
        insertEntry_again_sound hs he hused (show e.hash = m.hash key from hhash) data flags
      have hins : insertEntry { cleanEntry m i e .empty with
          usedCount := (cleanEntry m i e .empty).usedCount - 1
          emptyCount := (cleanEntry m i e .empty).emptyCount + 1 } i (m.hash key) key data flags =
          .ok m' := hm'
      refine ⟨m', 0, ?_, hsound, ⟨y, hperm.mem_iff.2 (by simp), hy.1⟩, fun e he => ?_⟩
      · simp only [fhashmapInsert, hslot, ok_bind, hfind, hover, if_false, he, hins, pure_eq_ok]
      · rcases List.mem_cons.1 (hperm.mem_iff.1 he) with rfl | he
        · exact .inl hy
        · exact .inr (hrest.mem_iff.2 (List.mem_cons_of_mem _ he))
  · rcases insertEntry_sound hs hx hxused (reached_of_used hd hpath) data flags with
      ⟨m', y, hm', hsound, hy, hperm⟩ | ⟨-, -, hlarge, herr⟩
    · left
      refine ⟨m', 0, ?_, hsound, ⟨y, hperm.mem_iff.2 (by simp), hy.1⟩, fun e he => ?_⟩
      · simp only [fhashmapInsert, hslot, ok_bind, hfind, hm', pure_eq_ok]
      · rcases List.mem_cons.1 (hperm.mem_iff.1 he) with rfl | he
        · exact .inl hy
        · exact .inr he
    · right
      refine ⟨newEntries_refused hs.shape.pow hs.fits hlarge, ?_⟩
      simp only [fhashmapInsert, hslot, ok_bind, hfind, herr]
      rfl

theorem initFhashmapCustom_sound {capacity : Nat} (hcap : u32 capacity ≤ 2 ^ 26)
    (hash : Key → UInt64) (destroyCb : Bool) :
    ∃ m, initFhashmapCustom capacity hash destroyCb = .ok m ∧ Sound m ∧
      usedEntries m.entries = [] := by
  obtain ⟨j, hj, hpow⟩ : ∃ j ≤ 26, alignUpPow2 (u32 capacity) = 2 ^ j := by
    by_cases hzero : u32 capacity = 0
    · exact ⟨0, by decide, by rw [hzero]; rfl⟩
    · obtain ⟨j, hj, hpow, -⟩ := exists_alignUpPow2 (Nat.pos_of_ne_zero hzero) hcap (by decide)
      exact ⟨j, hj, hpow⟩
  have hle : 2 ^ j ≤ 2 ^ 26 := Nat.pow_le_pow_right (by decide) hj
  have hpos := Nat.two_pow_pos j
  generalize hc : (if 2 ^ j < minCapacity then minCapacity else 2 ^ j) = c
  have hcpow : ∃ n, c = 2 ^ n := by
    rw [← hc]
    split
    · exact ⟨2, rfl⟩
    · exact ⟨j, rfl⟩
  have hcmin : minCapacity ≤ c := by
    rw [← hc]
    split <;> omega
  have hfits : entrySize * c ≤ 2 ^ 31 := by
    have hmin : minCapacity = 4 := rfl
    have hclt : c ≤ 2 ^ 26 := by
      rw [← hc]
      split <;> omega
    exact le_trans (Nat.mul_le_mul_left entrySize hclt) (by decide)
  refine ⟨{ entries := List.replicate c .zero, emptyCount := c, usedCount := 0, deleteCount := 0,
            capacity := c, hash, destroyCb, destroyed := [] }, ?_,
    sound_of_zero hcpow hcmin hfits rfl rfl rfl rfl⟩
  simp only [initFhashmapCustom, hpow, assert, ne_eq, hpos.ne', not_false_eq_true, decide_true,
    if_true, ok_bind, hc, newEntries_ok hfits, pure_eq_ok]

/-! ## Whole runs -/

inductive Op where
  | insert (key : Key) (data : Ptr) (flags : BitVec 8)
  | delete (key : Key)
  | getData (key : Key)
  | clear
  deriving DecidableEq

/-- What a call returns: a code, a result that succeeded or not, or nothing. -/
inductive Out where
  | code (c : Int)
  | result (r : Option Ptr)
  | done
  deriving DecidableEq

def step (m : FlatHashmap) : Op → Kernel (FlatHashmap × Out)
  | .insert key data flags => do
    let (m, c) ← fhashmapInsert m key data flags
    return (m, .code c)
  | .delete key => do
    let (m, r) ← fhashmapDelete m key
    return (m, .result r)
  | .getData key => do
    let r ← fhashmapGetData m key
    return (m, .result r)
  | .clear => do
    let m ← fhashmapClear m
    return (m, .done)

theorem step_sound {m : FlatHashmap} (hs : Sound m) (op : Op) :
    (∃ m' o, step m op = .ok (m', o) ∧ Sound m') ∨
    (∃ key data flags, op = .insert key data flags ∧
      newEntries (m.capacity * 2) = .error .assertion ∧ step m op = .error .assertion) := by
  cases op with
  | insert key data flags =>
    rcases fhashmapInsert_sound hs key data flags with ⟨m', c, hm', hs', -⟩ | ⟨hnew, herr⟩
    · exact .inl ⟨m', .code c, by simp only [step, hm', ok_bind, pure_eq_ok], hs'⟩
    · exact .inr ⟨key, data, flags, rfl, hnew, by simp only [step, herr]; rfl⟩
  | delete key =>
    left
    rcases fhashmapDelete_sound hs key with ⟨m', e, rest, hm', hs', -⟩ | ⟨hm', -⟩
    · exact ⟨m', .result (some e.data), by simp only [step, hm', ok_bind, pure_eq_ok], hs'⟩
    · exact ⟨m, .result none, by simp only [step, hm', ok_bind, pure_eq_ok], hs⟩
  | getData key =>
    left
    rcases findExactEntry_ok hs key with ⟨i, e, hfind, he, -⟩ | ⟨hfind, -⟩
    · exact ⟨m, .result (some e.data),
        by simp only [step, fhashmapGetData, hfind, ok_bind, he, pure_eq_ok], hs⟩
    · exact ⟨m, .result none, by simp only [step, fhashmapGetData, hfind, ok_bind, pure_eq_ok], hs⟩
  | clear =>
    left
    obtain ⟨m', hm', hs', -⟩ := fhashmapClear_sound hs
    exact ⟨m', .done, by simp only [step, hm', ok_bind, pure_eq_ok], hs'⟩

theorem capacity_le_of_init {capacity : Nat} {hash : Key → UInt64} {destroyCb : Bool}
    {m : FlatHashmap} (hcap : u32 capacity ≤ 2 ^ 28 ∨ 2 ^ 31 < u32 capacity)
    (h : initFhashmapCustom capacity hash destroyCb = .ok m) : u32 capacity ≤ 2 ^ 26 := by
  by_contra hlarge
  rcases hcap with hle | hgt
  · obtain ⟨j, hj, hpow, hlow, -⟩ := exists_alignUpPow2 (by omega) hle (by decide)
    have hj' : 26 < j := (Nat.pow_lt_pow_iff_right (by decide : 1 < 2)).1 (by omega)
    have hrefused : newEntries (2 ^ j) = .error .assertion := by
      have hcases : j = 27 ∨ j = 28 := by omega
      rcases hcases with rfl | rfl <;> rfl
    have hmin : ¬ 2 ^ j < minCapacity := by
      have : 2 ^ 2 ≤ 2 ^ j := Nat.pow_le_pow_right (by decide) (by omega)
      simp only [minCapacity]
      omega
    simp only [initFhashmapCustom, hpow, assert, ne_eq, (Nat.two_pow_pos j).ne', not_false_eq_true,
      decide_true, if_true, ok_bind, if_neg hmin, hrefused] at h
    cases h
  · have hzero : alignUpPow2 (u32 capacity) = 0 :=
      alignUpPow2_overflow hgt (Nat.mod_lt _ (by decide))
    simp only [initFhashmapCustom, hzero, assert, ne_eq, not_true_eq_false, decide_false,
      Bool.false_eq_true, if_false] at h
    cases h

/-- Along every run the table is sound and every probe ends; a run stops only
where `kmalloc` refuses the table of twice the capacity. -/
theorem run_keeps_probing {capacity : Nat} (hcap : u32 capacity ≤ 2 ^ 28 ∨ 2 ^ 31 < u32 capacity)
    (hash : Key → UInt64) (destroyCb : Bool) {m₀ : FlatHashmap}
    (hinit : initFhashmapCustom capacity hash destroyCb = .ok m₀) (ops : List Op) :
    (∃ m outs, run step m₀ ops = .ok (m, outs) ∧ Sound m ∧ (∃ e ∈ m.entries, e.state = .empty) ∧
      (∀ hash, ∃ i, findFreeSlot m.entries m.capacity hash = .ok i) ∧
      ∀ key, ∃ r, findExactEntry m (m.hash key) key = .ok r) ∨
    (∃ pre key data flags m outs, pre ++ [.insert key data flags] <+: ops ∧
      run step m₀ pre = .ok (m, outs) ∧ Sound m ∧ newEntries (m.capacity * 2) = .error .assertion ∧
      step m (.insert key data flags) = .error .assertion) := by
  obtain ⟨m, hm, hs₀, -⟩ := initFhashmapCustom_sound (capacity_le_of_init hcap hinit) hash destroyCb
  obtain rfl := Except.ok.inj (hm.symm.trans hinit)
  rcases run_until (fun m op hs => step_sound hs op) ops m hs₀ with
    ⟨m', outs, hrun, hs⟩ | ⟨pre, op, m', outs, hpre, hrun, hs, key, data, flags, rfl, hnew, herr⟩
  · refine .inl ⟨m', outs, hrun, hs, hs.exists_empty, fun hash => ?_, fun key => ?_⟩
    · obtain ⟨d, -, e, hfind, -⟩ := findFreeSlot_ok hs.shape hash hs.exists_free
      exact ⟨_, hfind⟩
    · rcases findExactEntry_ok hs key with ⟨i, e, hfind, -⟩ | ⟨hfind, -⟩
      · exact ⟨_, hfind⟩
      · exact ⟨_, hfind⟩
  · exact .inr ⟨pre, key, data, flags, m', outs, hpre, hrun, hs, hnew, herr⟩

/-- A map of four slots that grows, with a key inserted twice behind a DELETE
slot. -/
def mixedCalls : List Op :=
  [.insert [1] 16#32 0#8, .insert [2] 32#32 0#8, .insert [3] 48#32 1#8, .insert [4] 64#32 0#8,
    .insert [5] 64#32 0#8, .delete [1], .insert [2] 80#32 0#8, .getData [2], .delete [2],
    .insert [3] 96#32 2#8, .clear, .insert [1] 16#32 0#8, .delete [1]]

theorem mixedCalls_keep_probing :
    ∃ m₀, initFhashmapCustom 3 (fun _ => 7) false = .ok m₀ ∧
    ∃ m outs, run step m₀ mixedCalls = .ok (m, outs) ∧ Sound m ∧
      (∃ e ∈ m.entries, e.state = .empty) ∧
      (∀ hash, ∃ i, findFreeSlot m.entries m.capacity hash = .ok i) ∧
      ∀ key, ∃ r, findExactEntry m (m.hash key) key = .ok r := by
  have hrun : ∃ m₀, initFhashmapCustom 3 (fun _ => 7) false = .ok m₀ ∧
      ∃ r, run step m₀ mixedCalls = .ok r ∧ True := by
    decide +kernel
  obtain ⟨m₀, hinit, r, hr, -⟩ := hrun
  refine ⟨m₀, hinit, ?_⟩
  rcases run_keeps_probing (.inl (by decide)) (fun _ => 7) false hinit mixedCalls with
    hok | ⟨pre, key, data, flags, m, outs, hpre, hpass, -, -, hstop⟩
  · exact hok
  · exact absurd hr (run_ne_ok_of_stop hpre hpass hstop _)

/-- A map whose table has no slot. -/
def noSlots : FlatHashmap where
  entries := []
  emptyCount := 2 ^ 30
  usedCount := 0
  deleteCount := 0
  capacity := 2 ^ 30
  hash := fun _ => 0
  destroyCb := false
  destroyed := []

/-- The table of 2^30 slots has 28 * 2^30 bytes, which is 0 in 32 bits. -/
theorem capacity_wraps :
    initFhashmapCustom (2 ^ 30) (fun _ => 0) false = .ok noSlots ∧
    noSlots.emptyCount ≠ countState noSlots.entries .empty ∧ ¬ Sound noSlots ∧
    run step noSlots [.insert [1] 16#32 0#8] = .error .outOfBounds := by
  refine ⟨rfl, by decide, fun h => ?_, rfl⟩
  have hlen := h.shape.length
  exact absurd hlen (by decide)

end X86Kernel.Hash
