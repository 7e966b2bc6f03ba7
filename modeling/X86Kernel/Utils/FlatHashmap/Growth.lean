import X86Kernel.Utils.FlatHashmap.Refines
import X86Kernel.Lib.Outcome

/- A flat hash map that keys are only added to, as the caches of the file system
   use it.

   What is proved: adding a key that the map does not have changes the finite map
   at that key only, and it succeeds as long as there are fewer than 2^23 keys
   (`fhashmapInsert_new`). No slot is ever deleted, and the table is at most about
   two and a half times as long as it has keys (`Grown`), so that a larger one can
   be had. -/
namespace X86Kernel.Hash
open X86Kernel.Lib

/-- The keys a map may have for its next table to fit in one block. -/
def maxKeys : Nat := 2 ^ 23

/-- Nothing was removed, and the table has its first size or was filled to 75 % of
half its size. -/
structure Grown (m : FlatHashmap) : Prop where
  deleted : m.deleteCount = 0
  capacity : m.capacity ≤ initCapacity ∨ 38 * m.capacity ≤ 100 * m.usedCount

theorem rehash_counts {m m' : FlatHashmap} {cap : Nat} (h : rehash m cap = .ok m') :
    m'.usedCount = m.usedCount ∧ m'.deleteCount = 0 ∧ m'.capacity = cap := by
  obtain ⟨-, -, h⟩ := exists_of_bind_eq_ok h
  obtain ⟨new, -, h⟩ := exists_of_bind_eq_ok h
  obtain ⟨new', -, h⟩ := exists_of_bind_eq_ok h
  obtain rfl := Except.ok.inj h
  exact ⟨rfl, rfl, rfl⟩

theorem handleRehash_counts {m m' : FlatHashmap} (hdel : m.deleteCount = 0)
    (h : handleRehash m = .ok m') :
    m'.usedCount = m.usedCount ∧ m'.deleteCount = 0 ∧
      (m'.capacity = m.capacity ∨
        (m'.capacity = m.capacity * 2 ∧ m.usedCount * 100 / m.capacity > 75)) := by
  obtain ⟨resize, hresize, h⟩ := exists_of_bind_eq_ok h
  obtain ⟨load, hload, hresize⟩ := exists_of_bind_eq_ok hresize
  rw [divide] at hload
  split at hload
  · cases hload
  obtain rfl := Except.ok.inj hload
  obtain rfl := Except.ok.inj hresize
  split at h
  · rename_i hbig
    rw [hdel, Nat.add_zero, decide_eq_true_eq] at hbig
    obtain ⟨hu, hd, hc⟩ := rehash_counts h
    exact ⟨hu, hd, .inr ⟨hc, hbig⟩⟩
  · obtain ⟨again, -, h⟩ := exists_of_bind_eq_ok h
    split at h
    · obtain ⟨hu, hd, hc⟩ := rehash_counts h
      exact ⟨hu, hd, .inl hc⟩
    · obtain rfl := Except.ok.inj h
      exact ⟨rfl, hdel, .inl rfl⟩

theorem insertEntry_counts {m m' : FlatHashmap} {i : Nat} {hash : UInt64} {key : Key} {data : Ptr}
    {flags : BitVec 8} (hdel : m.deleteCount = 0)
    (h : insertEntry m i hash key data flags = .ok m') :
    m'.usedCount = m.usedCount + 1 ∧ m'.deleteCount = 0 ∧
      (m'.capacity = m.capacity ∨
        (m'.capacity = m.capacity * 2 ∧ (m.usedCount + 1) * 100 / m.capacity > 75)) := by
  rw [insertEntry] at h
  split at h
  · cases h
  · have hdel' : ∀ e : Entry, (if e.state = .delete then m.deleteCount - 1 else m.deleteCount) =
      0 := by
      intro e
      split <;> omega
    exact handleRehash_counts (hdel' _) h

theorem fhashmapInsert_new {m : FlatHashmap} {f : Key → Option Ptr} (h : Refines m f)
    (hg : Grown m) {key : Key} (hkey : f key = none) (data : Ptr) (flags : BitVec 8) :
    Outcome (fun _ => maxKeys ≤ m.usedCount)
      (fun r => Refines r.1 (Function.update f key (some data)) ∧ Grown r.1 ∧
        r.1.usedCount = m.usedCount + 1)
      (fhashmapInsert m key data flags) := by
  have hs := h.1
  have hpos := pow_pos_of hs.shape.pow
  obtain ⟨d, hd, x, hslot, hx, hxused, hpath⟩ :=
    findFreeSlot_ok hs.shape (m.hash key) hs.exists_free
  rcases findExactEntryInterval_ok hs key hd hpath with
    ⟨i, e, -, he, hused, -, heq⟩ | ⟨hfind, -⟩
  · -- the key is not there
    have hmem : (key, e.data) ∈ contents m :=
      mem_contents.2 ⟨e, mem_usedEntries.2 ⟨List.mem_of_getElem? he, hused⟩, heq, rfl⟩
    rw [(h.2.2 key e.data).2 hmem] at hkey
    cases hkey
  · simp only [fhashmapInsert, hslot, ok_bind, hfind]
    rcases insertEntry_sound hs hx hxused (reached_of_used hd hpath) data flags with
      ⟨m', y, hm', hsound, hy, hperm⟩ | ⟨-, -, hlarge, hrefused⟩
    · rw [hm']
      obtain ⟨hu, hdel, hcap⟩ := insertEntry_counts hg.deleted hm'
      have hpair : pairOf y = (key, data) := Prod.ext hy.1 hy.2
      refine ⟨Refines.of_perm hsound hperm ?_, ⟨hdel, ?_⟩, hu⟩
      · rw [List.map_cons, hpair]
        exact h.2.cons hkey data
      · rcases hcap with hcap | ⟨hcap, hbig⟩
        · have := hg.capacity
          rw [hcap, hu]
          omega
        · right
          have hfull : 76 * m.capacity ≤ (m.usedCount + 1) * 100 :=
            (Nat.le_div_iff_mul_le hpos).1 hbig
          rw [hcap, hu]
          omega
    · -- a table with few keys is short
      rw [hrefused]
      have hcap := hg.capacity
      show maxKeys ≤ m.usedCount
      simp only [maxKeys, initCapacity, entrySize] at *
      omega

/-- A map that keys are only added to, with at most `n` keys. -/
structure Holds (m : FlatHashmap) (f : Key → Option Ptr) (n : Nat) : Prop where
  refines : Refines m f
  grown : Grown m
  used : m.usedCount ≤ n

theorem Holds.mono {m : FlatHashmap} {f : Key → Option Ptr} {n n' : Nat} (h : Holds m f n)
    (hle : n ≤ n') : Holds m f n' := ⟨h.refines, h.grown, h.used.trans hle⟩

theorem Holds.insert {m : FlatHashmap} {f : Key → Option Ptr} {n : Nat} (h : Holds m f n)
    {key : Key} (hkey : f key = none) (data : Ptr) (flags : BitVec 8) :
    Outcome (fun _ => maxKeys ≤ n)
      (fun r => Holds r.1 (Function.update f key (some data)) (n + 1))
      (fhashmapInsert m key data flags) := by
  have hins := fhashmapInsert_new h.refines h.grown hkey data flags
  cases hm : fhashmapInsert m key data flags with
  | error e => exact (hins.of_error hm).trans h.used
  | ok r =>
    obtain ⟨href, hg, hu⟩ := hins.of_ok hm
    refine ⟨href, hg, ?_⟩
    rw [hu]
    exact Nat.succ_le_succ h.used

theorem initFhashmap_holds (hash : Key → UInt64) (destroyCb : Bool) :
    ∃ m, initFhashmapCustom initCapacity hash destroyCb = .ok m ∧ Holds m (fun _ => none) 0 := by
  obtain ⟨m, hm, href⟩ :=
    initFhashmapCustom_ok (show u32 initCapacity ≤ 2 ^ 26 by decide) hash destroyCb
  have hnew : ∃ m₀, initFhashmapCustom initCapacity hash destroyCb = .ok m₀ ∧
      m₀.deleteCount = 0 ∧ m₀.capacity = initCapacity ∧ m₀.usedCount = 0 :=
    ⟨_, rfl, rfl, rfl, rfl⟩
  obtain ⟨m₀, hm₀, hdel, hcap, hused⟩ := hnew
  obtain rfl := Except.ok.inj (hm.symm.trans hm₀)
  exact ⟨m, hm, href, ⟨hdel, .inl hcap.le⟩, hused.le⟩

end X86Kernel.Hash
