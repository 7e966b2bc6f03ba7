import X86Kernel.Utils.FlatHashmap.Occupancy

/- What `rehash` keeps.

   The entries are moved one after another into a new table, until as many are moved as
   the counter says. What is proved: the new table has the same entries, each once, and
   nothing else, whatever the old table looked like; and `find_exact_entry` gives the same
   data before and after exactly if it found every entry before, and had an EMPTY slot to
   end its probes (`rehash_lossless`). The calls of the map keep it so; an entry behind an
   EMPTY slot of the old table would be found in the new one only
   (`rehash_finds_stray_entry`). -/
namespace X86Kernel.Hash
open X86Kernel.Lib

/-- The data of the entry that `find_exact_entry` finds. -/
def findData (m : FlatHashmap) (hash : UInt64) (key : Key) : Kernel (Option Ptr) := do
  let same ← findExactEntry m hash key
  return same.bind fun i => m.entries[i]?.map Entry.data

/-- The counters are those of the table. -/
structure CountersRight (m : FlatHashmap) : Prop where
  used : m.usedCount = countState m.entries .used
  deleted : m.deleteCount = countState m.entries .delete
  empty : m.emptyCount = countState m.entries .empty

/-- A map whose table has its capacity, with right counters, in which no key is used twice. -/
structure Distinct (m : FlatHashmap) : Prop where
  shape : Shape m.entries m.capacity
  counters : CountersRight m
  keys : ((usedEntries m.entries).map Entry.keyData).Nodup

/-- The table has been replaced by one of `newCapacity` slots with the same entries, each
once, and no DELETE slot. -/
structure SameEntries (m m' : FlatHashmap) (newCapacity : Nat) : Prop where
  capacity : m'.capacity = newCapacity
  shape : Shape m'.entries newCapacity
  entries : (usedEntries m'.entries).Perm (usedEntries m.entries)
  clean : ∀ e ∈ m'.entries, e.state ≠ .delete
  counters : CountersRight m'

/-- Every key is found with the same data. -/
def SameLookups (m m' : FlatHashmap) : Prop :=
  ∀ hash key, findData m' hash key = findData m hash key

namespace Distinct
variable {m : FlatHashmap} (h : Distinct m)
include h

theorem eq_of_key {e e' : Entry} (he : e ∈ usedEntries m.entries)
    (he' : e' ∈ usedEntries m.entries) (hkey : e.keyData = e'.keyData) : e = e' :=
  List.inj_on_of_nodup_map h.keys he he' hkey

theorem slot_unique {i j : Nat} {e : Entry} (hi : m.entries[i]? = some e)
    (hj : m.entries[j]? = some e) (hused : e.state = .used) : i = j := by
  by_contra hne
  obtain ⟨rest, hperm, hset⟩ := exists_usedEntries hi hused
  have hnodup : (e :: rest).Nodup := hperm.nodup_iff.1 h.keys.of_map
  have hclear := hset .zero
  rw [if_neg (by decide)] at hclear
  have hmem : e ∈ usedEntries (m.entries.set i .zero) := by
    refine mem_usedEntries.2 ⟨List.mem_of_getElem? (i := j) ?_, hused⟩
    rw [List.getElem?_set_ne hne]
    exact hj
  exact (List.nodup_cons.1 hnodup).1 (hclear.mem_iff.1 hmem)

theorem findData_cases (hpos : 0 < m.emptyCount) (hash : UInt64) (key : Key) :
    (∃ i e, findData m hash key = .ok (some e.data) ∧ m.entries[i]? = some e ∧
      e.state = .used ∧ e.hash = hash ∧ e.keyData = key ∧
      Reached m.entries m.capacity hash i) ∨
    (findData m hash key = .ok none ∧
      ∀ i e, m.entries[i]? = some e → e.state = .used → e.hash = hash → e.keyData = key →
        ¬ Reached m.entries m.capacity hash i) := by
  rcases findExactEntry_cases h.shape h.counters.empty hpos hash key with
    ⟨i, e, hfind, he, hrest⟩ | ⟨hfind, hnone⟩
  · refine .inl ⟨i, e, ?_, he, hrest⟩
    rw [findData, hfind, ok_bind, Option.bind_some, he]
    rfl
  · refine .inr ⟨?_, hnone⟩
    rw [findData, hfind]
    rfl

end Distinct

theorem exists_slot {entries : List Entry} {e : Entry} (he : e ∈ usedEntries entries) :
    ∃ i : Nat, entries[i]? = some e ∧ e.state = .used := by
  obtain ⟨hmem, hused⟩ := mem_usedEntries.1 he
  obtain ⟨i, hi⟩ := List.getElem?_of_mem hmem
  exact ⟨i, hi, hused⟩

variable {m m' : FlatHashmap}

theorem sameLookups_of_reach (h : Distinct m) (h' : Distinct m')
    (hperm : (usedEntries m'.entries).Perm (usedEntries m.entries)) (hpos : 0 < m.emptyCount)
    (hpos' : 0 < m'.emptyCount) (hreach : Reach m.entries m.capacity)
    (hreach' : Reach m'.entries m'.capacity) : SameLookups m m' := by
  intro hash key
  rcases h.findData_cases hpos hash key with
    ⟨i, e, hfind, he, hused, rfl, rfl, -⟩ | ⟨hfind, hnone⟩
  · -- the entry is in the other table, too
    have hmem := mem_usedEntries.2 ⟨List.mem_of_getElem? he, hused⟩
    obtain ⟨i', hi', -⟩ := exists_slot (hperm.mem_iff.2 hmem)
    rcases h'.findData_cases hpos' e.hash e.keyData with
      ⟨j, x, hfind', hx, hxused, -, hkey, -⟩ | ⟨-, hnone'⟩
    · have hxmem := hperm.mem_iff.1 (mem_usedEntries.2 ⟨List.mem_of_getElem? hx, hxused⟩)
      rw [hfind', hfind, h.eq_of_key hxmem hmem hkey]
    · exact absurd (hreach' i' e hi' hused) (hnone' i' e hi' hused rfl rfl)
  · rcases h'.findData_cases hpos' hash key with
      ⟨j, x, -, hx, hxused, rfl, rfl, -⟩ | ⟨hfind', -⟩
    · obtain ⟨i, hi, -⟩ := exists_slot
        (hperm.mem_iff.1 (mem_usedEntries.2 ⟨List.mem_of_getElem? hx, hxused⟩))
      exact absurd (hreach i x hi hxused) (hnone i x hi hxused rfl rfl)
    · rw [hfind', hfind]

/-- Where the other map finds all entries, the same data is found only if they are reached
here, and an EMPTY slot ends the probes. -/
theorem reach_of_sameLookups (h : Distinct m) (h' : Distinct m')
    (hperm : (usedEntries m'.entries).Perm (usedEntries m.entries)) (hpos' : 0 < m'.emptyCount)
    (hreach' : Reach m'.entries m'.capacity) (hsame : SameLookups m m') :
    Reach m.entries m.capacity ∧ 0 < m.emptyCount := by
  have hpos : 0 < m.emptyCount := by
    by_contra hzero
    have hfault : findData m 0 [] = .error .assertion := by
      rw [findData, findExactEntry, Nat.eq_zero_of_not_pos hzero]
      rfl
    have hboth := hsame 0 []
    rw [hfault] at hboth
    rcases h'.findData_cases hpos' 0 [] with ⟨_, _, hfind, -⟩ | ⟨hfind, -⟩
    · rw [hfind] at hboth
      cases hboth
    · rw [hfind] at hboth
      cases hboth
  refine ⟨fun i e he hused => ?_, hpos⟩
  have hmem := mem_usedEntries.2 ⟨List.mem_of_getElem? he, hused⟩
  obtain ⟨i', hi', -⟩ := exists_slot (hperm.mem_iff.2 hmem)
  have hboth := hsame e.hash e.keyData
  rcases h'.findData_cases hpos' e.hash e.keyData with ⟨_, _, hfind', -⟩ | ⟨-, hnone'⟩
  · rw [hfind'] at hboth
    rcases h.findData_cases hpos e.hash e.keyData with
      ⟨j, y, -, hy, hyused, -, hkey, hreached⟩ | ⟨hfind, -⟩
    · have hymem := mem_usedEntries.2 ⟨List.mem_of_getElem? hy, hyused⟩
      obtain rfl := h.eq_of_key hymem hmem hkey
      rwa [h.slot_unique he hy hused]
    · rw [hfind] at hboth
      cases hboth
  · exact absurd (hreach' i' e hi' hused) (hnone' i' e hi' hused rfl rfl)

/-- `rehash` returns, and keeps the entries; the lookups are the same exactly if every
entry was reached before, and a slot was EMPTY. -/
theorem rehash_lossless (h : Distinct m) {newCapacity : Nat} (hpow : ∃ n, newCapacity = 2 ^ n)
    (hle : m.capacity ≤ newCapacity) (hfits : entrySize * newCapacity ≤ 2 ^ 31)
    (hroom : m.usedCount < newCapacity) :
    ∃ m', rehash m newCapacity = .ok m' ∧ SameEntries m m' newCapacity ∧
      (SameLookups m m' ↔ Reach m.entries m.capacity ∧ m.emptyCount ≠ 0) := by
  obtain ⟨new, hfill, hcode⟩ := rehash_eq h.shape.length h.counters.used hpow hle hfits hroom
  have hused : m.usedCount = (usedEntries m.entries).length := by
    rw [length_usedEntries, h.counters.used]
  have hcounters : CountersRight { m with
      entries := new, deleteCount := 0, emptyCount := newCapacity - m.usedCount,
      capacity := newCapacity } := by
    refine ⟨?_, hfill.clean.symm, ?_⟩
    · show m.usedCount = countState new .used
      rw [hused, ← hfill.perm.length_eq, length_usedEntries]
    · show newCapacity - m.usedCount = countState new .empty
      rw [hfill.emptyCount, hused]
  have hdistinct : Distinct { m with
      entries := new, deleteCount := 0, emptyCount := newCapacity - m.usedCount,
      capacity := newCapacity } :=
    ⟨hfill.shape, hcounters, ((hfill.perm.map Entry.keyData).nodup_iff).2 h.keys⟩
  refine ⟨_, hcode, ⟨rfl, hfill.shape, hfill.perm, ?_, hcounters⟩, ?_⟩
  · intro e he hdelete
    have hpos : 0 < countState new .delete := List.countP_pos_iff.2 ⟨e, he, by simp [hdelete]⟩
    have hclean := hfill.clean
    omega
  · have hpos' : 0 < newCapacity - m.usedCount := Nat.sub_pos_of_lt hroom
    constructor
    · intro hsame
      obtain ⟨hreach, hpos⟩ := reach_of_sameLookups h hdistinct hfill.perm hpos' hfill.reach hsame
      exact ⟨hreach, hpos.ne'⟩
    · rintro ⟨hreach, hempty⟩
      exact sameLookups_of_reach h hdistinct hfill.perm (Nat.pos_of_ne_zero hempty) hpos' hreach
        hfill.reach

/-- An entry whose home slot is 0 in slot 2, behind an EMPTY one. -/
def strayEntry : Entry :=
  { hash := 0, keyData := [1], data := 16#32, state := .used, allocated := false }

def strayMap : FlatHashmap where
  entries := [.zero, .zero, strayEntry, .zero]
  emptyCount := 3
  usedCount := 1
  deleteCount := 0
  capacity := 4
  hash := fun _ => 0
  destroyCb := false
  destroyed := []

/-- Two entries of one home slot behind a DELETE slot. -/
def homeMap : FlatHashmap := { strayMap with
  entries := [{ Entry.zero with state := .delete }, strayEntry,
    { strayEntry with hash := 8, keyData := [2], data := 32#32 }, .zero]
  emptyCount := 1
  usedCount := 2
  deleteCount := 1 }

/-- A table without an EMPTY slot. -/
def fullMap : FlatHashmap := { strayMap with
  entries := strayEntry :: List.replicate 3 { Entry.zero with state := .delete }
  emptyCount := 0
  deleteCount := 3 }

theorem strayMap_distinct : Distinct strayMap :=
  ⟨⟨⟨2, rfl⟩, rfl⟩, ⟨rfl, rfl, rfl⟩, List.nodup_singleton _⟩

theorem fullMap_distinct : Distinct fullMap :=
  ⟨⟨⟨2, rfl⟩, rfl⟩, ⟨rfl, rfl, rfl⟩, List.nodup_singleton _⟩

theorem homeMap_distinct : Distinct homeMap :=
  ⟨⟨⟨2, rfl⟩, rfl⟩, ⟨rfl, rfl, rfl⟩, by decide⟩

/-- The entries still have one home slot in the larger table. -/
theorem homeMap_rehashed : ∃ m', rehash homeMap 8 = .ok m' ∧ SameEntries homeMap m' 8 ∧
    (SameLookups homeMap m' ↔ Reach homeMap.entries homeMap.capacity ∧ homeMap.emptyCount ≠ 0) :=
  rehash_lossless homeMap_distinct ⟨3, rfl⟩ (by decide) (by decide) (by decide)

/-- A key that is not found is there after `rehash`; `find_exact_entry` asserts on a table
without an EMPTY slot, but not on the new one; and `kmalloc` refuses 2^27 slots. -/
theorem rehash_finds_stray_entry :
    (Distinct strayMap ∧ findData strayMap 0 [1] = .ok none ∧
      ∃ m', rehash strayMap 4 = .ok m' ∧ findData m' 0 [1] = .ok (some 16#32)) ∧
    (Distinct fullMap ∧ findData fullMap 0 [1] = .error .assertion ∧
      ∃ m', rehash fullMap 4 = .ok m' ∧ findData m' 0 [1] = .ok (some 16#32)) ∧
    rehash strayMap (2 ^ 27) = .error .assertion := by
  refine ⟨⟨strayMap_distinct, ?_, ?_⟩, ⟨fullMap_distinct, ?_, ?_⟩, ?_⟩
  · decide
  · decide
  · decide
  · decide
  · rfl

end X86Kernel.Hash
