import Mathlib.Data.List.Count
import X86Kernel.Lib.Probe
import X86Kernel.Lib.Assoc
import X86Kernel.Utils.FlatHashmap

/- The table of the flat hash map.

   What is proved: the invariant `Probing` (the counters count the slots, and no
   EMPTY slot lies between the home slot of an entry and its slot), with the load
   of `Sound`, makes every probe end, and every operation on one slot keeps it.
   `rehash` returns a table with the same entries (`rehash_ok`,
   `handleRehash_ok`). What the map holds is the list of its used entries, up to
   order. -/
namespace X86Kernel.Hash
open X86Kernel.Lib

/-! ## Slots -/

theorem and_sub_one {cap : Nat} (h : ∃ n, cap = 2 ^ n) (x : Nat) : x &&& (cap - 1) = x % cap := by
  obtain ⟨n, rfl⟩ := h
  exact Nat.and_two_pow_sub_one_eq_mod x n

/-- The home slot of a hash. -/
def home (cap : Nat) (hash : UInt64) : Nat := hash.toNat % cap

theorem slotOf_eq {cap : Nat} (h : ∃ n, cap = 2 ^ n) (hash : UInt64) :
    slotOf hash cap = home cap hash := and_sub_one h _

theorem nextSlot_eq {cap : Nat} (h : ∃ n, cap = 2 ^ n) (pos : Nat) :
    nextSlot pos cap = offset cap pos 1 := and_sub_one h _

theorem pow_pos_of {cap : Nat} (h : ∃ n, cap = 2 ^ n) : 0 < cap := by
  obtain ⟨n, rfl⟩ := h
  exact Nat.two_pow_pos n

/-- A test of the entry in a slot. -/
def testAt (entries : List Entry) (test : Entry → Bool) (i : Nat) : Bool := entries[i]?.any test

theorem testAt_some {entries : List Entry} {test : Entry → Bool} {i : Nat} {e : Entry}
    (h : entries[i]? = some e) : testAt entries test i = test e := by simp [testAt, h]

theorem sameKey_iff {e : Entry} {hash : UInt64} {key : Key} :
    sameKey e hash key = true ↔ e.hash = hash ∧ e.keyData = key := by
  simp only [sameKey, Bool.and_eq_true, decide_eq_true_eq, and_assoc, and_congr_right_iff]
  intro _
  constructor
  · intro h
    obtain ⟨hlen, hcmp⟩ := h
    rw [← hlen] at hcmp
    exact (memcmp_eq_zero _ _ hlen).1 hcmp
  · intro h
    subst h
    exact ⟨rfl, (memcmp_eq_zero _ _ rfl).2 rfl⟩

/-- A table of `cap` slots, a power of two. -/
structure Shape (entries : List Entry) (cap : Nat) : Prop where
  pow : ∃ n, cap = 2 ^ n
  length : entries.length = cap

theorem Shape.get {entries : List Entry} {cap : Nat} (h : Shape entries cap) {i : Nat}
    (hi : i < cap) :
    ∃ e, entries[i]? = some e := by
  rw [← h.length] at hi
  exact ⟨entries[i], List.getElem?_eq_getElem hi⟩

theorem Shape.set {entries : List Entry} {cap : Nat} (h : Shape entries cap) (i : Nat) (e : Entry) :
    Shape (entries.set i e) cap := ⟨h.pow, by rw [List.length_set, h.length]⟩

theorem Shape.offset_get {entries : List Entry} {cap : Nat} (h : Shape entries cap)
    (start d : Nat) :
    ∃ e, entries[offset cap start d]? = some e := h.get (offset_lt (pow_pos_of h.pow) _ _)

/-! ## The probes end -/

theorem findFreeSlotLoop_eq {entries : List Entry} {cap : Nat} (h : Shape entries cap) :
    ∀ (fuel : Nat) {pos i : Nat}, pos < cap →
      scan cap (testAt entries fun e => decide (e.state ≠ .used)) fuel pos = some i →
      findFreeSlotLoop entries cap fuel pos = .ok i := by
  intro fuel
  induction fuel with
  | zero => intro pos i _ hs; cases hs
  | succ fuel ih =>
    intro pos i hpos hs
    obtain ⟨e, he⟩ := h.get hpos
    rw [scan, testAt_some he] at hs
    simp only [findFreeSlotLoop, he]
    by_cases hused : e.state = .used
    · rw [if_pos hused, nextSlot_eq h.pow]
      exact ih (offset_lt (pow_pos_of h.pow) _ _) (by simpa [hused] using hs)
    · rw [if_neg hused]
      simpa [hused] using hs

theorem findFreeSlot_ok {entries : List Entry} {cap : Nat} (h : Shape entries cap) (hash : UInt64)
    (hfree : ∃ e ∈ entries, e.state ≠ .used) :
    ∃ d < cap, ∃ e, findFreeSlot entries cap hash = .ok (offset cap (home cap hash) d) ∧
      entries[offset cap (home cap hash) d]? = some e ∧ e.state ≠ .used ∧
      ∀ c < d, ∀ x, entries[offset cap (home cap hash) c]? = some x → x.state = .used := by
  obtain ⟨e₀, he₀, hne⟩ := hfree
  obtain ⟨i, hi, hie⟩ := List.mem_iff_getElem.1 he₀
  have hi' : entries[i]? = some e₀ := by rw [List.getElem?_eq_getElem hi, hie]
  have hstop : testAt entries (fun e => decide (e.state ≠ .used)) i = true := by
    rw [testAt_some hi']
    exact decide_eq_true hne
  obtain ⟨d, hd, hfirst⟩ := exists_first _ (home cap hash) (h.length ▸ hi) hstop
  obtain ⟨e, he⟩ := h.offset_get (home cap hash) d
  have hhome : home cap hash < cap := Nat.mod_lt _ (pow_pos_of h.pow)
  refine ⟨d, hd, e, ?_, he, ?_, ?_⟩
  · rw [findFreeSlot, slotOf_eq h.pow]
    exact findFreeSlotLoop_eq h cap hhome (scan_eq_some d cap hhome hd hfirst)
  · have hs := hfirst.1
    rw [testAt_some he] at hs
    exact of_decide_eq_true hs
  · intro c hc x hx
    have hs := hfirst.2 c hc
    rw [testAt_some hx] at hs
    simpa using hs

theorem findExactEntryLoop_eq {m : FlatHashmap} (h : Shape m.entries m.capacity) (hash : UInt64)
    (key : Key) : ∀ (fuel : Nat) {pos i : Nat} {e : Entry}, pos < m.capacity →
      scan m.capacity (testAt m.entries fun e => decide (e.state = .empty) ||
        (decide (e.state = .used) && sameKey e hash key)) fuel pos = some i →
      m.entries[i]? = some e →
      findExactEntryLoop m hash key fuel pos = .ok (if e.state = .empty then none else some i) := by
  intro fuel
  induction fuel with
  | zero => intro pos i e _ hs; cases hs
  | succ fuel ih =>
    intro pos i e hpos hs he
    obtain ⟨x, hx⟩ := h.get hpos
    rw [scan, testAt_some hx] at hs
    simp only [findExactEntryLoop, hx]
    by_cases hstop : (decide (x.state = .empty) ||
        (decide (x.state = .used) && sameKey x hash key)) = true
    · rw [if_pos hstop] at hs
      obtain rfl := Option.some.inj hs
      obtain rfl := Option.some.inj (hx.symm.trans he)
      by_cases hempty : x.state = .empty
      · simp [hempty]
      · have hsame : (decide (x.state = .used) && sameKey x hash key) = true := by
          simpa [hempty] using hstop
        rw [if_neg hempty, if_pos hsame, if_neg hempty]
    · rw [if_neg hstop] at hs
      have hparts : x.state ≠ .empty ∧ ¬ (decide (x.state = .used) && sameKey x hash key) = true :=
      by
        simpa using hstop
      rw [if_neg hparts.1, if_neg hparts.2, nextSlot_eq h.pow]
      exact ih (offset_lt (pow_pos_of h.pow) _ _) hs he

theorem findExactEntryInterval_eq {m : FlatHashmap} (h : Shape m.entries m.capacity) (toIndex : Nat)
    (hash : UInt64) (key : Key) : ∀ (fuel : Nat) {pos i : Nat} {e : Entry}, pos < m.capacity →
      scan m.capacity (fun j => decide (j = toIndex) || testAt m.entries (fun e =>
        decide (e.state = .empty) || sameKey e hash key) j) fuel pos = some i →
      m.entries[i]? = some e →
      findExactEntryInterval m toIndex hash key fuel pos =
        .ok (if i = toIndex ∨ e.state = .empty then none else some i) := by
  intro fuel
  induction fuel with
  | zero => intro pos i e _ hs; cases hs
  | succ fuel ih =>
    intro pos i e hpos hs he
    obtain ⟨x, hx⟩ := h.get hpos
    simp only [scan, testAt_some hx] at hs
    simp only [findExactEntryInterval, hx]
    by_cases hstop : (decide (pos = toIndex) ||
        (decide (x.state = .empty) || sameKey x hash key)) = true
    · rw [if_pos hstop] at hs
      obtain rfl := Option.some.inj hs
      obtain rfl := Option.some.inj (hx.symm.trans he)
      by_cases hto : pos = toIndex
      · simp [hto]
      · by_cases hempty : x.state = .empty
        · simp [hto, hempty]
        · have hsame : sameKey x hash key = true := by simpa [hto, hempty] using hstop
          simp [hto, hempty, hsame]
    · rw [if_neg hstop] at hs
      have hparts : pos ≠ toIndex ∧ x.state ≠ .empty ∧ ¬ sameKey x hash key = true := by
        simpa using hstop
      rw [if_neg hparts.1, if_neg hparts.2.1, if_neg hparts.2.2, nextSlot_eq h.pow]
      exact ih (offset_lt (pow_pos_of h.pow) _ _) hs he

/-! ## The entries in use -/

def usedEntries (entries : List Entry) : List Entry :=
  entries.filter fun e => decide (e.state = .used)

def countState (entries : List Entry) (s : EntryState) : Nat :=
  entries.countP fun e => decide (e.state = s)

theorem mem_usedEntries {entries : List Entry} {e : Entry} :
    e ∈ usedEntries entries ↔ e ∈ entries ∧ e.state = .used := by
  simp [usedEntries]

theorem length_usedEntries (entries : List Entry) :
    (usedEntries entries).length = countState entries .used := by
  rw [usedEntries, countState, List.countP_eq_length_filter]

theorem usedEntries_take_drop (entries : List Entry) (pos : Nat) :
    usedEntries entries = usedEntries (entries.take pos) ++ usedEntries (entries.drop pos) := by
  rw [usedEntries, usedEntries, usedEntries, ← List.filter_append, List.take_append_drop]

theorem usedEntries_take_used {entries : List Entry} {pos : Nat} {e : Entry}
    (he : entries[pos]? = some e) (hused : e.state = .used) :
    usedEntries (entries.take (pos + 1)) = usedEntries (entries.take pos) ++ [e] := by
  simp [usedEntries, List.take_add_one, he, hused]

theorem usedEntries_take_unused {entries : List Entry} {pos : Nat} {e : Entry}
    (he : entries[pos]? = some e) (hunused : e.state ≠ .used) :
    usedEntries (entries.take (pos + 1)) = usedEntries (entries.take pos) := by
  simp [usedEntries, List.take_add_one, he, hunused]

theorem exists_rest {entries : List Entry} {i : Nat} {x : Entry} (h : entries[i]? = some x) :
    ∃ rest, entries.Perm (x :: rest) ∧ ∀ y, (entries.set i y).Perm (y :: rest) := by
  obtain ⟨hi, hx⟩ := List.getElem?_eq_some_iff.1 h
  refine ⟨entries.eraseIdx i, ?_, fun y => List.set_perm_cons_eraseIdx hi y⟩
  have hperm := List.getElem_cons_eraseIdx_perm hi
  rw [hx] at hperm
  exact hperm.symm

theorem countState_set {entries : List Entry} {i : Nat} {x : Entry} (h : entries[i]? = some x)
    (y : Entry) (s : EntryState) :
    countState (entries.set i y) s + (if x.state = s then 1 else 0) =
      countState entries s + (if y.state = s then 1 else 0) := by
  obtain ⟨rest, hx, hy⟩ := exists_rest h
  rw [countState, countState, hx.countP_eq, (hy y).countP_eq, List.countP_cons, List.countP_cons]
  simp only [decide_eq_true_eq]
  omega

theorem usedEntries_set_used {entries : List Entry} {i : Nat} {x y : Entry}
    (h : entries[i]? = some x) (hx : x.state ≠ .used) (hy : y.state = .used) :
    (usedEntries (entries.set i y)).Perm (y :: usedEntries entries) := by
  obtain ⟨rest, hpx, hpy⟩ := exists_rest h
  have h₁ := (hpy y).filter fun e => decide (e.state = .used)
  have h₂ := hpx.filter fun e => decide (e.state = .used)
  rw [List.filter_cons_of_pos (by simp [hy])] at h₁
  rw [List.filter_cons_of_neg (by simp [hx])] at h₂
  exact h₁.trans (List.Perm.cons _ h₂.symm)

theorem exists_usedEntries {entries : List Entry} {i : Nat} {x : Entry} (h : entries[i]? = some x)
    (hx : x.state = .used) :
    ∃ rest, (usedEntries entries).Perm (x :: rest) ∧
      ∀ y, (usedEntries (entries.set i y)).Perm (if y.state = .used then y :: rest else rest) := by
  obtain ⟨rest, hpx, hpy⟩ := exists_rest h
  refine ⟨rest.filter fun e => decide (e.state = .used), ?_, fun y => ?_⟩
  · have h₂ := hpx.filter fun e => decide (e.state = .used)
    rwa [List.filter_cons_of_pos (by simp [hx])] at h₂
  · have h₁ := (hpy y).filter fun e => decide (e.state = .used)
    split
    · rename_i hy
      rwa [List.filter_cons_of_pos (by simp [hy])] at h₁
    · rename_i hy
      rwa [List.filter_cons_of_neg (by simp [hy])] at h₁

theorem countState_sum (entries : List Entry) :
    countState entries .used + countState entries .delete + countState entries .empty =
      entries.length := by
  induction entries with
  | nil => rfl
  | cons e entries ih =>
    simp only [countState, List.countP_cons, List.length_cons] at ih ⊢
    cases he : e.state <;> simp <;> omega

/-! ## Reaching an entry -/

/-- Slot `i` is reached from the home slot of `hash` without an EMPTY slot
before it. -/
def Reached (entries : List Entry) (cap : Nat) (hash : UInt64) (i : Nat) : Prop :=
  ∃ d < cap, offset cap (home cap hash) d = i ∧
    ∀ c < d, ∀ x, entries[offset cap (home cap hash) c]? = some x → x.state ≠ .empty

/-- Every entry is reached from its home slot. -/
def Reach (entries : List Entry) (cap : Nat) : Prop :=
  ∀ i e, entries[i]? = some e → e.state = .used → Reached entries cap e.hash i

theorem Reached.set {entries : List Entry} {cap : Nat} {hash : UInt64} {i j : Nat} {y : Entry}
    (h : Reached entries cap hash j) (hy : y.state ≠ .empty) :
    Reached (entries.set i y) cap hash j := by
  obtain ⟨d, hd, hj, hpath⟩ := h
  refine ⟨d, hd, hj, fun c hc x hx => ?_⟩
  rw [List.getElem?_set] at hx
  split at hx
  · split at hx
    · obtain rfl := Option.some.inj hx
      exact hy
    · cases hx
  · exact hpath c hc x hx

theorem Reach.set {entries : List Entry} {cap : Nat} (h : Reach entries cap) {i : Nat} {y : Entry}
    (hy : y.state ≠ .empty) (hreached : y.state = .used → Reached entries cap y.hash i) :
    Reach (entries.set i y) cap := by
  intro j e he hused
  rw [List.getElem?_set] at he
  split at he
  · rename_i hij
    split at he
    · obtain rfl := Option.some.inj he
      exact hij ▸ (hreached hused).set hy
    · cases he
  · exact (h j e he hused).set hy

theorem reached_of_used {entries : List Entry} {cap d : Nat} {hash : UInt64} (hd : d < cap)
    (h : ∀ c < d, ∀ x, entries[offset cap (home cap hash) c]? = some x → x.state = .used) :
    Reached entries cap hash (offset cap (home cap hash) d) := by
  refine ⟨d, hd, rfl, fun c hc x hx => ?_⟩
  rw [h c hc x hx]
  simp

/-! ## Rehashing -/

/-- A new table on the way: it holds the entries `moved` and has no DELETE
slot. -/
structure Filled (new : List Entry) (cap : Nat) (moved : List Entry) : Prop where
  shape : Shape new cap
  perm : (usedEntries new).Perm moved
  clean : countState new .delete = 0
  reach : Reach new cap

theorem Filled.place {new : List Entry} {cap : Nat} {moved : List Entry} (h : Filled new cap moved)
    (hroom : moved.length < cap) {e : Entry} (he : e.state = .used) :
    ∃ slot, findFreeSlot new cap e.hash = .ok slot ∧ Filled (new.set slot e) cap (moved ++ [e]) :=
    by
  have hfree : ∃ x ∈ new, x.state ≠ .used := by
    have hlt : countState new .used < new.length := by
      rw [← length_usedEntries, h.perm.length_eq, h.shape.length]
      exact hroom
    obtain ⟨x, hx, hne⟩ := List.countP_lt_length_iff.1 hlt
    exact ⟨x, hx, by simpa using hne⟩
  obtain ⟨d, hd, x, hslot, hx, hxused, hpath⟩ := findFreeSlot_ok h.shape e.hash hfree
  refine ⟨_, hslot, h.shape.set _ _, ?_, ?_, ?_⟩
  · refine (usedEntries_set_used hx hxused he).trans ?_
    exact (List.Perm.cons _ h.perm).trans (List.perm_append_singleton _ _).symm
  · have hcount := countState_set hx e .delete
    have hxdel : x.state ≠ .delete := by
      intro hdel
      have hpos : 0 < countState new .delete :=
        List.countP_pos_iff.2 ⟨x, List.mem_of_getElem? hx, by simp [hdel]⟩
      have := h.clean
      omega
    have := h.clean
    simp only [he, hxdel, reduceCtorEq, if_false] at hcount
    omega
  · exact h.reach.set (by simp [he]) fun _ => reached_of_used hd hpath

/-- The loop of `rehash` moves the entries that are left, and stops early only
where there are none. -/
theorem rehashLoop_ok {old : List Entry} (cap : Nat) (hroom : (usedEntries old).length < cap) :
    ∀ (n pos : Nat) {new : List Entry}, pos + n = old.length →
      Filled new cap (usedEntries (old.take pos)) →
      ∃ new', rehashLoop old (usedEntries old).length cap n pos
          (usedEntries (old.take pos)).length new = .ok new' ∧ Filled new' cap (usedEntries old) :=
          by
  intro n
  induction n with
  | zero =>
    intro pos new hlen h
    rw [List.take_of_length_le (by omega)] at h
    exact ⟨new, rfl, h⟩
  | succ n ih =>
    intro pos new hlen h
    have hsplit := usedEntries_take_drop old pos
    have hlens := congrArg List.length hsplit
    rw [List.length_append] at hlens
    simp only [rehashLoop]
    by_cases hmore : (usedEntries (old.take pos)).length < (usedEntries old).length
    · rw [if_pos hmore]
      have hpos : pos < old.length := by omega
      have hget : old[pos]? = some old[pos] := List.getElem?_eq_getElem hpos
      rw [hget]
      generalize old[pos] = e at hget
      by_cases hused : e.state = .used
      · have htake := usedEntries_take_used hget hused
        obtain ⟨slot, hslot, hfill⟩ := h.place (by omega) hused
        rw [← htake] at hfill
        obtain ⟨new', hnew', hdone⟩ := ih (pos + 1) (by omega) hfill
        refine ⟨new', ?_, hdone⟩
        rw [htake, List.length_append, List.length_singleton] at hnew'
        simp only [hused, ne_eq, not_true_eq_false, if_false, hslot, ok_bind, hnew']
      · have htake := usedEntries_take_unused hget hused
        rw [← htake] at h
        obtain ⟨new', hnew', hdone⟩ := ih (pos + 1) (by omega) h
        refine ⟨new', ?_, hdone⟩
        rw [htake] at hnew'
        simp only [hused, ne_eq, not_false_eq_true, if_true, hnew']
    · rw [if_neg hmore]
      have hrest : usedEntries (old.drop pos) = [] := List.length_eq_zero_iff.1 (by omega)
      rw [hrest, List.append_nil] at hsplit
      rw [hsplit]
      exact ⟨new, rfl, h⟩

/-! ## The invariant of the map -/

/-- The counters, the hashes and the paths are right. -/
structure Probing (m : FlatHashmap) : Prop where
  shape : Shape m.entries m.capacity
  min : minCapacity ≤ m.capacity
  fits : entrySize * m.capacity ≤ 2 ^ 31
  used : m.usedCount = countState m.entries .used
  deleted : m.deleteCount = countState m.entries .delete
  empty : m.emptyCount = countState m.entries .empty
  hashes : ∀ e ∈ m.entries, e.state = .used → e.hash = m.hash e.keyData
  reach : Reach m.entries m.capacity

/-- Also, at most 75 % of the slots are not EMPTY: what holds between calls. -/
structure Sound (m : FlatHashmap) : Prop extends Probing m where
  load : (m.usedCount + m.deleteCount) * 100 / m.capacity ≤ 75

theorem Probing.sum {m : FlatHashmap} (h : Probing m) :
    m.usedCount + m.deleteCount + m.emptyCount = m.capacity := by
  rw [h.used, h.deleted, h.empty, countState_sum, h.shape.length]

theorem Sound.emptyCount_pos {m : FlatHashmap} (h : Sound m) : 0 < m.emptyCount := by
  have hsum := h.sum
  have hpos := pow_pos_of h.shape.pow
  have hload := h.load
  rw [Nat.div_le_iff_le_mul_add_pred hpos] at hload
  omega

theorem newEntries_ok {cap : Nat} (h : entrySize * cap ≤ 2 ^ 31) :
    newEntries cap = .ok (List.replicate cap .zero) := by
  have hu : u32 (entrySize * cap) = entrySize * cap := u32_of_lt (by omega)
  have hdiv : entrySize * cap / entrySize = cap := Nat.mul_div_cancel_left _ (by decide)
  simp only [newEntries, hu, assert, h, decide_true, if_true, ok_bind, hdiv, pure_eq_ok]

theorem filled_replicate {cap : Nat} (h : ∃ n, cap = 2 ^ n) :
    Filled (List.replicate cap .zero) cap [] := by
  have hzero : ∀ e ∈ List.replicate cap Entry.zero, e.state = .empty := by
    intro e he
    rw [List.eq_of_mem_replicate he]
    rfl
  refine ⟨⟨h, List.length_replicate⟩, ?_, ?_, ?_⟩
  · rw [show usedEntries (List.replicate cap .zero) = [] from
      List.filter_eq_nil_iff.2 fun e he => by simp [hzero e he]]
  · exact List.countP_eq_zero.2 fun e he => by simp [hzero e he]
  · intro i e he hused
    rw [hzero e (List.mem_of_getElem? he)] at hused
    cases hused

/-- The new table has the entries, if their number was right; nothing is asked of the
order of the old one. -/
theorem rehash_eq {m : FlatHashmap} (hlength : m.entries.length = m.capacity)
    (hused : m.usedCount = countState m.entries .used) {cap : Nat} (hpow : ∃ n, cap = 2 ^ n)
    (hle : m.capacity ≤ cap) (hfits : entrySize * cap ≤ 2 ^ 31) (hroom : m.usedCount < cap) :
    ∃ new, Filled new cap (usedEntries m.entries) ∧ rehash m cap = .ok { m with
      entries := new, deleteCount := 0, emptyCount := cap - m.usedCount, capacity := cap } := by
  have hused : m.usedCount = (usedEntries m.entries).length := by rw [length_usedEntries, hused]
  obtain ⟨new, hnew, hfill⟩ := rehashLoop_ok cap (hused ▸ hroom) m.capacity 0
    (by rw [hlength, Nat.zero_add]) (filled_replicate hpow)
  refine ⟨new, hfill, ?_⟩
  rw [← hused] at hnew
  simp only [rehash, assert, hle, decide_true, if_true, ok_bind, newEntries_ok hfits]
  rw [show rehashLoop m.entries m.usedCount cap m.capacity 0 0 (List.replicate cap .zero) =
    .ok new from hnew]
  rfl

theorem Filled.emptyCount {new moved : List Entry} {cap : Nat} (h : Filled new cap moved) :
    countState new .empty = cap - moved.length := by
  have hsum := countState_sum new
  rw [h.clean, h.shape.length, ← length_usedEntries, h.perm.length_eq] at hsum
  omega

theorem rehash_ok {m : FlatHashmap} (h : Probing m) {cap : Nat} (hpow : ∃ n, cap = 2 ^ n)
    (hle : m.capacity ≤ cap) (hfits : entrySize * cap ≤ 2 ^ 31) (hroom : m.usedCount < cap) :
    ∃ m', rehash m cap = .ok m' ∧ Probing m' ∧ (usedEntries m'.entries).Perm
    (usedEntries m.entries) ∧
      m'.usedCount = m.usedCount ∧ m'.deleteCount = 0 ∧ m'.capacity = cap ∧ m'.hash = m.hash := by
  have hused : m.usedCount = (usedEntries m.entries).length := by rw [length_usedEntries, h.used]
  obtain ⟨new, hfill, hcode⟩ := rehash_eq h.shape.length h.used hpow hle hfits hroom
  have hcount : m.usedCount = countState new .used := by
    rw [hused, ← hfill.perm.length_eq, length_usedEntries]
  refine ⟨_, hcode, ⟨hfill.shape, le_trans h.min hle, hfits, hcount, hfill.clean.symm, ?_, ?_,
    hfill.reach⟩, hfill.perm, rfl, rfl, rfl, rfl⟩
  · show cap - m.usedCount = countState new .empty
    rw [hfill.emptyCount, hused]
  · intro e he hstate
    have hmem : e ∈ usedEntries m.entries :=
      hfill.perm.mem_iff.1 (mem_usedEntries.2 ⟨he, hstate⟩)
    exact h.hashes e (mem_usedEntries.1 hmem).1 hstate

/-- What `handle_rehash` makes of a map that one call has changed: the load is
right again, and the entries are the same. Doubling a large table does not
fit. -/
theorem handleRehash_ok {m : FlatHashmap} (h : Probing m) (hpos : 0 < m.usedCount + m.deleteCount)
    (hgrow : (m.usedCount + m.deleteCount) * 100 / m.capacity > 75 →
      entrySize * (m.capacity * 2) ≤ 2 ^ 31) :
    ∃ m', handleRehash m = .ok m' ∧ Sound m' ∧
      (usedEntries m'.entries).Perm (usedEntries m.entries) ∧ m'.hash = m.hash := by
  have hcap := pow_pos_of h.shape.pow
  have hsum := h.sum
  simp only [handleRehash, needResize, divide, hcap.ne', if_false, ok_bind, pure_eq_ok]
  by_cases hload : (m.usedCount + m.deleteCount) * 100 / m.capacity > 75
  · simp only [hload, decide_true, if_true]
    obtain ⟨n, hn⟩ := h.shape.pow
    obtain ⟨m', hm', hprobe, hperm, hu, hd, hc, hh⟩ := rehash_ok h
      ⟨n + 1, by rw [hn, pow_succ]⟩ (by omega) (hgrow hload) (by omega)
    refine ⟨m', hm', ⟨hprobe, ?_⟩, hperm, hh⟩
    rw [hu, hd, hc, Nat.div_le_iff_le_mul_add_pred (by omega)]
    omega
  · simp only [hload, decide_false, Bool.false_eq_true, if_false, needRehash, divide, hpos.ne',
      ok_bind, pure_eq_ok]
    have hlight : (m.usedCount + m.deleteCount) * 100 / m.capacity ≤ 75 := by omega
    have hlight' := (Nat.div_le_iff_le_mul_add_pred hcap).1 hlight
    split
    · obtain ⟨m', hm', hprobe, hperm, hu, hd, hc, hh⟩ := rehash_ok h h.shape.pow le_rfl h.fits
        (by omega)
      refine ⟨m', hm', ⟨hprobe, ?_⟩, hperm, hh⟩
      rw [hu, hd, hc, Nat.div_le_iff_le_mul_add_pred hcap]
      omega
    · exact ⟨m, rfl, ⟨h, hlight⟩, List.Perm.refl _, rfl⟩

end X86Kernel.Hash
