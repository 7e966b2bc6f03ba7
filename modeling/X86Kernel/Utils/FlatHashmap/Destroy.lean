import X86Kernel.Utils.FlatHashmap.Occupancy

/- Who destroys the values of a flat hash map with a destroy callback.

   A value comes into the map by an insert that succeeds. What is proved: an overwrite and a
   delete call the callback with the entry they remove, an insert that returns -1 with nothing,
   and a rehash moves the entries as they are, so these calls conserve values: what was in the
   table or comes in is in it afterwards or is destroyed, once (`step_conserves`). Clearing and
   freeing a map drop the entries without a call. So along a run every value is destroyed exactly
   once, when its entry goes, exactly if every map that is cleared or freed is empty
   (`destroyed_once_iff`).

   Only calls that return are looked at, so nothing is assumed of the capacity. -/
namespace X86Kernel.Hash
open X86Kernel.Lib

/-- The values in the table, with their keys. -/
def values (m : FlatHashmap) : List (Ptr × Key) :=
  (usedEntries m.entries).map fun e => (e.data, e.keyData)

/-- A map with a callback whose entries are counted. -/
structure Counted (m : FlatHashmap) : Prop where
  used : m.usedCount = countState m.entries .used
  length : m.entries.length ≤ m.capacity
  destroys : m.destroyCb = true

/-! ## The slots that are found -/

theorem findFreeSlotLoop_free {entries : List Entry} {cap : Nat} : ∀ (fuel : Nat) {pos i : Nat},
    findFreeSlotLoop entries cap fuel pos = .ok i →
    ∃ e, entries[i]? = some e ∧ e.state ≠ .used := by
  intro fuel
  induction fuel with
  | zero => intro pos i h; cases h
  | succ fuel ih =>
    intro pos i h
    rw [findFreeSlotLoop] at h
    cases he : entries[pos]? with
    | none =>
      rw [he] at h
      cases h
    | some e =>
      rw [he] at h
      dsimp only at h
      by_cases hused : e.state = .used
      · rw [if_pos hused] at h
        exact ih h
      · rw [if_neg hused] at h
        cases h
        exact ⟨e, he, hused⟩

theorem findFreeSlot_free {entries : List Entry} {cap i : Nat} {hash : UInt64}
    (h : findFreeSlot entries cap hash = .ok i) : ∃ e, entries[i]? = some e ∧ e.state ≠ .used :=
  findFreeSlotLoop_free cap h

theorem findExactEntryLoop_used {m : FlatHashmap} {hash : UInt64} {key : Key} :
    ∀ (fuel : Nat) {pos i : Nat}, findExactEntryLoop m hash key fuel pos = .ok (some i) →
    ∃ e, m.entries[i]? = some e ∧ e.state = .used := by
  intro fuel
  induction fuel with
  | zero => intro pos i h; cases h
  | succ fuel ih =>
    intro pos i h
    rw [findExactEntryLoop] at h
    cases he : m.entries[pos]? with
    | none =>
      rw [he] at h
      cases h
    | some e =>
      rw [he] at h
      dsimp only at h
      by_cases hempty : e.state = .empty
      · rw [if_pos hempty] at h
        cases h
      · rw [if_neg hempty] at h
        split at h
        · rename_i hsame
          cases h
          exact ⟨e, he, of_decide_eq_true (Bool.and_eq_true_iff.1 hsame).1⟩
        · exact ih h

/-- Up to the first slot that is not in use, `find_exact_entry_interval` compares slots in use. -/
theorem findExactEntryInterval_used {m : FlatHashmap} {hash : UInt64} {key : Key} {toIndex : Nat} :
    ∀ (fuel fuel' : Nat) {pos i : Nat},
    findFreeSlotLoop m.entries m.capacity fuel pos = .ok toIndex →
    findExactEntryInterval m toIndex hash key fuel' pos = .ok (some i) →
    ∃ e, m.entries[i]? = some e ∧ e.state = .used := by
  intro fuel
  induction fuel with
  | zero => intro fuel' pos i h; cases h
  | succ fuel ih =>
    intro fuel' pos i hfree h
    cases fuel' with
    | zero => cases h
    | succ fuel' =>
      rw [findExactEntryInterval] at h
      rw [findFreeSlotLoop] at hfree
      by_cases hend : pos = toIndex
      · rw [if_pos hend] at h
        cases h
      · rw [if_neg hend] at h
        cases he : m.entries[pos]? with
        | none =>
          rw [he] at h
          cases h
        | some e =>
          rw [he] at h hfree
          dsimp only at h hfree
          by_cases hused : e.state = .used
          · rw [if_pos hused] at hfree
            rw [if_neg (by rw [hused]; decide)] at h
            split at h
            · cases h
              exact ⟨e, he, hused⟩
            · exact ih fuel' hfree h
          · rw [if_neg hused] at hfree
            exact absurd (Except.ok.inj hfree) hend

/-! ## Rehashing -/

theorem newEntries_unused {cap : Nat} {new : List Entry} (h : newEntries cap = .ok new) :
    usedEntries new = [] ∧ new.length ≤ cap := by
  obtain ⟨u, -, h⟩ := exists_of_bind_eq_ok h
  cases h
  constructor
  · refine List.filter_eq_nil_iff.2 fun e he => ?_
    rw [List.eq_of_mem_replicate he]
    decide
  · rw [List.length_replicate]
    have hle : u32 (entrySize * cap) ≤ entrySize * cap := Nat.mod_le _ _
    exact le_trans (Nat.div_le_div_right hle) (Nat.mul_div_cancel_left cap (by decide)).le

theorem rehashLoop_perm {old : List Entry} {cap : Nat} : ∀ (n pos : Nat) {new new' : List Entry},
    rehashLoop old (usedEntries old).length cap n pos (usedEntries (old.take pos)).length new =
      .ok new' →
    old.length ≤ pos + n → (usedEntries new).Perm (usedEntries (old.take pos)) →
    (usedEntries new').Perm (usedEntries old) ∧ new'.length = new.length := by
  intro n
  induction n with
  | zero =>
    intro pos new new' h hlen hperm
    cases h
    rw [List.take_of_length_le (by omega)] at hperm
    exact ⟨hperm, rfl⟩
  | succ n ih =>
    intro pos new new' h hlen hperm
    have hsplit := usedEntries_take_drop old pos
    have hlens := congrArg List.length hsplit
    rw [List.length_append] at hlens
    rw [rehashLoop] at h
    by_cases hmore : (usedEntries (old.take pos)).length < (usedEntries old).length
    · rw [if_pos hmore] at h
      cases he : old[pos]? with
      | none =>
        rw [he] at h
        cases h
      | some e =>
        rw [he] at h
        dsimp only at h
        by_cases hused : e.state = .used
        · have htake := usedEntries_take_used he hused
          rw [if_neg (not_not_intro hused)] at h
          obtain ⟨slot, hslot, h⟩ := exists_of_bind_eq_ok h
          obtain ⟨x, hx, hxused⟩ := findFreeSlot_free hslot
          have hnext : (usedEntries (new.set slot e)).Perm (usedEntries (old.take (pos + 1))) := by
            rw [htake]
            refine (usedEntries_set_used hx hxused hused).trans ?_
            exact (List.Perm.cons _ hperm).trans (List.perm_append_singleton _ _).symm
          have hcount : (usedEntries (old.take pos)).length + 1 =
              (usedEntries (old.take (pos + 1))).length := by
            rw [htake, List.length_append, List.length_singleton]
          rw [hcount] at h
          have := ih (pos + 1) h (by omega) hnext
          rw [List.length_set] at this
          exact this
        · rw [if_pos hused] at h
          rw [← usedEntries_take_unused he hused] at h hperm
          exact ih (pos + 1) h (by omega) hperm
    · rw [if_neg hmore] at h
      cases h
      have hrest : usedEntries (old.drop pos) = [] := List.length_eq_zero_iff.1 (by omega)
      rw [hrest, List.append_nil] at hsplit
      rw [hsplit]
      exact ⟨hperm, rfl⟩

/-- The same values, and no call of the callback. -/
structure Keeps (m m' : FlatHashmap) : Prop where
  counted : Counted m'
  values : (values m').Perm (values m)
  destroyed : m'.destroyed = m.destroyed

theorem Counted.used_length {m : FlatHashmap} (h : Counted m) :
    m.usedCount = (usedEntries m.entries).length := by
  rw [h.used, length_usedEntries]

theorem rehash_keeps {m m' : FlatHashmap} (h : Counted m) {cap : Nat}
    (hrun : rehash m cap = .ok m') : Keeps m m' := by
  obtain ⟨u, -, hrun⟩ := exists_of_bind_eq_ok hrun
  obtain ⟨new, hnew, hrun⟩ := exists_of_bind_eq_ok hrun
  obtain ⟨new', hloop, hrun⟩ := exists_of_bind_eq_ok hrun
  obtain ⟨hunused, hlength⟩ := newEntries_unused hnew
  rw [h.used_length] at hloop
  obtain ⟨hperm, hlen⟩ := rehashLoop_perm m.capacity 0 hloop (by have := h.length; omega)
    (by rw [hunused]; exact List.Perm.nil)
  cases hrun
  refine ⟨⟨?_, ?_, h.destroys⟩, hperm.map _, rfl⟩
  · show m.usedCount = countState new' .used
    rw [h.used_length, ← length_usedEntries, hperm.length_eq]
  · show new'.length ≤ cap
    rw [hlen]
    exact hlength

theorem handleRehash_keeps {m m' : FlatHashmap} (h : Counted m) (hrun : handleRehash m = .ok m') :
    Keeps m m' := by
  obtain ⟨resize, -, hrun⟩ := exists_of_bind_eq_ok hrun
  split at hrun
  · exact rehash_keeps h hrun
  · obtain ⟨again, -, hrun⟩ := exists_of_bind_eq_ok hrun
    split at hrun
    · exact rehash_keeps h hrun
    · cases hrun
      exact ⟨h, List.Perm.refl _, rfl⟩

/-! ## The calls -/

/-- What the callback was called with by a call, and what became of the values: those of the
table and those that came in are in the table or were destroyed. -/
def ConservedBy (m m' : FlatHashmap) (added : List (Ptr × Key)) : Prop :=
  ∃ fresh, m'.destroyed = m.destroyed ++ fresh ∧ (values m ++ added).Perm (values m' ++ fresh)

theorem insertEntry_values {m m' : FlatHashmap} (h : Counted m) {i : Nat} {x : Entry}
    (hx : m.entries[i]? = some x) (hxused : x.state ≠ .used) {hash : UInt64} {key : Key}
    {data : Ptr} {flags : BitVec 8} (hrun : insertEntry m i hash key data flags = .ok m') :
    Counted m' ∧ (values m').Perm ((data, key) :: values m) ∧ m'.destroyed = m.destroyed := by
  unfold insertEntry at hrun
  rw [hx] at hrun
  dsimp only at hrun
  generalize hy : (Entry.mk hash key data .used (flags &&& insFlagKeyCopy != 0#8)) = y at hrun
  have hyused : y.state = .used := by rw [← hy]
  have hyvalue : (y.data, y.keyData) = (data, key) := by rw [← hy]
  have hset := usedEntries_set_used hx hxused hyused
  generalize hm₁ : (FlatHashmap.mk _ _ _ _ _ _ _ _) = m₁ at hrun
  have hcounted : Counted m₁ := by
    subst hm₁
    refine ⟨?_, ?_, h.destroys⟩
    · show m.usedCount + 1 = countState (m.entries.set i y) .used
      rw [h.used_length, ← length_usedEntries, hset.length_eq, List.length_cons]
    · show (m.entries.set i y).length ≤ m.capacity
      rw [List.length_set]
      exact h.length
  have hk := handleRehash_keeps hcounted hrun
  subst hm₁
  refine ⟨hk.counted, hk.values.trans ?_, hk.destroyed⟩
  rw [← hyvalue]
  exact hset.map _

theorem cleanEntry_values {m : FlatHashmap} (h : Counted m) {i : Nat} {e : Entry}
    (he : m.entries[i]? = some e) (hused : e.state = .used) {newState : EntryState}
    (hstate : newState ≠ .used) {emptyCount deleteCount : Nat} :
    Counted { cleanEntry m i e newState with
      usedCount := m.usedCount - 1, emptyCount := emptyCount, deleteCount := deleteCount } ∧
    (values m).Perm ((e.data, e.keyData) :: values (cleanEntry m i e newState)) ∧
    (cleanEntry m i e newState).destroyed = m.destroyed ++ [(e.data, e.keyData)] := by
  obtain ⟨rest, hrest, hset⟩ := exists_usedEntries he hused
  have hafter := hset { e with keyData := [], hash := 0, allocated := false, state := newState }
  rw [if_neg hstate] at hafter
  refine ⟨⟨?_, ?_, h.destroys⟩, ?_, ?_⟩
  · show m.usedCount - 1 = countState (m.entries.set i _) .used
    rw [h.used_length, ← length_usedEntries, hafter.length_eq, hrest.length_eq, List.length_cons,
      Nat.add_sub_cancel]
  · show (m.entries.set i _).length ≤ m.capacity
    rw [List.length_set]
    exact h.length
  · exact (hrest.map _).trans (List.Perm.cons _ (hafter.map _).symm)
  · show (if m.destroyCb then _ else _) = _
    rw [if_pos h.destroys]

/-- An insert returns -1 and leaves the map alone, or the value is in. -/
theorem fhashmapInsert_conserves {m m' : FlatHashmap} (h : Counted m) {key : Key} {data : Ptr}
    {flags : BitVec 8} {c : Int} (hrun : fhashmapInsert m key data flags = .ok (m', c)) :
    Counted m' ∧ ((c = -1 ∧ m' = m) ∨ (c = 0 ∧ ConservedBy m m' [(data, key)])) := by
  obtain ⟨slot, hslot, hrun⟩ := exists_of_bind_eq_ok hrun
  obtain ⟨same, hsame, hrun⟩ := exists_of_bind_eq_ok hrun
  cases same with
  | none =>
    obtain ⟨m₁, hins, hrun⟩ := exists_of_bind_eq_ok hrun
    cases hrun
    obtain ⟨x, hx, hxused⟩ := findFreeSlot_free hslot
    obtain ⟨hcounted, hvalues, hdestroyed⟩ := insertEntry_values h hx hxused hins
    refine ⟨hcounted, .inr ⟨rfl, [], by rw [hdestroyed, List.append_nil], ?_⟩⟩
    rw [List.append_nil]
    exact (List.perm_append_singleton _ _).trans hvalues.symm
  | some i =>
    obtain ⟨e, he, hused⟩ := findExactEntryInterval_used _ _ hslot hsame
    dsimp only at hrun
    split at hrun
    · cases hrun
      exact ⟨h, .inl ⟨rfl, rfl⟩⟩
    · rw [he] at hrun
      obtain ⟨m₁, hins, hrun⟩ := exists_of_bind_eq_ok hrun
      cases hrun
      obtain ⟨hclean, hvalues, hdestroyed⟩ := @cleanEntry_values m h i e he hused .empty (by decide)
        (m.emptyCount + 1) m.deleteCount
      obtain ⟨hi, -⟩ := List.getElem?_eq_some_iff.1 he
      obtain ⟨hcounted, hnew, hsame'⟩ := insertEntry_values hclean
        (List.getElem?_set_self hi) (show (EntryState.empty : EntryState) ≠ .used by decide) hins
      refine ⟨hcounted, .inr ⟨rfl, [(e.data, e.keyData)], hsame'.trans hdestroyed, ?_⟩⟩
      -- the old value goes out of the table and the new one comes in
      have hout : (values m ++ [(data, key)]).Perm
          ((data, key) :: values (cleanEntry m i e .empty) ++
          [(e.data, e.keyData)]) := by
        refine (List.perm_append_singleton _ _).trans (List.Perm.cons _ ?_)
        exact hvalues.trans (List.perm_append_singleton _ _).symm
      exact hout.trans (hnew.symm.append_right _)

theorem fhashmapDelete_conserves {m m' : FlatHashmap} (h : Counted m) {key : Key}
    {r : Option Ptr} (hrun : fhashmapDelete m key = .ok (m', r)) :
    Counted m' ∧ ConservedBy m m' [] := by
  obtain ⟨same, hsame, hrun⟩ := exists_of_bind_eq_ok hrun
  cases same with
  | none =>
    cases hrun
    exact ⟨h, [], by rw [List.append_nil], List.Perm.refl _⟩
  | some i =>
    obtain ⟨u, -, hloop⟩ := exists_of_bind_eq_ok hsame
    obtain ⟨e, he, hused⟩ := findExactEntryLoop_used _ hloop
    dsimp only at hrun
    rw [he] at hrun
    obtain ⟨m₁, hre, hrun⟩ := exists_of_bind_eq_ok hrun
    cases hrun
    obtain ⟨hclean, hvalues, hdestroyed⟩ := @cleanEntry_values m h i e he hused .delete (by decide)
      m.emptyCount (m.deleteCount + 1)
    have hk := handleRehash_keeps hclean hre
    refine ⟨hk.counted, [(e.data, e.keyData)], hk.destroyed.trans hdestroyed, ?_⟩
    rw [List.append_nil]
    refine hvalues.trans ((List.perm_append_singleton _ _).symm.trans ?_)
    exact hk.values.symm.append_right _

/-! ## Clearing and freeing -/

theorem conserved_dropped_iff {m m' : FlatHashmap} (hnone : values m' = [])
    (hdestroyed : m'.destroyed = m.destroyed) : ConservedBy m m' [] ↔ values m = [] := by
  constructor
  · intro h
    obtain ⟨fresh, hfresh, hperm⟩ := h
    have hnil : fresh = [] := List.append_right_eq_self.1 (hfresh.symm.trans hdestroyed)
    rw [hnone, hnil, List.append_nil, List.append_nil] at hperm
    exact hperm.eq_nil
  · intro h
    exact ⟨[], by rw [hdestroyed, List.append_nil], by rw [h, hnone]⟩

theorem values_replicate {m : FlatHashmap} {n : Nat} (h : m.entries = List.replicate n .zero) :
    values m = [] ∧ countState m.entries .used = 0 := by
  have hnone : usedEntries m.entries = [] := by
    rw [h]
    refine List.filter_eq_nil_iff.2 fun e he => ?_
    rw [List.eq_of_mem_replicate he]
    decide
  exact ⟨by rw [values, hnone]; rfl, by rw [← length_usedEntries, hnone]; rfl⟩

theorem fhashmapClear_values {m m' : FlatHashmap} (h : Counted m)
    (hrun : fhashmapClear m = .ok m') :
    Counted m' ∧ values m' = [] ∧ m'.destroyed = m.destroyed := by
  unfold fhashmapClear at hrun
  split at hrun
  · cases hrun
    obtain ⟨hvalues, hcount⟩ := @values_replicate
      { m with
        entries := List.replicate m.entries.length .zero, usedCount := 0, deleteCount := 0,
        emptyCount := m.capacity } m.entries.length rfl
    refine ⟨⟨hcount.symm, ?_, h.destroys⟩, hvalues, rfl⟩
    show (List.replicate m.entries.length Entry.zero).length ≤ m.capacity
    rw [List.length_replicate]
    exact h.length
  · cases hrun

theorem fhashmapFree_values {m m' : FlatHashmap} (hrun : fhashmapFree m = .ok m') :
    values m' = [] ∧ m'.destroyed = m.destroyed := by
  unfold fhashmapFree at hrun
  split at hrun
  · cases hrun
    exact ⟨rfl, rfl⟩
  · cases hrun

theorem initFhashmapCustom_counted {capacity : Nat} {hash : Key → UInt64} {m : FlatHashmap}
    (h : initFhashmapCustom capacity hash true = .ok m) :
    Counted m ∧ values m = [] ∧ m.destroyed = [] := by
  obtain ⟨u, -, h⟩ := exists_of_bind_eq_ok h
  obtain ⟨new, hnew, h⟩ := exists_of_bind_eq_ok h
  obtain ⟨hnone, hlength⟩ := newEntries_unused hnew
  cases h
  refine ⟨⟨?_, hlength, rfl⟩, ?_, rfl⟩
  · show 0 = countState new .used
    rw [← length_usedEntries, hnone]
    rfl
  · show (usedEntries new).map _ = []
    rw [hnone]
    rfl

/-! ## Whole runs -/

/-- The value that a call has put in. -/
def added : Op → Out → List (Ptr × Key)
  | .insert key data _, .code c => if c = 0 then [(data, key)] else []
  | _, _ => []

/-- The values that the calls of a run have put in. -/
def addedBy : List Op → List Out → List (Ptr × Key)
  | op :: ops, o :: outs => added op o ++ addedBy ops outs
  | _, _ => []

/-- A call conserves values. -/
def Conserves (m : FlatHashmap) (op : Op) : Prop :=
  ∀ m' o, step m op = .ok (m', o) → ConservedBy m m' (added op o)

/-- A map that is cleared is empty. -/
def EmptyIfCleared (m : FlatHashmap) (op : Op) : Prop := op = .clear → values m = []

instance (m : FlatHashmap) (op : Op) : Decidable (EmptyIfCleared m op) :=
  inferInstanceAs (Decidable (op = .clear → values m = []))

/-- Every call but a clear conserves values, and a clear does on an empty map. -/
theorem step_conserves {m m' : FlatHashmap} (h : Counted m) {op : Op} {o : Out}
    (hrun : step m op = .ok (m', o)) : Counted m' ∧ (Conserves m op ↔ EmptyIfCleared m op) := by
  have hcons : (Conserves m op ↔ ConservedBy m m' (added op o)) := by
    constructor
    · intro hc
      exact hc m' o hrun
    · intro hc m'' o' hrun'
      obtain ⟨rfl, rfl⟩ := Prod.mk.inj (Except.ok.inj (hrun.symm.trans hrun'))
      exact hc
  rw [hcons]
  cases op with
  | insert key data flags =>
    obtain ⟨⟨m₁, c⟩, hins, hret⟩ := exists_of_bind_eq_ok hrun
    cases hret
    obtain ⟨hcounted, hc⟩ := fhashmapInsert_conserves h hins
    refine ⟨hcounted, iff_of_true ?_ nofun⟩
    rcases hc with ⟨rfl, rfl⟩ | ⟨rfl, hconserved⟩
    · exact ⟨[], by rw [List.append_nil], List.Perm.refl _⟩
    · exact hconserved
  | delete key =>
    obtain ⟨⟨m₁, r⟩, hdel, hret⟩ := exists_of_bind_eq_ok hrun
    cases hret
    obtain ⟨hcounted, hconserved⟩ := fhashmapDelete_conserves h hdel
    exact ⟨hcounted, iff_of_true hconserved nofun⟩
  | getData key =>
    obtain ⟨r, -, hret⟩ := exists_of_bind_eq_ok hrun
    cases hret
    exact ⟨h, iff_of_true ⟨[], by rw [List.append_nil], List.Perm.refl _⟩ nofun⟩
  | clear =>
    obtain ⟨m₁, hclear, hret⟩ := exists_of_bind_eq_ok hrun
    cases hret
    obtain ⟨hcounted, hnone, hdestroyed⟩ := fhashmapClear_values h hclear
    refine ⟨hcounted, (conserved_dropped_iff hnone hdestroyed).trans ?_⟩
    exact ⟨fun hv _ => hv, fun hv => hv rfl⟩

theorem ConservedBy.trans {m m₁ m₂ : FlatHashmap} {a b : List (Ptr × Key)}
    (h : ConservedBy m m₁ a) (h' : ConservedBy m₁ m₂ b) : ConservedBy m m₂ (a ++ b) := by
  obtain ⟨fresh, hfresh, hperm⟩ := h
  obtain ⟨fresh', hfresh', hperm'⟩ := h'
  refine ⟨fresh ++ fresh', by rw [hfresh', hfresh, List.append_assoc], ?_⟩
  have hswap : (values m₁ ++ fresh ++ b).Perm (values m₁ ++ b ++ fresh) := by
    rw [List.append_assoc, List.append_assoc]
    exact List.perm_append_comm.append_left _
  have hlast : (values m₂ ++ fresh' ++ fresh).Perm (values m₂ ++ (fresh ++ fresh')) := by
    rw [List.append_assoc]
    exact List.perm_append_comm.append_left _
  rw [← List.append_assoc]
  exact (hperm.append_right b).trans (hswap.trans ((hperm'.append_right fresh).trans hlast))

theorem run_conserves : ∀ {ops : List Op} {m m' : FlatHashmap} {outs : List Out},
    Meets step Conserves m ops → run step m ops = .ok (m', outs) →
    ConservedBy m m' (addedBy ops outs) := by
  intro ops
  induction ops with
  | nil =>
    intro m m' outs _ hrun
    obtain ⟨rfl, rfl⟩ := Prod.mk.inj (Except.ok.inj hrun)
    exact ⟨[], by rw [List.append_nil], List.Perm.refl _⟩
  | cons op ops ih =>
    intro m m' outs hmeets hrun
    obtain ⟨m₁, o, outs', hs, hrest, rfl⟩ := run_cons_eq_ok hrun
    exact (hmeets.1 m₁ o hs).trans (ih (hmeets.2 m₁ o hs) hrest)

/-- Along the run every call, and the free at its end, destroys once what it removes and nothing
else; in the end every value that was put in has been destroyed once. -/
structure DestroyedOnce (m₀ : FlatHashmap) (ops : List Op) (m : FlatHashmap) (outs : List Out)
    (m' : FlatHashmap) : Prop where
  calls : Meets step Conserves m₀ ops
  free : ConservedBy m m' []
  total : m'.destroyed.Perm (addedBy ops outs)

/-- Values are destroyed exactly once in a run exactly if every map it clears is empty, and the
map that is freed. -/
theorem destroyed_once_iff {capacity : Nat} {hash : Key → UInt64} {m₀ m m' : FlatHashmap}
    {ops : List Op} {outs : List Out} (hinit : initFhashmapCustom capacity hash true = .ok m₀)
    (hrun : run step m₀ ops = .ok (m, outs)) (hfree : fhashmapFree m = .ok m') :
    DestroyedOnce m₀ ops m outs m' ↔ Meets step EmptyIfCleared m₀ ops ∧ values m = [] := by
  obtain ⟨hcounted, hnone, hnothing⟩ := initFhashmapCustom_counted hinit
  obtain ⟨hgone, hkept⟩ := fhashmapFree_values hfree
  have hmeets := meets_iff_of_run (fun hc hs => step_conserves hc hs) hcounted hrun
  have hlast := conserved_dropped_iff hgone hkept
  constructor
  · intro h
    exact ⟨hmeets.1 h.calls, hlast.1 h.free⟩
  · intro h
    obtain ⟨hcleared, hempty⟩ := h
    obtain ⟨fresh, hfresh, hperm⟩ := run_conserves (hmeets.2 hcleared) hrun
    refine ⟨hmeets.2 hcleared, hlast.2 hempty, ?_⟩
    rw [hnone, hempty, List.nil_append, List.nil_append] at hperm
    rw [hkept, hfresh, hnothing, List.nil_append]
    exact hperm.symm

/-- The calls empty the map before it is cleared, and before it is freed. -/
def emptyingCalls : List Op :=
  [.insert [1] 16#32 0#8, .insert [1] 32#32 2#8, .insert [1] 48#32 0#8, .insert [2] 64#32 1#8,
    .delete [1], .delete [2], .clear, .insert [3] 80#32 0#8, .delete [3]]

theorem emptyingCalls_destroy :
    ∃ m₀, initFhashmapCustom 3 (fun _ => 7) true = .ok m₀ ∧
    ∃ m outs m', run step m₀ emptyingCalls = .ok (m, outs) ∧ fhashmapFree m = .ok m' ∧
      DestroyedOnce m₀ emptyingCalls m outs m' := by
  have hrun : ∃ m₀, initFhashmapCustom 3 (fun _ => 7) true = .ok m₀ ∧
      (Meets step EmptyIfCleared m₀ emptyingCalls ∧
      ∃ r, run step m₀ emptyingCalls = .ok r ∧ (values r.1 = [] ∧
        ∃ m', fhashmapFree r.1 = .ok m' ∧ True)) := by
    decide +kernel
  obtain ⟨m₀, hinit, hcleared, ⟨m, outs⟩, hrun, hempty, m', hfree, -⟩ := hrun
  exact ⟨m₀, hinit, m, outs, m', hrun, hfree,
    (destroyed_once_iff hinit hrun hfree).2 ⟨hcleared, hempty⟩⟩

/-- A map that is freed with an entry in it: the value is never destroyed. -/
theorem freed_entry_not_destroyed :
    ∃ m₀, initFhashmapCustom 64 (fun _ => 7) true = .ok m₀ ∧
    ∃ m outs m', run step m₀ [.insert [1] 16#32 0#8] = .ok (m, outs) ∧ fhashmapFree m = .ok m' ∧
      addedBy [.insert [1] 16#32 0#8] outs = [(16#32, [1])] ∧ m'.destroyed = [] ∧
      ¬ DestroyedOnce m₀ [.insert [1] 16#32 0#8] m outs m' := by
  have hrun : ∃ m₀, initFhashmapCustom 64 (fun _ => 7) true = .ok m₀ ∧
      ∃ r, run step m₀ [.insert [1] 16#32 0#8] = .ok r ∧
        (addedBy [.insert [1] 16#32 0#8] r.2 = [(16#32, [1])] ∧
          ∃ m', fhashmapFree r.1 = .ok m' ∧ m'.destroyed = []) := by
    decide +kernel
  obtain ⟨m₀, hinit, ⟨m, outs⟩, hrun, hadded, m', hfree, hnone⟩ := hrun
  refine ⟨m₀, hinit, m, outs, m', hrun, hfree, hadded, hnone, fun h => ?_⟩
  have hlength := h.total.length_eq
  rw [hnone, hadded] at hlength
  cases hlength

end X86Kernel.Hash
