import X86Kernel.Utils.FlatHashmap.Destroy

/- Iterating over a flat hash map (`fhashmap_foreach`), and the two caches that purge themselves
   with it (`kernel/vfs/core/dir_entry_cache.c`, `kernel/vfs/inode/inode_cache.c`).

   The condition of the loop is the capacity and not the index against it. What is proved: the loop
   visits every used entry once, as far as the callback leaves the map alone
   (`foreachLoop_visits`), and then goes on behind the table (`fhashmapForeach_past_table`). No
   call of the map makes its capacity 0, so no iteration over a map returns and neither cache is
   ever purged (`foreach_never_returns`).

   Correspondence (C ↔ Lean):
     `fhashmap_foreach`                          ↔ `fhashmapForeach` (`foreachLoop`)
     `dir_purge_entry`, `dir_entry_cache_purge_sb` ↔ `dirPurgeEntry`, `dirEntryCachePurgeSb`
     `del_inode_entry`, `inode_cache_purge_sb`   ↔ `delInodeEntry`, `inodeCachePurgeSb` -/
namespace X86Kernel.Hash
open X86Kernel.Lib

variable {γ : Type}

/-- A callback: it gets the value and the key of an entry, and may change the map and what its
context points to. -/
abbrev Callback (γ : Type) := Ptr → Key → FlatHashmap × γ → Kernel (FlatHashmap × γ)

/-- The loop of `fhashmap_foreach` from slot `i` on. -/
def foreachLoop (cb : Callback γ) : Nat → Nat → FlatHashmap × γ → Kernel (FlatHashmap × γ)
  | 0, _, _ => .error .diverges
  | fuel + 1, i, s =>
    if s.1.capacity = 0 then .ok s
    else
      match s.1.entries[i]? with
      | none => .error .outOfBounds
      | some e => do
        let s ← (if e.state = .used then cb e.data e.keyData s else .ok s)
        foreachLoop cb fuel (u32 (i + 1)) s

def fhashmapForeach (cb : Callback γ) (fuel : Nat) (m : FlatHashmap) (ctx : γ) :
    Kernel (FlatHashmap × γ) :=
  foreachLoop cb fuel 0 (m, ctx)

/-- `dir_purge_entry`: `sbOf` is `inode->sb` of a directory entry. -/
def dirPurgeEntry (sbOf : Ptr → Ptr) (sb : Ptr) : Callback Unit := fun data key s =>
  if sbOf data = sb then do
    let (m, _) ← fhashmapDelete s.1 key
    return (m, ())
  else .ok s

def dirEntryCachePurgeSb (sbOf : Ptr → Ptr) (sb : Ptr) (fuel : Nat) (m : FlatHashmap) :
    Kernel FlatHashmap := do
  let s ← fhashmapForeach (dirPurgeEntry sbOf sb) fuel m ()
  return s.1

def delInodeEntry : Callback Unit := fun _ key s => do
  let (m, _) ← fhashmapDelete s.1 key
  return (m, ())

def inodeCachePurgeSb (fuel : Nat) (m : FlatHashmap) : Kernel FlatHashmap := do
  let s ← fhashmapForeach delInodeEntry fuel m ()
  return s.1

/-- A callback that leaves the map unchanged. -/
def leavesMap (note : Ptr → Key → γ → γ) : Callback γ := fun data key s =>
  .ok (s.1, note data key s.2)

/-! ## What the loop visits -/

theorem foreachLoop_visits (note : Ptr → Key → γ → γ) {m : FlatHashmap} (hcap : m.capacity ≠ 0)
    (fuel : Nat) : ∀ (n : Nat) (ctx : γ), n ≤ m.entries.length → n < 2 ^ 32 →
    foreachLoop (leavesMap note) (n + fuel) 0 (m, ctx) = foreachLoop (leavesMap note) fuel n
      (m, (usedEntries (m.entries.take n)).foldl (fun c e => note e.data e.keyData c) ctx) := by
  intro n
  induction n generalizing fuel with
  | zero => intro ctx _ _; rw [Nat.zero_add]; rfl
  | succ n ih =>
    intro ctx hn hw
    have hstep := ih (fuel + 1) ctx (by omega) (by omega)
    rw [show n + 1 + fuel = n + (fuel + 1) by omega, hstep, foreachLoop, if_neg hcap]
    have he : m.entries[n]? = some m.entries[n] := List.getElem?_eq_getElem hn
    rw [he]
    dsimp only
    rw [show u32 (n + 1) = n + 1 from Nat.mod_eq_of_lt hw]
    by_cases hused : m.entries[n].state = .used
    · rw [if_pos hused, usedEntries_take_used he hused, List.foldl_append]
      rfl
    · rw [if_neg hused, usedEntries_take_unused he hused]
      rfl

/-- After the last slot the loop reads the one behind the table. -/
theorem fhashmapForeach_past_table (note : Ptr → Key → γ → γ) {m : FlatHashmap} (hs : Sound m)
    (hw : m.capacity < 2 ^ 32) (ctx : γ) :
    fhashmapForeach (leavesMap note) (m.capacity + 1) m ctx = .error .outOfBounds := by
  have hcap : m.capacity ≠ 0 := (pow_pos_of hs.shape.pow).ne'
  rw [fhashmapForeach,
    foreachLoop_visits note hcap 1 m.capacity ctx hs.shape.length.ge hw, foreachLoop, if_neg hcap,
    List.getElem?_eq_none hs.shape.length.le]

/-! ## The capacity is never 0 -/

theorem rehash_capacity {m m' : FlatHashmap} {cap : Nat} (h : rehash m cap = .ok m') :
    m.capacity ≤ m'.capacity := by
  obtain ⟨u, hle, h⟩ := exists_of_bind_eq_ok h
  obtain ⟨new, -, h⟩ := exists_of_bind_eq_ok h
  obtain ⟨new', -, h⟩ := exists_of_bind_eq_ok h
  cases h
  exact of_decide_eq_true (of_assert_eq_ok hle)

theorem handleRehash_capacity {m m' : FlatHashmap} (h : handleRehash m = .ok m') :
    m.capacity ≤ m'.capacity := by
  obtain ⟨resize, -, h⟩ := exists_of_bind_eq_ok h
  split at h
  · exact rehash_capacity h
  · obtain ⟨again, -, h⟩ := exists_of_bind_eq_ok h
    split at h
    · exact rehash_capacity h
    · cases h
      exact le_rfl

theorem insertEntry_capacity {m m' : FlatHashmap} {i : Nat} {hash : UInt64} {key : Key}
    {data : Ptr} {flags : BitVec 8} (h : insertEntry m i hash key data flags = .ok m') :
    m.capacity ≤ m'.capacity := by
  unfold insertEntry at h
  cases he : m.entries[i]? with
  | none =>
    rw [he] at h
    cases h
  | some e =>
    rw [he] at h
    have hle := handleRehash_capacity h
    exact hle

theorem fhashmapInsert_capacity {m m' : FlatHashmap} {key : Key} {data : Ptr} {flags : BitVec 8}
    {c : Int} (h : fhashmapInsert m key data flags = .ok (m', c)) : m.capacity ≤ m'.capacity := by
  obtain ⟨slot, -, h⟩ := exists_of_bind_eq_ok h
  obtain ⟨same, -, h⟩ := exists_of_bind_eq_ok h
  cases same with
  | none =>
    obtain ⟨m₁, hins, h⟩ := exists_of_bind_eq_ok h
    cases h
    exact insertEntry_capacity hins
  | some i =>
    dsimp only at h
    split at h
    · cases h
      exact le_rfl
    · cases he : m.entries[i]? with
      | none =>
        rw [he] at h
        cases h
      | some e =>
        rw [he] at h
        obtain ⟨m₁, hins, h⟩ := exists_of_bind_eq_ok h
        cases h
        have hle := insertEntry_capacity hins
        exact hle

theorem fhashmapDelete_capacity {m m' : FlatHashmap} {key : Key} {r : Option Ptr}
    (h : fhashmapDelete m key = .ok (m', r)) : m.capacity ≤ m'.capacity := by
  obtain ⟨same, -, h⟩ := exists_of_bind_eq_ok h
  cases same with
  | none =>
    cases h
    exact le_rfl
  | some i =>
    dsimp only at h
    cases he : m.entries[i]? with
    | none =>
      rw [he] at h
      cases h
    | some e =>
      rw [he] at h
      obtain ⟨m₁, hre, h⟩ := exists_of_bind_eq_ok h
      cases h
      have hle := handleRehash_capacity hre
      exact hle

theorem step_capacity {m m' : FlatHashmap} {op : Op} {o : Out} (h : step m op = .ok (m', o)) :
    m.capacity ≤ m'.capacity := by
  cases op with
  | insert key data flags =>
    obtain ⟨⟨m₁, c⟩, hins, hret⟩ := exists_of_bind_eq_ok h
    cases hret
    exact fhashmapInsert_capacity hins
  | delete key =>
    obtain ⟨⟨m₁, r⟩, hdel, hret⟩ := exists_of_bind_eq_ok h
    cases hret
    exact fhashmapDelete_capacity hdel
  | getData key =>
    obtain ⟨r, -, hret⟩ := exists_of_bind_eq_ok h
    cases hret
    exact le_rfl
  | clear =>
    obtain ⟨m₁, hclear, hret⟩ := exists_of_bind_eq_ok h
    cases hret
    unfold fhashmapClear at hclear
    split at hclear
    · cases hclear
      exact le_rfl
    · cases hclear

theorem initFhashmapCustom_capacity {capacity : Nat} {hash : Key → UInt64} {destroyCb : Bool}
    {m : FlatHashmap} (h : initFhashmapCustom capacity hash destroyCb = .ok m) :
    minCapacity ≤ m.capacity := by
  obtain ⟨u, -, h⟩ := exists_of_bind_eq_ok h
  obtain ⟨new, -, h⟩ := exists_of_bind_eq_ok h
  cases h
  show minCapacity ≤ if _ then _ else _
  split <;> omega

theorem run_capacity : ∀ {ops : List Op} {m m' : FlatHashmap} {outs : List Out},
    run step m ops = .ok (m', outs) → m.capacity ≤ m'.capacity := by
  intro ops
  induction ops with
  | nil =>
    intro m m' outs hrun
    cases hrun
    exact le_rfl
  | cons op ops ih =>
    intro m m' outs hrun
    obtain ⟨m₁, o, outs', hs, hrest, -⟩ := run_cons_eq_ok hrun
    exact le_trans (step_capacity hs) (ih hrest)

/-! ## Iterating -/

theorem foreachLoop_ne_ok {cb : Callback γ}
    (hcb : ∀ data key s s', cb data key s = .ok s' → s.1.capacity ≤ s'.1.capacity) :
    ∀ (fuel i : Nat)
    {s : FlatHashmap × γ}, s.1.capacity ≠ 0 → ∀ s', foreachLoop cb fuel i s ≠ .ok s' := by
  intro fuel
  induction fuel with
  | zero => intro i s _ s' h; cases h
  | succ fuel ih =>
    intro i s hcap s' h
    rw [foreachLoop, if_neg hcap] at h
    cases he : s.1.entries[i]? with
    | none =>
      rw [he] at h
      cases h
    | some e =>
      rw [he] at h
      obtain ⟨s₁, hs₁, h⟩ := exists_of_bind_eq_ok h
      have hcap₁ : s₁.1.capacity ≠ 0 := by
        split at hs₁
        · have := hcb _ _ _ _ hs₁
          omega
        · cases hs₁
          exact hcap
      exact ih (u32 (i + 1)) hcap₁ s' h

/-- The iteration returns, and has called a callback that leaves the map unchanged once for every
used entry. -/
def Iterates (m : FlatHashmap) (note : Ptr → Key → γ → γ) (ctx : γ) : Prop :=
  ∃ (fuel : Nat) (order : List (Ptr × Key)), order.Perm (values m) ∧
    fhashmapForeach (leavesMap note) fuel m ctx =
    .ok (m, order.foldl (fun c v => note v.1 v.2 c) ctx)

/-- The purge returns, and has removed the entries with an inode of `sb`, no others. -/
def PurgesSb (sbOf : Ptr → Ptr) (sb : Ptr) (m : FlatHashmap) : Prop :=
  ∃ fuel m', dirEntryCachePurgeSb sbOf sb fuel m = .ok m' ∧
    (values m').Perm ((values m).filter fun v => decide (sbOf v.1 ≠ sb))

/-- The purge returns, and has removed every entry. -/
def PurgesAll (m : FlatHashmap) : Prop :=
  ∃ fuel m', inodeCachePurgeSb fuel m = .ok m' ∧ values m' = []

theorem not_iterates {m : FlatHashmap} (hcap : m.capacity ≠ 0) (note : Ptr → Key → γ → γ)
    (ctx : γ) : ¬ Iterates m note ctx := by
  intro h
  obtain ⟨fuel, order, -, hrun⟩ := h
  refine foreachLoop_ne_ok (fun data key s s' hcb => ?_) fuel 0 hcap _ hrun
  cases hcb
  exact le_rfl

theorem not_purgesSb {m : FlatHashmap} (hcap : m.capacity ≠ 0) (sbOf : Ptr → Ptr) (sb : Ptr) :
    ¬ PurgesSb sbOf sb m := by
  intro h
  obtain ⟨fuel, m', hrun, -⟩ := h
  obtain ⟨s, hloop, -⟩ := exists_of_bind_eq_ok hrun
  refine foreachLoop_ne_ok (fun data key s s' hcb => ?_) fuel 0 hcap _ hloop
  unfold dirPurgeEntry at hcb
  split at hcb
  · obtain ⟨⟨m₁, r⟩, hdel, hret⟩ := exists_of_bind_eq_ok hcb
    cases hret
    exact fhashmapDelete_capacity hdel
  · cases hcb
    exact le_rfl

theorem not_purgesAll {m : FlatHashmap} (hcap : m.capacity ≠ 0) : ¬ PurgesAll m := by
  intro h
  obtain ⟨fuel, m', hrun, -⟩ := h
  obtain ⟨s, hloop, -⟩ := exists_of_bind_eq_ok hrun
  refine foreachLoop_ne_ok (fun data key s s' hcb => ?_) fuel 0 hcap _ hloop
  obtain ⟨⟨m₁, r⟩, hdel, hret⟩ := exists_of_bind_eq_ok hcb
  cases hret
  exact fhashmapDelete_capacity hdel

/-- No iteration over a map that was made and used by its calls returns, and no purge. -/
theorem foreach_never_returns {capacity : Nat} {hash : Key → UInt64} {destroyCb : Bool}
    {m₀ m : FlatHashmap} (hinit : initFhashmapCustom capacity hash destroyCb = .ok m₀)
    {ops : List Op} {outs : List Out} (hrun : run step m₀ ops = .ok (m, outs)) :
    (∀ (γ : Type) (note : Ptr → Key → γ → γ) (ctx : γ), ¬ Iterates m note ctx) ∧
    (∀ sbOf sb, ¬ PurgesSb sbOf sb m) ∧ ¬ PurgesAll m := by
  have hmin := initFhashmapCustom_capacity hinit
  have hle := run_capacity hrun
  have hcap : m.capacity ≠ 0 := (lt_of_lt_of_le (by decide) (le_trans hmin hle)).ne'
  exact ⟨fun γ note ctx => not_iterates hcap note ctx, not_purgesSb hcap, not_purgesAll hcap⟩

theorem fourInserts_never_iterated :
    ∃ m₀, initFhashmapCustom 4 (fun _ => 0) true = .ok m₀ ∧
    ∃ m outs, run step m₀ [.insert [1] 16#32 0#8, .insert [2] 32#32 0#8] = .ok (m, outs) ∧
      (∀ (γ : Type) (note : Ptr → Key → γ → γ) (ctx : γ), ¬ Iterates m note ctx) ∧
      (∀ sbOf sb, ¬ PurgesSb sbOf sb m) ∧ ¬ PurgesAll m := by
  have hrun : ∃ m₀, initFhashmapCustom 4 (fun _ => 0) true = .ok m₀ ∧
      ∃ r, run step m₀ [.insert [1] 16#32 0#8, .insert [2] 32#32 0#8] = .ok r ∧ True := by
    decide +kernel
  obtain ⟨m₀, hinit, r, hrun, -⟩ := hrun
  exact ⟨m₀, hinit, r.1, r.2, hrun, foreach_never_returns hinit hrun⟩

/-- A map with one entry: the callback is called for it, then the slot behind the table is read;
the purge deletes the entry and then reads there too. -/
theorem oneEntry_not_iterated :
    ∃ m₀, initFhashmapCustom 4 (fun _ => 0) true = .ok m₀ ∧
    ∃ r, run step m₀ [.insert [1] 16#32 0#8] = .ok r ∧
      (r.1.capacity = 4 ∧ values r.1 = [(16#32, [1])] ∧
      fhashmapForeach (leavesMap fun data key seen => seen ++ [(data, key)]) 5 r.1 [] =
        .error .outOfBounds ∧
      inodeCachePurgeSb 5 r.1 = .error .outOfBounds ∧
      ¬ Iterates r.1 (fun data key seen => seen ++ [(data, key)]) [] ∧ ¬ PurgesAll r.1 ∧
      ¬ PurgesSb id 16#32 r.1) := by
  have hrun : ∃ m₀, initFhashmapCustom 4 (fun _ => 0) true = .ok m₀ ∧
      ∃ r, run step m₀ [.insert [1] 16#32 0#8] = .ok r ∧
        (r.1.capacity = 4 ∧ values r.1 = [(16#32, [1])] ∧
        fhashmapForeach (leavesMap fun data key seen => seen ++ [(data, key)]) 5 r.1 [] =
          .error .outOfBounds ∧ inodeCachePurgeSb 5 r.1 = .error .outOfBounds) := by
    decide +kernel
  obtain ⟨m₀, hinit, r, hrun, hfour, hvalues, hforeach, hpurge⟩ := hrun
  have hcap : r.1.capacity ≠ 0 := by omega
  exact ⟨m₀, hinit, r, hrun, hfour, hvalues, hforeach, hpurge, not_iterates hcap _ _,
    not_purgesAll hcap, not_purgesSb hcap _ _⟩

end X86Kernel.Hash
