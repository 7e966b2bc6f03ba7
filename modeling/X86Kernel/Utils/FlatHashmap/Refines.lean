import X86Kernel.Utils.FlatHashmap.Occupancy

/- The flat hash map as a finite map.

   What is proved: along every run in which no insert is of a key that sits
   behind a DELETE slot on its probe path (`hidden`) and no table grows beyond
   what `kmalloc` gives, the map refines a finite map from keys to data
   (`run_refines_map`): every call returns what the finite map says. The
   invariant of the table (`Sound`) needs the second condition only.

   The first condition is needed: `fhashmap_insert` looks for the key only up to
   the first slot that is not in use. A key behind a DELETE slot is not seen and
   is inserted a second time, and a later removal brings the first one back
   (`insert_behind_tombstone`). -/
namespace X86Kernel.Hash
open X86Kernel.Lib

/-! ## What the map holds -/

def pairOf (e : Entry) : Key × Ptr := (e.keyData, e.data)

/-- The pairs of key and data in the table. -/
def contents (m : FlatHashmap) : List (Key × Ptr) := (usedEntries m.entries).map pairOf

/-- The key is in use at some distance from its home slot, and a DELETE slot is
at a smaller one. -/
def hidden (m : FlatHashmap) (key : Key) : Bool :=
  (List.range m.capacity).any fun d =>
    testAt m.entries (fun e => decide (e.state = .used) && decide (e.keyData = key))
        (offset m.capacity (home m.capacity (m.hash key)) d) &&
      (List.range d).any fun c => testAt m.entries (fun e => decide (e.state = .delete))
        (offset m.capacity (home m.capacity (m.hash key)) c)

/-- The insert of the key takes an EMPTY slot and brings the load above 75 %. -/
def grows (m : FlatHashmap) (key : Key) : Bool :=
  match findFreeSlot m.entries m.capacity (m.hash key) with
  | .error _ => false
  | .ok i =>
    testAt m.entries (fun e => decide (e.state = .empty)) i &&
      !(usedEntries m.entries).any (fun e => decide (e.keyData = key)) &&
      decide ((m.usedCount + m.deleteCount + 1) * 100 / m.capacity > 75)

theorem mem_contents {m : FlatHashmap} {key : Key} {data : Ptr} :
    (key, data) ∈ contents m ↔ ∃ e ∈ usedEntries m.entries, e.keyData = key ∧ e.data = data := by
  simp [contents, pairOf]

/-! ## Inserting a hidden key -/

theorem not_mem_of_not_hidden {m : FlatHashmap} (h : Sound m) {key : Key} {d : Nat} {x : Entry}
    (hslot : m.entries[offset m.capacity (home m.capacity (m.hash key)) d]? = some x)
    (hx : x.state ≠ .used) (hhidden : hidden m key = false)
    (hbefore : ∀ c < d, ∀ y,
      m.entries[offset m.capacity (home m.capacity (m.hash key)) c]? = some y →
      y.hash = m.hash key → y.keyData ≠ key) :
    ∀ e ∈ usedEntries m.entries, e.keyData ≠ key := by
  intro e he hkey
  obtain ⟨hem, hused⟩ := mem_usedEntries.1 he
  obtain ⟨i, hi, hie⟩ := List.mem_iff_getElem.1 hem
  have hi' : m.entries[i]? = some e := by rw [List.getElem?_eq_getElem hi, hie]
  have hhash : e.hash = m.hash key := by rw [h.hashes e hem hused, hkey]
  obtain ⟨d', hd', rfl, hpath⟩ := h.reach i e hi' hused
  rw [hhash] at hi' hpath
  rcases Nat.lt_trichotomy d' d with hlt | rfl | hgt
  · exact hbefore d' hlt e hi' hhash hkey
  · obtain rfl := Option.some.inj (hi'.symm.trans hslot)
    exact hx hused
  · -- the free slot is on the path to the key, so it is a DELETE slot
    have hxempty := hpath d hgt x hslot
    have hdelete : x.state = .delete := by
      cases hs : x.state with
      | empty => exact absurd hs hxempty
      | used => exact absurd hs hx
      | delete => rfl
    have : hidden m key = true := by
      rw [hidden, List.any_eq_true]
      refine ⟨d', List.mem_range.2 hd', ?_⟩
      rw [testAt_some hi', Bool.and_eq_true, List.any_eq_true]
      exact ⟨by simp [hused, hkey], d, List.mem_range.2 hgt, by simp [testAt_some hslot, hdelete]⟩
    rw [this] at hhidden
    cases hhidden

/-! ## One call -/

/-- The map of a table, as a relation. -/
def Refines (m : FlatHashmap) (f : Key → Option Ptr) : Prop := Sound m ∧ Represents (contents m) f

theorem Refines.of_perm {m' : FlatHashmap} {f : Key → Option Ptr} {l : List Entry}
    (hs : Sound m') (hp : (usedEntries m'.entries).Perm l) (h : Represents (l.map pairOf) f) :
    Refines m' f := ⟨hs, h.perm (hp.map pairOf)⟩

theorem refines_of_empty {m : FlatHashmap} (hs : Sound m) (hnone : usedEntries m.entries = []) :
    Refines m fun _ => none := by
  refine ⟨hs, ?_⟩
  rw [contents, hnone]
  exact represents_nil

theorem eq_none_of_absent {m : FlatHashmap} {f : Key → Option Ptr} {key : Key}
    (hrep : Represents (contents m) f) (h : ∀ e ∈ usedEntries m.entries, e.keyData ≠ key) :
    f key = none := by
  rw [hrep.eq_none_iff]
  intro v hv
  obtain ⟨e, he, hkey, -⟩ := mem_contents.1 hv
  exact h e he hkey

theorem insertEntry_new {m : FlatHashmap} {f : Key → Option Ptr} (h : Refines m f) {key : Key}
    {i : Nat} {x : Entry} (hx : m.entries[i]? = some x) (hxused : x.state ≠ .used)
    (hreached : Reached m.entries m.capacity (m.hash key) i) (hkey : f key = none)
    (hgrow : x.state = .empty → (m.usedCount + m.deleteCount + 1) * 100 / m.capacity > 75 →
      entrySize * (m.capacity * 2) ≤ 2 ^ 31) (data : Ptr) (flags : BitVec 8) :
    ∃ m', insertEntry m i (m.hash key) key data flags = .ok m' ∧
      Refines m' (Function.update f key (some data)) := by
  obtain ⟨hs, hrep⟩ := h
  rcases insertEntry_sound hs hx hxused hreached data flags with
    ⟨m', y, hm', hsound, hy, hperm⟩ | ⟨hempty, hbig, hlarge, -⟩
  · refine ⟨m', hm', Refines.of_perm hsound hperm ?_⟩
    have hpair : pairOf y = (key, data) := Prod.ext hy.1 hy.2
    rw [List.map_cons, hpair]
    exact hrep.cons hkey data
  · have := hgrow hempty hbig
    omega

theorem insertEntry_again {m : FlatHashmap} {f : Key → Option Ptr} (h : Refines m f) {key : Key}
    {i : Nat} {e : Entry} (he : m.entries[i]? = some e) (hused : e.state = .used)
    (hhash : e.hash = m.hash key) (hkey : e.keyData = key) (data : Ptr) (flags : BitVec 8) :
    ∃ m', insertEntry { cleanEntry m i e .empty with
        usedCount := m.usedCount - 1, emptyCount :=
        m.emptyCount + 1 } i (m.hash key) key data flags =
      .ok m' ∧ Refines m' (Function.update f key (some data)) := by
  obtain ⟨hs, hrep⟩ := h
  obtain ⟨m', y, rest, hm', hsound, hy, hrest, hafter⟩ :=
    insertEntry_again_sound hs he hused (show e.hash = m.hash key from hhash) data flags
  refine ⟨m', hm', Refines.of_perm hsound hafter ?_⟩
  -- the map without the key, and with it again
  have hbefore : Represents (pairOf e :: rest.map pairOf) f := by
    rw [← List.map_cons]
    exact hrep.perm (hrest.map pairOf).symm
  have hpair : pairOf e = (key, e.data) := by rw [← hkey]; rfl
  rw [hpair] at hbefore
  have hwith := hbefore.of_cons.cons (Function.update_self key none f) data
  rw [Function.update_idem] at hwith
  have hpair' : pairOf y = (key, data) := Prod.ext hy.1 hy.2
  rw [List.map_cons, hpair']
  exact hwith

/-! ## The finite map -/

/-- The same calls on a finite map. -/
def mapStep (f : Key → Option Ptr) : Op → (Key → Option Ptr) × Out
  | .insert key data flags =>
    if f key ≠ none ∧ flags &&& insFlagOverwrite = 0#8 then (f, .code (-1))
    else (Function.update f key (some data), .code 0)
  | .delete key => (Function.update f key none, .result (f key))
  | .getData key => (f, .result (f key))
  | .clear => (fun _ => none, .done)

/-- The calls on which the table behaves like the map: an insert is not of a
hidden key, and does not make a table grow that would be too large. -/
def Safe (m : FlatHashmap) : Op → Prop
  | .insert key _ _ =>
    hidden m key = false ∧ (grows m key = true → entrySize * (m.capacity * 2) ≤ 2 ^ 31)
  | _ => True

theorem fhashmapGetData_ok {m : FlatHashmap} {f : Key → Option Ptr} (h : Refines m f) (key : Key) :
    fhashmapGetData m key = .ok (f key) := by
  obtain ⟨hs, hrep⟩ := h
  rcases findExactEntry_ok hs key with ⟨i, e, hfind, he, hused, hkey⟩ | ⟨hfind, hnone⟩
  · have hmem : (key, e.data) ∈ contents m :=
      mem_contents.2 ⟨e, mem_usedEntries.2 ⟨List.mem_of_getElem? he, hused⟩, hkey, rfl⟩
    have hf : f key = some e.data := (hrep.2 key e.data).2 hmem
    simp only [fhashmapGetData, hfind, ok_bind, he, hf, pure_eq_ok]
  · have hf := eq_none_of_absent hrep hnone
    simp only [fhashmapGetData, hfind, ok_bind, hf, pure_eq_ok]

theorem fhashmapInsert_ok {m : FlatHashmap} {f : Key → Option Ptr} (h : Refines m f) {key : Key}
    {data : Ptr} {flags : BitVec 8} (hsafe : Safe m (.insert key data flags)) :
    ∃ m', step m (.insert key data flags) = .ok (m', (mapStep f (.insert key data flags)).2) ∧
      Refines m' (mapStep f (.insert key data flags)).1 := by
  obtain ⟨hhidden, hgrow⟩ := hsafe
  have hs := h.1
  have hrep := h.2
  obtain ⟨d, hd, x, hslot, hx, hxused, hpath⟩ :=
    findFreeSlot_ok hs.shape (m.hash key) hs.exists_free
  rcases findExactEntryInterval_ok hs key hd hpath with
    ⟨i, e, hfind, he, hused, hhash, hkey⟩ | ⟨hfind, hbefore⟩
  · -- the key is there
    have hmem : (key, e.data) ∈ contents m :=
      mem_contents.2 ⟨e, mem_usedEntries.2 ⟨List.mem_of_getElem? he, hused⟩, hkey, rfl⟩
    have hf : f key ≠ none := by simp [(hrep.2 key e.data).2 hmem]
    by_cases hover : flags &&& insFlagOverwrite = 0#8
    · refine ⟨m, ?_, ?_⟩
      · simp only [step, fhashmapInsert, hslot, ok_bind, hfind, hover, if_true, mapStep, hf, ne_eq,
          not_false_eq_true, and_self, pure_eq_ok]
      · simpa only [mapStep, hf, hover, ne_eq, not_false_eq_true, and_self, if_true] using h
    · obtain ⟨m', hm', href⟩ := insertEntry_again h he hused hhash hkey data flags
      have hins : insertEntry { cleanEntry m i e .empty with
          usedCount := (cleanEntry m i e .empty).usedCount - 1
          emptyCount := (cleanEntry m i e .empty).emptyCount + 1 } i (m.hash key) key data flags =
          .ok m' := hm'
      refine ⟨m', ?_, ?_⟩
      · simp only [step, fhashmapInsert, hslot, ok_bind, hfind, hover, if_false, he, hins, mapStep,
          and_false, pure_eq_ok]
      · simpa only [mapStep, hover, and_false, if_false] using href
  · -- it is not there
    have habsent := not_mem_of_not_hidden hs hx hxused hhidden hbefore
    have hf := eq_none_of_absent hrep habsent
    obtain ⟨m', hm', href⟩ := insertEntry_new h hx hxused (reached_of_used hd hpath) hf (by
      intro hxempty hbig
      refine hgrow ?_
      have hany : (usedEntries m.entries).any (fun e => decide (e.keyData = key)) = false := by
        rw [List.any_eq_false]
        intro e he
        simpa using habsent e he
      simp only [grows, hslot, testAt_some hx, hxempty, hany, hbig, decide_true, Bool.not_false,
        Bool.and_self]) data flags
    refine ⟨m', ?_, ?_⟩
    · simp only [step, fhashmapInsert, hslot, ok_bind, hfind, hm', mapStep, hf, ne_eq,
        not_true_eq_false, false_and, if_false, pure_eq_ok]
    · simpa only [mapStep, hf, ne_eq, not_true_eq_false, false_and, if_false] using href

theorem fhashmapDelete_ok {m : FlatHashmap} {f : Key → Option Ptr} (h : Refines m f) (key : Key) :
    ∃ m', fhashmapDelete m key = .ok (m', f key) ∧ Refines m' (Function.update f key none) := by
  obtain ⟨hs, hrep⟩ := h
  rcases fhashmapDelete_sound hs key with
    ⟨m', e, rest, hm', hsound, hkey, hrest, hperm⟩ | ⟨hm', hnone⟩
  · have hbefore : Represents ((key, e.data) :: rest.map pairOf) f := by
      have hperm := hrep.perm (hrest.map pairOf).symm
      rw [List.map_cons] at hperm
      rwa [show pairOf e = (key, e.data) by rw [← hkey]; rfl] at hperm
    have hf : f key = some e.data := (hbefore.2 key e.data).2 (by simp)
    exact ⟨m', by rw [hm', hf], Refines.of_perm hsound hperm hbefore.of_cons⟩
  · have hf := eq_none_of_absent hrep hnone
    refine ⟨m, by rw [hm', hf], hs, ?_⟩
    rw [← hf, Function.update_eq_self]
    exact hrep

theorem fhashmapClear_ok {m : FlatHashmap} {f : Key → Option Ptr} (h : Refines m f) :
    ∃ m', fhashmapClear m = .ok m' ∧ Refines m' fun _ => none := by
  obtain ⟨m', hm', hs, hnone⟩ := fhashmapClear_sound h.1
  exact ⟨m', hm', refines_of_empty hs hnone⟩

theorem step_refines (m : FlatHashmap) (f : Key → Option Ptr) (op : Op) (h : Refines m f)
    (hsafe : Safe m op) :
    ∃ m', step m op = .ok (m', (mapStep f op).2) ∧ Refines m' (mapStep f op).1 := by
  cases op with
  | insert key data flags => exact fhashmapInsert_ok h hsafe
  | delete key =>
    obtain ⟨m', hm', href⟩ := fhashmapDelete_ok h key
    exact ⟨m', by simp only [step, hm', ok_bind, mapStep, pure_eq_ok], href⟩
  | getData key =>
    exact ⟨m, by simp only [step, fhashmapGetData_ok h, ok_bind, mapStep, pure_eq_ok], h⟩
  | clear =>
    obtain ⟨m', hm', href⟩ := fhashmapClear_ok h
    exact ⟨m', by simp only [step, hm', ok_bind, mapStep, pure_eq_ok], href⟩

/-! ## Whole runs -/

theorem initFhashmapCustom_ok {capacity : Nat} (hcap : u32 capacity ≤ 2 ^ 26) (hash : Key → UInt64)
    (destroyCb : Bool) :
    ∃ m, initFhashmapCustom capacity hash destroyCb = .ok m ∧ Refines m fun _ => none := by
  obtain ⟨m, hm, hs, hnone⟩ := initFhashmapCustom_sound hcap hash destroyCb
  exact ⟨m, hm, refines_of_empty hs hnone⟩

/-- Every call of a run answers as the finite map does. -/
theorem run_refines_map {capacity : Nat} (hcap : u32 capacity ≤ 2 ^ 26) (hash : Key → UInt64)
    (destroyCb : Bool) (ops : List Op) :
    ∃ m₀, initFhashmapCustom capacity hash destroyCb = .ok m₀ ∧ (Meets step Safe m₀ ops →
      ∃ m, run step m₀ ops = .ok (m, (fold mapStep (fun _ => none) ops).2) ∧
        ∀ key, fhashmapGetData m key = .ok ((fold mapStep (fun _ => none) ops).1 key)) := by
  obtain ⟨m₀, hm₀, href⟩ := initFhashmapCustom_ok hcap hash destroyCb
  refine ⟨m₀, hm₀, fun hmeets => ?_⟩
  obtain ⟨m, hm, href'⟩ := run_simulates step_refines ops m₀ _ href hmeets
  exact ⟨m, hm, fun key => fhashmapGetData_ok href' key⟩

instance (m : FlatHashmap) : ∀ op, Decidable (Safe m op)
  | .insert key _ _ => inferInstanceAs (Decidable (hidden m key = false ∧
      (grows m key = true → entrySize * (m.capacity * 2) ≤ 2 ^ 31)))
  | .delete _ => inferInstanceAs (Decidable True)
  | .getData _ => inferInstanceAs (Decidable True)
  | .clear => inferInstanceAs (Decidable True)

/-- Four keys with one home slot. -/
def fourInserts : List Op :=
  [.insert [1] 16#32 0#8, .insert [2] 32#32 0#8, .insert [3] 48#32 1#8, .insert [4] 64#32 0#8]

/-- A table that grows, an overwrite, a refused insert and removals. -/
def safeCalls : List Op :=
  fourInserts ++ [.insert [2] 80#32 2#8, .insert [3] 80#32 0#8, .delete [4], .getData [2],
    .insert [4] 96#32 0#8, .clear, .getData [4]]

/-- A new map with a constant hash. -/
def constantMap (capacity : Nat) : FlatHashmap where
  entries := List.replicate capacity .zero
  emptyCount := capacity
  usedCount := 0
  deleteCount := 0
  capacity := capacity
  hash := fun _ => 0
  destroyCb := false
  destroyed := []

theorem safeCalls_refine_map :
    initFhashmapCustom 4 (fun _ => 0) false = .ok (constantMap 4) ∧
    Meets step Safe (constantMap 4) safeCalls ∧
    ∃ m, run step (constantMap 4) safeCalls = .ok
    (m, (fold mapStep (fun _ => none) safeCalls).2) := by
  have hmeets : Meets step Safe (constantMap 4) safeCalls := by decide +kernel
  obtain ⟨m₀, hm₀, hrun⟩ := run_refines_map (by decide : u32 4 ≤ 2 ^ 26)
    (fun _ => 0) false safeCalls
  have hinit : initFhashmapCustom 4 (fun _ => 0) false = .ok (constantMap 4) := rfl
  obtain rfl := Except.ok.inj (hm₀.symm.trans hinit)
  obtain ⟨m, hm, -⟩ := hrun hmeets
  exact ⟨hinit, hmeets, m, hm⟩

/-- The first key is removed, and the second one is inserted again, removed and
looked for. -/
def tombstoneCalls : List Op :=
  fourInserts ++ [.delete [1], .insert [2] 80#32 0#8, .delete [2], .getData [2]]

/-- The second insert of a key succeeds, and the key is still there after its
removal. -/
theorem insert_behind_tombstone :
    initFhashmapCustom 8 (fun _ => 0) false = .ok (constantMap 8) ∧
    (run step (constantMap 8) tombstoneCalls).map Prod.snd = .ok
    [.code 0, .code 0, .code 0, .code 0, .result (some 16#32), .code 0,
        .result (some 80#32), .result (some 32#32)] ∧
    (fold mapStep (fun _ => none) tombstoneCalls).2 = [.code 0, .code 0, .code 0, .code 0,
        .result (some 16#32), .code (-1), .result (some 32#32), .result none] := by
  refine ⟨rfl, ?_, ?_⟩ <;> decide +kernel

end X86Kernel.Hash
