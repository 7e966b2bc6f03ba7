import X86Kernel.Libk

/- The flat hash map (`kernel/utils/data_structs/flat_hashmap.c`): open
   addressing with linear probing in a table of a power-of-two size. A removed
   entry leaves a DELETE slot, so that the probes that went past it still do.

   This module is the model. A key is the list of its bytes; whether the map has
   its own copy of them (`FLAG_ALLOCATED`) is kept, the `kfree` of such a copy is
   not. `destroyed` lists what the destroy callback was called with. `kmalloc`
   refuses (by an assertion) more than 2^31 bytes and else gives a block of the
   requested number of bytes, computed in 32 bits; an access outside the block is
   a fault. A probe that has seen every slot goes round for ever.

   Correspondence (C ↔ Lean):
     `flat_hashmap_entry_t`       ↔ `Entry`
     `flat_hashmap_t`             ↔ `FlatHashmap`
     `find_free_slot`             ↔ `findFreeSlot`
     `rehash`                     ↔ `rehash`
     `need_resize`, `need_rehash` ↔ `needResize`, `needRehash`
     `find_exact_entry_interval`  ↔ `findExactEntryInterval`
     `find_exact_entry`           ↔ `findExactEntry`
     `clean_entry`                ↔ `cleanEntry`
     `handle_rehash`              ↔ `handleRehash`
     `init_fhashmap_custom`       ↔ `initFhashmapCustom`
     `murmur2_hash64`             ↔ `murmur2Hash64` (`murmur2Hash64Seed`)
     `init_fhashmap`              ↔ `initFhashmap`; the other constructors are
                                    `initFhashmapCustom` with their arguments
     `fhashmap_insert`            ↔ `fhashmapInsert` (`insertEntry`)
     `fhashmap_get_data`          ↔ `fhashmapGetData`
     `fhashmap_delete`            ↔ `fhashmapDelete`
     `fhashmap_clear`             ↔ `fhashmapClear`
     `fhashmap_free`              ↔ `fhashmapFree` -/
namespace X86Kernel.Hash

/-- `fhashmap_entry_state_t`. -/
inductive EntryState where
  | empty
  | used
  | delete
  deriving DecidableEq, Repr

abbrev Key := List UInt8

/-- `flat_hashmap_entry_t`; `keyData` has `key_length` bytes. -/
structure Entry where
  hash : UInt64
  keyData : Key
  data : Ptr
  state : EntryState
  allocated : Bool
  deriving DecidableEq, Repr

/-- A slot of a table that was set to 0. -/
def Entry.zero : Entry :=
  { hash := 0, keyData := [], data := 0#32, state := .empty, allocated := false }

/-- `flat_hashmap_t`. -/
structure FlatHashmap where
  entries : List Entry
  emptyCount : Nat
  usedCount : Nat
  deleteCount : Nat
  capacity : Nat
  hash : Key → UInt64
  destroyCb : Bool
  destroyed : List (Ptr × Key)

/-- `INIT_CAPACITY`. -/
def initCapacity : Nat := 64

/-- `MIN_CAPACITY`. -/
def minCapacity : Nat := 4

/-- `sizeof(flat_hashmap_entry_t)`. -/
def entrySize : Nat := 28

/-- A new table, set to 0. -/
def newEntries (capacity : Nat) : Kernel (List Entry) := do
  let size := u32 (entrySize * capacity)
  assert (decide (size ≤ 2 ^ 31))
  return List.replicate (size / entrySize) .zero

def slotOf (hash : UInt64) (capacity : Nat) : Nat := hash.toNat &&& (capacity - 1)

def nextSlot (pos capacity : Nat) : Nat := (pos + 1) &&& (capacity - 1)

/-! ## Probing -/

def findFreeSlotLoop (entries : List Entry) (capacity : Nat) : Nat → Nat → Kernel Nat
  | 0, _ => .error .diverges
  | fuel + 1, pos =>
    match entries[pos]? with
    | none => .error .outOfBounds
    | some e =>
      if e.state = .used then findFreeSlotLoop entries capacity fuel (nextSlot pos capacity)
      else .ok pos

/-- The first slot that is not in use, as a position. -/
def findFreeSlot (entries : List Entry) (capacity : Nat) (hash : UInt64) : Kernel Nat :=
  findFreeSlotLoop entries capacity capacity (slotOf hash capacity)

/-- The comparison of an entry with a key. -/
def sameKey (e : Entry) (hash : UInt64) (key : Key) : Bool :=
  e.hash = hash && e.keyData.length = key.length && memcmp e.keyData key key.length = 0

/-- From `cur` up to the slot `to`; the state of the entries it compares is not
looked at. -/
def findExactEntryInterval (m : FlatHashmap) (toIndex : Nat) (hash : UInt64) (key : Key) :
    Nat → Nat → Kernel (Option Nat)
  | 0, _ => .error .diverges
  | fuel + 1, cur =>
    if cur = toIndex then .ok none
    else
      match m.entries[cur]? with
      | none => .error .outOfBounds
      | some e =>
        if e.state = .empty then .ok none
        else if sameKey e hash key then .ok (some cur)
        else findExactEntryInterval m toIndex hash key fuel (nextSlot cur m.capacity)

def findExactEntryLoop (m : FlatHashmap) (hash : UInt64) (key : Key) :
    Nat → Nat → Kernel (Option Nat)
  | 0, _ => .error .diverges
  | fuel + 1, pos =>
    match m.entries[pos]? with
    | none => .error .outOfBounds
    | some e =>
      if e.state = .empty then .ok none
      else if e.state = .used && sameKey e hash key then .ok (some pos)
      else findExactEntryLoop m hash key fuel (nextSlot pos m.capacity)

/-- The slot of a key, if it has one. -/
def findExactEntry (m : FlatHashmap) (hash : UInt64) (key : Key) : Kernel (Option Nat) := do
  assert (decide (m.emptyCount ≠ 0))
  findExactEntryLoop m hash key m.capacity (slotOf hash m.capacity)

/-! ## Rehashing -/

/-- The loop of `rehash` from `pos` on, `n` slots of the old table to go. -/
def rehashLoop (old : List Entry) (usedCount newCapacity : Nat) :
    Nat → Nat → Nat → List Entry → Kernel (List Entry)
  | 0, _, _, new => .ok new
  | n + 1, pos, curUsedCount, new =>
    if curUsedCount < usedCount then
      match old[pos]? with
      | none => .error .outOfBounds
      | some e =>
        if e.state ≠ .used then rehashLoop old usedCount newCapacity n (pos + 1) curUsedCount new
        else do
          let slot ← findFreeSlot new newCapacity e.hash
          rehashLoop old usedCount newCapacity n (pos + 1) (curUsedCount + 1) (new.set slot e)
    else .ok new

def rehash (m : FlatHashmap) (newCapacity : Nat) : Kernel FlatHashmap := do
  assert (decide (m.capacity ≤ newCapacity))
  let new ← newEntries newCapacity
  let new ← rehashLoop m.entries m.usedCount newCapacity m.capacity 0 0 new
  return { m with
    entries := new, deleteCount := 0, emptyCount := newCapacity - m.usedCount,
    capacity := newCapacity }

def divide (a b : Nat) : Kernel Nat := if b = 0 then .error .divideByZero else .ok (a / b)

def needResize (m : FlatHashmap) : Kernel Bool := do
  let load ← divide ((m.usedCount + m.deleteCount) * 100) m.capacity
  return decide (load > 75)

def needRehash (m : FlatHashmap) : Kernel Bool := do
  let deleted ← divide (m.deleteCount * 100) (m.usedCount + m.deleteCount)
  return decide (deleted > 25)

def handleRehash (m : FlatHashmap) : Kernel FlatHashmap := do
  let resize ← needResize m
  if resize then rehash m (m.capacity * 2)
  else
    let again ← needRehash m
    if again then rehash m m.capacity else return m

/-! ## The operations -/

/-- `clean_entry`: the destroy callback runs, and the slot gets a new state. The
data pointer stays. -/
def cleanEntry (m : FlatHashmap) (i : Nat) (e : Entry) (newState : EntryState) : FlatHashmap :=
  { m with
    destroyed := if m.destroyCb then m.destroyed ++ [(e.data, e.keyData)] else m.destroyed
    entries := m.entries.set i
      { e with keyData := [], hash := 0, allocated := false, state := newState } }

def initFhashmapCustom (capacity : Nat) (hash : Key → UInt64) (destroyCb : Bool) :
    Kernel FlatHashmap := do
  let capacity := alignUpPow2 (u32 capacity)
  assert (decide (capacity ≠ 0))
  let capacity := if capacity < minCapacity then minCapacity else capacity
  let entries ← newEntries capacity
  return { entries, emptyCount := capacity, usedCount := 0, deleteCount := 0, capacity, hash
           destroyCb, destroyed := [] }

/-- One block of eight bytes, little endian. -/
def murmur2Word : Key → UInt64
  | [] => 0
  | b :: data => b.toUInt64 + (murmur2Word data <<< 8)

/-- The bytes after the last whole block. -/
def murmur2Rest : Key → UInt64
  | [] => 0
  | b :: data => b.toUInt64 ^^^ (murmur2Rest data <<< 8)

def murmur2Multiplier : UInt64 := 0xC6A4A7935BD1E995

/-- The loop over the `n` whole blocks: the hash, and the bytes that are left. -/
def murmur2Blocks : Nat → Key → UInt64 → UInt64 × Key
  | 0, data, hash => (hash, data)
  | n + 1, data, hash =>
    let k := murmur2Word (data.take 8) * murmur2Multiplier
    let k := (k ^^^ (k >>> 47)) * murmur2Multiplier
    murmur2Blocks n (data.drop 8) ((hash * murmur2Multiplier) ^^^ k)

def murmur2Hash64Seed (data : Key) (seed : UInt64) : UInt64 :=
  let (hash, rest) := murmur2Blocks (data.length / 8) data (seed ^^^ UInt64.ofNat data.length)
  let hash := if rest = [] then hash else (hash ^^^ murmur2Rest rest) * murmur2Multiplier
  let hash := (hash ^^^ (hash >>> 47)) * murmur2Multiplier
  hash ^^^ (hash >>> 47)

/-- `murmur2_hash64`, with its default seed. -/
def murmur2Hash64 (data : Key) : UInt64 := murmur2Hash64Seed data 0xe17a1465

def initFhashmap : Kernel FlatHashmap := initFhashmapCustom initCapacity murmur2Hash64 false

/-- `FHASHMAP_INS_FLAG_KEY_COPY`. -/
def insFlagKeyCopy : BitVec 8 := 1#8

/-- `FHASHMAP_INS_FLAG_OVERWRITE`. -/
def insFlagOverwrite : BitVec 8 := 2#8

/-- The end of `fhashmap_insert`: the entry goes into slot `i`. -/
def insertEntry (m : FlatHashmap) (i : Nat) (hash : UInt64) (key : Key) (data : Ptr)
    (flags : BitVec 8) : Kernel FlatHashmap :=
  match m.entries[i]? with
  | none => .error .outOfBounds
  | some e =>
    let entry : Entry :=
      { hash, keyData := key, data, state := .used, allocated := flags &&& insFlagKeyCopy != 0#8 }
    handleRehash { m with
      usedCount := m.usedCount + 1
      emptyCount := if e.state = .empty then m.emptyCount - 1 else m.emptyCount
      deleteCount := if e.state = .delete then m.deleteCount - 1 else m.deleteCount
      entries := m.entries.set i entry }

/-- `fhashmap_insert`: the map and the code returned. -/
def fhashmapInsert (m : FlatHashmap) (key : Key) (data : Ptr) (flags : BitVec 8) :
    Kernel (FlatHashmap × Int) := do
  let hash := m.hash key
  let entry ← findFreeSlot m.entries m.capacity hash
  let same ← findExactEntryInterval m entry hash key m.capacity (slotOf hash m.capacity)
  match same with
  | some i =>
    if flags &&& insFlagOverwrite = 0#8 then return (m, -1)
    else
      match m.entries[i]? with
      | none => .error .outOfBounds
      | some e =>
        let m := cleanEntry m i e .empty
        let m := { m with usedCount := m.usedCount - 1, emptyCount := m.emptyCount + 1 }
        let m ← insertEntry m i hash key data flags
        return (m, 0)
  | none =>
    let m ← insertEntry m entry hash key data flags
    return (m, 0)

/-- `fhashmap_get_data`; `none` is a result that did not succeed. -/
def fhashmapGetData (m : FlatHashmap) (key : Key) : Kernel (Option Ptr) := do
  let same ← findExactEntry m (m.hash key) key
  match same with
  | none => return none
  | some i =>
    match m.entries[i]? with
    | none => .error .outOfBounds
    | some e => return some e.data

def fhashmapDelete (m : FlatHashmap) (key : Key) : Kernel (FlatHashmap × Option Ptr) := do
  let same ← findExactEntry m (m.hash key) key
  match same with
  | none => return (m, none)
  | some i =>
    match m.entries[i]? with
    | none => .error .outOfBounds
    | some e =>
      let m := cleanEntry m i e .delete
      let m ← handleRehash { m with deleteCount := m.deleteCount + 1, usedCount := m.usedCount - 1 }
      return (m, some e.data)

/-- `fhashmap_clear`. The loop that frees the copied keys reads every slot; the
destroy callback is not called. -/
def fhashmapClear (m : FlatHashmap) : Kernel FlatHashmap :=
  if m.capacity ≤ m.entries.length then
    .ok { m with
      entries := List.replicate m.entries.length .zero
      deleteCount := 0, usedCount := 0, emptyCount := m.capacity }
  else .error .outOfBounds

/-- `fhashmap_free`: the copied keys and the table are freed. The destroy callback is not called. -/
def fhashmapFree (m : FlatHashmap) : Kernel FlatHashmap :=
  if m.capacity ≤ m.entries.length then .ok { m with entries := [] } else .error .outOfBounds

end X86Kernel.Hash
