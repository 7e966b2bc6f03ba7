import Mathlib.Data.List.TakeWhile
import X86Kernel.Vfs.Path.DirScan
import X86Kernel.Utils.FlatHashmap.Growth
import X86Kernel.Lib.Outcome

/- The caches of the file system do not show.

   The answer without caches is the driver's lookup, folded over the components of
   the path from the root and stopped at the first error (`foldLookup`). It has to be
   the same whatever the block held that a directory is read into (`Steady`), as it
   is for a well-formed directory of one block (`findChild_scanned`).

   What is proved: then every sequence of lookups that gets through answers so,
   whatever the caches hold; two lookups of one path that succeed return the same
   directory entry, and no two inodes in memory have the same number. A sequence of
   lookups gets through unless the driver itself faults on one of them or memory
   runs out (`lookups_transparent`).

   A path that does not begin with `/` is refused, whatever its components are, and
   a name that the driver found once behind the first block of a directory, where it
   does not read, is found from then on (`lookups_differ`). -/
namespace X86Kernel.Vfs
open X86Kernel.Hash X86Kernel.Lib
open X86Kernel.Ext2 (vfsErrInval)

/-! ## Lookups without caches -/

/-- The components of a path: what stands between its `/`, without the one it
begins with. The path `/` has none. -/
def components (path : CString) : List Name :=
  match path.chars with
  | [] => []
  | c :: rest =>
    if c = slash then (if rest = [] then [] else rest.splitOn slash)
    else (c :: rest).splitOn slash

/-- The components of a path that may be NULL. -/
def namesOf (path : Option CString) : List Name := path.elim [] components

section
variable (fs : Filesystem) (buf : Ext2.Buffer)

/-- The driver's lookup: the name is found in the directory, which is read into a block that held
`buf`, and its inode read. -/
def driverLookup (dir : InodeNum) (name : Name) : Kernel (Except Int InodeNum) := do
  let found ← findChild fs buf dir name
  match found with
  | .error code => return .error code
  | .ok inodeNum =>
    readGroupDesc fs inodeNum
    return .ok inodeNum

/-- The driver's lookup folded over names, up to the first error. -/
def foldLookup : InodeNum → List Name → Kernel (Except Int InodeNum)
  | dir, [] => .ok (.ok dir)
  | dir, name :: names => do
    let found ← driverLookup fs buf dir name
    match found with
    | .error code => return .error code
    | .ok inodeNum => foldLookup inodeNum names

def uncachedLookup : Option CString → Kernel (Except Int InodeNum)
  | none => .ok (.error (-vfsErrInval))
  | some path =>
    if path.chars[0]? = some slash then foldLookup fs buf ext2RootInode (components path)
    else .ok (.error (-vfsErrInval))

/-- Where the names lead from a directory, the driver answers by the directory and the name only,
whatever the block held. -/
def Steady : InodeNum → List Name → Prop
  | _, [] => True
  | dir, name :: names => (∀ buf', findChild fs buf' dir name = findChild fs buf dir name) ∧
    ∀ n, driverLookup fs buf dir name = .ok (.ok n) → Steady n names

/-- The names of a path, from the root. -/
def SteadyPath (path : Option CString) : Prop :=
  ∀ p, path = some p → p.chars[0]? = some slash → Steady fs buf ext2RootInode (components p)

/-- The root inode can be read. -/
def mountRoot : Kernel Unit := do
  assert (decide (fs.inodesPerGroup ≠ 0#32))
  readGroupDesc fs ext2RootInode

/-- The root is mounted, and each path is looked up by itself. -/
def uncachedLookups (paths : List (Option CString)) : Kernel (List (Except Int InodeNum)) := do
  mountRoot fs
  paths.mapM (uncachedLookup fs buf)

end

/-- The inode number of an answer, or its code. -/
def inodeReached (answer : Except Int (Ptr × InodeNum)) : Except Int InodeNum :=
  answer.map Prod.snd

/-- Answers to one path that are entries are the same entry. -/
def SameEntries (paths : List (Option CString)) (answers : List (Except Int (Ptr × InodeNum))) :
    Prop :=
  ∀ path d d' n n', (path, .ok (d, n)) ∈ paths.zip answers →
    (path, .ok (d', n')) ∈ paths.zip answers → d = d'

/-- No two inodes in memory have the same number. -/
def UniqueInodes (s : VfsData) : Prop :=
  ∀ p q inodeNum, s.inodes p = some inodeNum → s.inodes q = some inodeNum → p = q

/-! ## Memory -/

/-- Blocks in use are not given out again. -/
def Fresh (kmalloc : Nat → Ptr) : Prop :=
  ∀ i j, kmalloc i = kmalloc j → kmalloc i ≠ 0#32 → i = j

/-- One of the first `n` requests is not served, or a cache with `n` keys may not
get its next table. -/
def Exhausted (kmalloc : Nat → Ptr) (n : Nat) : Prop :=
  (∃ i < n, kmalloc i = 0#32) ∨ maxKeys < n

/-- The requests of a sequence of lookups: three for the root and three for each
component, at most. -/
def requests (paths : List (Option CString)) : Nat :=
  3 + 3 * (paths.map fun path => (namesOf path).length).sum

/-- One of the blocks of the first `n` requests. -/
def Block (kmalloc : Nat → Ptr) (n : Nat) (p : Ptr) : Prop :=
  p ≠ 0#32 ∧ ∃ i < n, kmalloc i = p

theorem Block.mono {kmalloc : Nat → Ptr} {n n' : Nat} {p : Ptr} (h : Block kmalloc n p)
    (hle : n ≤ n') : Block kmalloc n' p := by
  obtain ⟨hp, i, hi, hk⟩ := h
  exact ⟨hp, i, by omega, hk⟩

theorem Block.ne_kmalloc {kmalloc : Nat → Ptr} (hfresh : Fresh kmalloc) {n i : Nat} {p : Ptr}
    (h : Block kmalloc n p) (hi : n ≤ i) : p ≠ kmalloc i := by
  obtain ⟨hp, j, hj, rfl⟩ := h
  intro heq
  have := hfresh j i heq hp
  omega

/-! ## The keys of the caches -/

theorem pointerBytes_injective {p q : Ptr} (h : pointerBytes p = pointerBytes q) : p = q := by
  simp only [pointerBytes, List.map_cons, List.map_nil, List.cons.injEq, and_true,
    UInt8.ofBitVec.injEq] at h
  obtain ⟨h₀, h₁, h₂, h₃⟩ := h
  have h₀ := congrArg BitVec.toNat h₀
  have h₁ := congrArg BitVec.toNat h₁
  have h₂ := congrArg BitVec.toNat h₂
  have h₃ := congrArg BitVec.toNat h₃
  simp only [BitVec.extractLsb'_toNat, Nat.shiftRight_eq_div_pow] at h₀ h₁ h₂ h₃
  apply BitVec.eq_of_toNat_eq
  have hp := p.isLt
  have hq := q.isLt
  omega

theorem dentryKey_injective {parent parent' : Ptr} {name name' : Name}
    (h : dentryKey parent name = dentryKey parent' name') : parent = parent' ∧ name = name' := by
  obtain ⟨hparent, hrest⟩ := List.append_inj h rfl
  obtain ⟨-, hname⟩ := List.append_inj hrest (by simp [lengthBytes])
  exact ⟨pointerBytes_injective hparent, List.append_cancel_right hname⟩

/-! ## What the caches hold -/

section
variable (kmalloc : Nat → Ptr) (fs : Filesystem) (buf : Ext2.Buffer)

/-- The entry is a block in use, and its inode has the number. -/
def Reaches (s : VfsData) (d : Ptr) (inodeNum : InodeNum) : Prop :=
  Block kmalloc s.calls d ∧ s.inodes (s.entries d).inode = some inodeNum

/-- Every cached entry leads where the driver's lookup does. -/
def CachedRight (s : VfsData) (f : Key → Option Ptr) : Prop :=
  ∀ parent name d, parent ≠ 0#32 → f (dentryKey parent name) = some d →
    ∃ m n, Reaches kmalloc s parent m ∧ Reaches kmalloc s d n ∧
      driverLookup fs buf m name = .ok (.ok n)

/-- The inode cache has exactly the inodes in memory. -/
structure InodesCached (s : VfsData) (g : Key → Option Ptr) : Prop where
  holds : Holds s.inodeCache g s.calls
  iff : ∀ p n, s.inodes p = some n ↔ g (pointerBytes n) = some p
  block : ∀ p n, s.inodes p = some n → Block kmalloc s.calls p
  read : ∀ p n, s.inodes p = some n → readGroupDesc fs n = .ok ()

/-- The invariant of the file system, with `f` in the cache of directory entries. -/
structure Inv (s : VfsData) (f : Key → Option Ptr) : Prop where
  dcache : Holds s.dcache f s.calls
  mounts : Refines s.mounts.mounts fun _ => none
  inodes : ∃ g, InodesCached kmalloc fs s g
  cached : CachedRight kmalloc fs buf s f

/-- The memory and the cache of directory entries only grow. -/
structure Later (s s' : VfsData) (f f' : Key → Option Ptr) : Prop where
  root : s'.root = s.root
  reaches : ∀ d n, Reaches kmalloc s d n → Reaches kmalloc s' d n
  entries : ∀ key d, f key = some d → f' key = some d

end

section
variable {kmalloc : Nat → Ptr} {fs : Filesystem} {buf : Ext2.Buffer}

theorem Later.refl (s : VfsData) (f : Key → Option Ptr) : Later kmalloc s s f f :=
  ⟨rfl, fun _ _ h => h, fun _ _ h => h⟩

theorem Later.trans {s₁ s₂ s₃ : VfsData} {f₁ f₂ f₃ : Key → Option Ptr}
    (h : Later kmalloc s₁ s₂ f₁ f₂) (h' : Later kmalloc s₂ s₃ f₂ f₃) :
    Later kmalloc s₁ s₃ f₁ f₃ :=
  ⟨h'.root.trans h.root, fun d n hd => h'.reaches d n (h.reaches d n hd),
    fun key d hd => h'.entries key d (h.entries key d hd)⟩

/-- What the cache says stays right as the memory grows. -/
theorem CachedRight.later {s s' : VfsData} {f f' : Key → Option Ptr}
    (h : CachedRight kmalloc fs buf s f) (hl : Later kmalloc s s' f f') :
    CachedRight kmalloc fs buf s' f := by
  intro parent name d hparent hd
  obtain ⟨m, n, hm, hn, hlookup⟩ := h parent name d hparent hd
  exact ⟨m, n, hl.reaches parent m hm, hl.reaches d n hn, hlookup⟩

theorem Inv.unique {s : VfsData} {f : Key → Option Ptr} (h : Inv kmalloc fs buf s f) :
    UniqueInodes s := by
  obtain ⟨g, hg⟩ := h.inodes
  intro p q inodeNum hp hq
  exact Option.some.inj (((hg.iff p inodeNum).1 hp).symm.trans ((hg.iff q inodeNum).1 hq))

theorem Inv.read {s : VfsData} {f : Key → Option Ptr} (h : Inv kmalloc fs buf s f) (n : Nat) :
    Inv kmalloc fs buf { s with reads := n } f := by
  obtain ⟨g, hg⟩ := h.inodes
  exact ⟨h.dcache, h.mounts, ⟨g, hg.holds, hg.iff, hg.block, hg.read⟩, h.cached⟩

theorem Later.read (s : VfsData) (f : Key → Option Ptr) (n : Nat) :
    Later kmalloc s { s with reads := n } f f :=
  ⟨rfl, fun _ _ h => h, fun _ _ h => h⟩

theorem inodeNumOf_ok {s : VfsData} {inode : Ptr} {inodeNum : InodeNum}
    (h : s.inodes inode = some inodeNum) : inodeNumOf s inode = .ok inodeNum := by
  simp only [inodeNumOf, h]

/-! ## Fetching an inode -/

theorem InodesCached.add (hfresh : Fresh kmalloc) {s : VfsData} {g : Key → Option Ptr}
    (h : InodesCached kmalloc fs s g) {inodeNum : InodeNum}
    (hread : readGroupDesc fs inodeNum = .ok ())
    (hnone : g (pointerBytes inodeNum) = none) (hpos : kmalloc (s.calls + 1) ≠ 0#32)
    {inodeCache : FlatHashmap}
    (hins : Holds inodeCache
      (Function.update g (pointerBytes inodeNum) (some (kmalloc (s.calls + 1))))
      (s.calls + 2)) :
    InodesCached kmalloc fs { s with
      calls := s.calls + 2
      inodes := Function.update s.inodes (kmalloc (s.calls + 1)) (some inodeNum)
      inodeCache } (Function.update g (pointerBytes inodeNum) (some (kmalloc (s.calls + 1)))) := by
  have hold : ∀ p n, s.inodes p = some n → p ≠ kmalloc (s.calls + 1) := fun p n hp =>
    (h.block p n hp).ne_kmalloc hfresh (by omega)
  refine ⟨hins, fun p n => ?_, fun p n hp => ?_, fun p n hp => ?_⟩
  · by_cases hp : p = kmalloc (s.calls + 1)
    · subst hp
      simp only [Function.update_self, Option.some.injEq]
      constructor
      · intro hn
        rw [hn, Function.update_self]
      · intro hn
        by_contra hne
        have hkey : pointerBytes n ≠ pointerBytes inodeNum := fun hk =>
          hne (pointerBytes_injective hk).symm
        rw [Function.update_of_ne hkey, ← h.iff] at hn
        exact hold _ _ hn rfl
    · simp only [Function.update_of_ne hp]
      by_cases hn : pointerBytes n = pointerBytes inodeNum
      · rw [h.iff, hn, hnone, Function.update_self, Option.some.injEq]
        simp only [reduceCtorEq, false_iff]
        exact fun heq => hp heq.symm
      · rw [h.iff, Function.update_of_ne hn]
  · by_cases hnew : p = kmalloc (s.calls + 1)
    · rw [hnew]
      exact ⟨hpos, s.calls + 1, by simp, rfl⟩
    · simp only [Function.update_of_ne hnew] at hp
      exact (h.block p n hp).mono (Nat.le_add_right _ _)
  · by_cases hnew : p = kmalloc (s.calls + 1)
    · simp only [hnew, Function.update_self, Option.some.injEq] at hp
      rw [← hp, hread]
    · simp only [Function.update_of_ne hnew] at hp
      exact h.read p n hp

theorem ext2FetchInode_cached {s : VfsData} {f : Key → Option Ptr} (h : Inv kmalloc fs buf s f)
    {p : Ptr} {inodeNum : InodeNum} (hp : s.inodes p = some inodeNum) :
    ext2FetchInode kmalloc fs s inodeNum = .ok (s, p) := by
  obtain ⟨g, hg⟩ := h.inodes
  have hnum : g (pointerBytes inodeNum) = some p := (hg.iff p inodeNum).1 hp
  simp only [ext2FetchInode, inodeCacheFetch, fhashmapGetData_ok hg.holds.refines, hnum, ok_bind,
    pure_eq_ok, ne_eq, (hg.block p inodeNum hp).1, not_false_eq_true, if_true]

theorem ext2FetchInode_ok (hfresh : Fresh kmalloc) {N : Nat} {s : VfsData} {f : Key → Option Ptr}
    (h : Inv kmalloc fs buf s f) (hN : s.calls + 2 ≤ N) (inodeNum : InodeNum) :
    Outcome (fun e => Exhausted kmalloc N ∨ readGroupDesc fs inodeNum = .error e)
      (fun r => Inv kmalloc fs buf r.1 f ∧ Later kmalloc s r.1 f f ∧
        r.1.inodes r.2 = some inodeNum ∧ r.1.calls ≤ s.calls + 2)
      (ext2FetchInode kmalloc fs s inodeNum) := by
  obtain ⟨g, hg⟩ := h.inodes
  cases hnum : g (pointerBytes inodeNum) with
  | some p =>
    have hp : s.inodes p = some inodeNum := (hg.iff p inodeNum).2 hnum
    rw [ext2FetchInode_cached h hp]
    exact ⟨h, Later.refl s f, hp, Nat.le_add_right _ _⟩
  | none =>
    simp only [ext2FetchInode, inodeCacheFetch, fhashmapGetData_ok hg.holds.refines, hnum, ok_bind,
      pure_eq_ok, ne_eq, not_true_eq_false, if_false, makeInitInode]
    cases hread : readGroupDesc fs inodeNum with
    | error e => exact .inr rfl
    | ok u =>
      simp only [ok_bind]
      by_cases h₀ : kmalloc s.calls = 0#32
      · simp only [h₀, not_true_eq_false, decide_false, assert, Bool.false_eq_true, if_false]
        exact .inl (.inl ⟨s.calls, by omega, h₀⟩)
      by_cases h₁ : kmalloc (s.calls + 1) = 0#32
      · simp only [h₀, not_false_eq_true, decide_true, assert, if_true, ok_bind, h₁]
        exact .inl (.inl ⟨s.calls + 1, by omega, h₁⟩)
      have hins := hg.holds.insert hnum (kmalloc (s.calls + 1)) 0#8
      simp only [h₀, not_false_eq_true, decide_true, assert, if_true, ok_bind, h₁, if_false,
        inodeCacheInsert, inodeNumOf, Function.update_self]
      cases hcache : fhashmapInsert s.inodeCache (pointerBytes inodeNum) (kmalloc (s.calls + 1)) 0#8
        with
      | error e =>
        have hmany := hins.of_error hcache
        exact .inl (.inr (by omega))
      | ok r =>
        have hholds := hins.of_ok hcache
        have hadd := hg.add hfresh hread hnum h₁ (hholds.mono (Nat.le_succ _))
        have hl : Later kmalloc s { s with
            calls := s.calls + 2
            inodes := Function.update s.inodes (kmalloc (s.calls + 1)) (some inodeNum)
            inodeCache := r.1 } f f := by
          refine ⟨rfl, fun d n hd => ⟨hd.1.mono (Nat.le_add_right _ _), ?_⟩, fun _ _ hd => hd⟩
          have hne := (hg.block _ n hd.2).ne_kmalloc hfresh (i := s.calls + 1) (by omega)
          simpa only [Function.update_of_ne hne] using hd.2
        refine ⟨⟨h.dcache.mono (Nat.le_add_right _ _), h.mounts, ⟨_, hadd⟩, h.cached.later hl⟩, hl,
          Function.update_self _ _ _, le_rfl⟩

/-! ## Adding an entry -/

theorem later_update (hfresh : Fresh kmalloc) (s : VfsData) (f : Key → Option Ptr) {key : Key}
    (hnone : f key = none) (entry : DirEntry) (dcache : FlatHashmap) :
    Later kmalloc s { s with
      calls := s.calls + 1
      entries := Function.update s.entries (kmalloc s.calls) entry
      dcache } f (Function.update f key (some (kmalloc s.calls))) := by
  refine ⟨rfl, fun d n hd => ⟨hd.1.mono (Nat.le_succ _), ?_⟩, fun k d hd => ?_⟩
  · have hne := hd.1.ne_kmalloc hfresh (i := s.calls) le_rfl
    simpa only [Function.update_of_ne hne] using hd.2
  · have hne : k ≠ key := fun hk => by
      rw [hk, hnone] at hd
      cases hd
    rw [Function.update_of_ne hne, hd]

/-- The end of `path_lookup_step` and of `vfs_mount_set_root`: an entry is made,
and cached. -/
def addEntry (kmalloc : Nat → Ptr) (s : VfsData) (parent : Ptr) (name : Name) (inode : Ptr) :
    Kernel (VfsData × Ptr) := do
  let (s, entry) ← dirEntryCreate kmalloc s parent name inode
  let s ← dirEntryCacheInsert s entry
  return (s, entry)

theorem addEntry_bind {β : Type} (s : VfsData) (parent : Ptr) (name : Name) (inode : Ptr)
    (k : VfsData → Ptr → Kernel β) :
    (dirEntryCreate kmalloc s parent name inode >>= fun r =>
      dirEntryCacheInsert r.1 r.2 >>= fun s => k s r.2) =
      addEntry kmalloc s parent name inode >>= fun r => k r.1 r.2 := by
  rw [addEntry]
  cases dirEntryCreate kmalloc s parent name inode with
  | error e => rfl
  | ok r =>
    simp only [ok_bind]
    cases dirEntryCacheInsert r.1 r.2 with
    | error e => rfl
    | ok s => rfl

theorem addEntry_ok (hfresh : Fresh kmalloc) {N : Nat} {s : VfsData} {f : Key → Option Ptr}
    (h : Inv kmalloc fs buf s f) (hN : s.calls + 1 ≤ N) {parent inode : Ptr} {name : Name}
    {n : InodeNum} (hshort : name.length ≤ maxNodeNameLength)
    (hnone : f (dentryKey parent name) = none) (hinode : s.inodes inode = some n)
    (hparent : parent ≠ 0#32 →
      ∃ m, Reaches kmalloc s parent m ∧ driverLookup fs buf m name = .ok (.ok n)) :
    Outcome (fun _ => Exhausted kmalloc N)
      (fun r => Inv kmalloc fs buf r.1 (Function.update f (dentryKey parent name) (some r.2)) ∧
        Later kmalloc s r.1 f (Function.update f (dentryKey parent name) (some r.2)) ∧
        Reaches kmalloc r.1 r.2 n ∧ r.1.calls = s.calls + 1)
      (addEntry kmalloc s parent name inode) := by
  simp only [addEntry, dirEntryCreate, assert, hshort, decide_true, if_true, ok_bind]
  by_cases h₀ : kmalloc s.calls = 0#32
  · simp only [h₀, ne_eq, not_true_eq_false, decide_false, Bool.false_eq_true, if_false]
    exact .inl ⟨s.calls, by omega, h₀⟩
  have hins := h.dcache.insert hnone (kmalloc s.calls) insFlagKeyCopy
  simp only [ne_eq, h₀, not_false_eq_true, decide_true, if_true, ok_bind, pure_eq_ok,
    dirEntryCacheInsert, Function.update_self, hshort, assert]
  cases hcache : fhashmapInsert s.dcache (dentryKey parent name) (kmalloc s.calls) insFlagKeyCopy
    with
  | error e =>
    have hmany := hins.of_error hcache
    exact .inr (by omega)
  | ok r =>
    have hl := later_update hfresh s f hnone ⟨parent, inode, name⟩ r.1
    obtain ⟨g, hg⟩ := h.inodes
    have hnew : Reaches kmalloc { s with
        calls := s.calls + 1
        entries := Function.update s.entries (kmalloc s.calls) ⟨parent, inode, name⟩
        dcache := r.1 } (kmalloc s.calls) n := by
      refine ⟨⟨h₀, s.calls, Nat.lt_succ_self _, rfl⟩, ?_⟩
      simpa only [Function.update_self] using hinode
    refine ⟨⟨hins.of_ok hcache, h.mounts, ⟨g, ?_⟩, ?_⟩, hl, hnew, rfl⟩
    · exact ⟨hg.holds.mono (Nat.le_succ _), hg.iff,
        fun p n hp => (hg.block p n hp).mono (Nat.le_succ _), hg.read⟩
    · intro parent' name' d hpos hd
      by_cases hkey : dentryKey parent' name' = dentryKey parent name
      · obtain ⟨rfl, rfl⟩ := dentryKey_injective hkey
        rw [Function.update_self, Option.some.injEq] at hd
        obtain ⟨m, hm, hlookup⟩ := hparent hpos
        exact ⟨m, n, hl.reaches _ m hm, hd ▸ hnew, hlookup⟩
      · rw [Function.update_of_ne hkey] at hd
        exact h.cached.later hl parent' name' d hpos hd

/-! ## One step of a lookup -/

/-- A lookup agrees with the answer without caches, and an entry it returns is the
one `entryAt` says. -/
def Agrees (kmalloc : Nat → Ptr) (s : VfsData) (entryAt : Option Ptr) :
    Except Int InodeNum → Except Int Ptr → Prop
  | .error code, .error code' => code = code'
  | .ok n, .ok d => Reaches kmalloc s d n ∧ entryAt = some d
  | _, _ => False

theorem Agrees.cases {s : VfsData} {entryAt : Option Ptr} {a : Except Int InodeNum}
    {r : Except Int Ptr} (h : Agrees kmalloc s entryAt a r) :
    (∃ code, a = .error code ∧ r = .error code) ∨
    ∃ n d, a = .ok n ∧ r = .ok d ∧ Reaches kmalloc s d n ∧ entryAt = some d := by
  cases a with
  | error code =>
    cases r with
    | error code' =>
      obtain rfl : code = code' := h
      exact .inl ⟨code, rfl, rfl⟩
    | ok d => exact h.elim
  | ok n =>
    cases r with
    | error code => exact h.elim
    | ok d => exact .inr ⟨n, d, rfl, rfl, h⟩

theorem dirEntryCacheLookup_ok {s : VfsData} {f : Key → Option Ptr} (h : Inv kmalloc fs buf s f)
    (parent : Ptr) {name : Name} (hshort : name.length ≤ maxNodeNameLength) :
    dirEntryCacheLookup s parent name = .ok ((f (dentryKey parent name)).getD 0#32) := by
  simp only [dirEntryCacheLookup, assert, hshort, decide_true, if_true, ok_bind,
    fhashmapGetData_ok h.dcache.refines]
  cases f (dentryKey parent name) with
  | none => rfl
  | some d => rfl

theorem ext2VfsLookup_ok (hfresh : Fresh kmalloc) {N : Nat} {s : VfsData} {f : Key → Option Ptr}
    (h : Inv kmalloc fs buf s f) (hN : s.calls + 2 ≤ N) {inode : Ptr} {m : InodeNum}
    (hinode : s.inodes inode = some m) {name : Name}
    (hsteady : ∀ buf', findChild fs buf' m name = findChild fs buf m name) :
    Outcome (fun e => Exhausted kmalloc N ∨ driverLookup fs buf m name = .error e)
      (fun r => Inv kmalloc fs buf r.1 f ∧ Later kmalloc s r.1 f f ∧ r.1.calls ≤ s.calls + 2 ∧
        ((∃ code, r.2 = .error code ∧ driverLookup fs buf m name = .ok (.error code)) ∨
          ∃ p n, r.2 = .ok p ∧ r.1.inodes p = some n ∧ driverLookup fs buf m name = .ok (.ok n)))
      (ext2VfsLookup kmalloc fs s inode name) := by
  simp only [ext2VfsLookup, inodeNumOf_ok hinode, ok_bind, driverLookup, hsteady]
  have hread : Inv kmalloc fs buf { s with reads := s.reads + 1 } f := h.read _
  cases hfound : findChild fs buf m name with
  | error e => exact .inr rfl
  | ok found =>
    simp only [ok_bind]
    cases found with
    | error code =>
      exact ⟨hread, Later.read s f _, Nat.le_add_right _ _, .inl ⟨code, rfl, rfl⟩⟩
    | ok inodeNum =>
      simp only
      have hfetch := ext2FetchInode_ok hfresh hread hN inodeNum
      cases hr : ext2FetchInode kmalloc fs { s with reads := s.reads + 1 } inodeNum with
      | error e =>
        rcases hfetch.of_error hr with hmem | hread
        · exact .inl hmem
        · rw [hread]
          exact .inr rfl
      | ok r =>
        obtain ⟨hinv, hl, hnum, hcalls⟩ := hfetch.of_ok hr
        obtain ⟨g, hg⟩ := hinv.inodes
        rw [hg.read r.2 inodeNum hnum]
        exact ⟨hinv, (Later.read s f _).trans hl, hcalls, .inr ⟨r.2, inodeNum, rfl, hnum, rfl⟩⟩

/-- `path_lookup_step` does what the driver's lookup does, and its entry is cached. -/
theorem pathLookupStep_ok (hfresh : Fresh kmalloc) {N : Nat} {s : VfsData} {f : Key → Option Ptr}
    (h : Inv kmalloc fs buf s f) (hN : s.calls + 3 ≤ N) {parent : Ptr} {m : InodeNum}
    (hparent : Reaches kmalloc s parent m) {path : CString} {offset : Nat} {name : Name}
    (hfetch : fetchPathSection path offset = .ok (some name))
    (hshort : name.length ≤ maxNodeNameLength)
    (hsteady : ∀ buf', findChild fs buf' m name = findChild fs buf m name) :
    Outcome (fun e => Exhausted kmalloc N ∨ driverLookup fs buf m name = .error e)
      (fun r => ∃ f', Inv kmalloc fs buf r.1 f' ∧ Later kmalloc s r.1 f f' ∧
        r.1.calls ≤ s.calls + 3 ∧
        ∃ a, driverLookup fs buf m name = .ok a ∧
          Agrees kmalloc r.1 (f' (dentryKey parent name)) a r.2)
      (pathLookupStep kmalloc fs s parent path offset) := by
  simp only [pathLookupStep, hfetch, ok_bind, dirEntryCacheLookup_ok h parent hshort]
  cases hd : f (dentryKey parent name) with
  | some d =>
    obtain ⟨m', n, hm', hn, hlookup⟩ := h.cached parent name d hparent.1.1 hd
    obtain rfl : m = m' := Option.some.inj (hparent.2.symm.trans hm'.2)
    simp only [Option.getD_some, ne_eq, hn.1.1, not_false_eq_true, if_true]
    exact ⟨f, h, Later.refl s f, Nat.le_add_right _ _, .ok n, hlookup, hn, hd⟩
  | none =>
    obtain ⟨g, hg⟩ := h.inodes
    have hinode : (s.entries parent).inode ≠ 0#32 := (hg.block _ m hparent.2).1
    simp only [Option.getD_none, ne_eq, not_true_eq_false, if_false, hparent.1.1,
      not_false_eq_true, decide_true, assert, if_true, ok_bind, hinode]
    have hlook := ext2VfsLookup_ok hfresh h (by omega) hparent.2 hsteady (N := N)
    cases hr : ext2VfsLookup kmalloc fs s (s.entries parent).inode name with
    | error e => exact hlook.of_error hr
    | ok r =>
      obtain ⟨s₁, result⟩ := r
      obtain ⟨hinv, hl, hcalls, hres⟩ := hlook.of_ok hr
      simp only [ok_bind]
      rcases hres with ⟨code, hcode, hlookup⟩ | ⟨p, n, hp, hnum, hlookup⟩
      · simp only at hcode
        subst hcode
        exact ⟨f, hinv, hl, hcalls.trans (Nat.le_succ _), .error code, hlookup, rfl⟩
      · simp only at hp hnum hcalls
        subst hp
        have hadd := addEntry_ok hfresh hinv (show s₁.calls + 1 ≤ N by omega) hshort hd hnum
          fun _ => ⟨m, hl.reaches parent m hparent, hlookup⟩
        simp only [pure_eq_ok]
        rw [addEntry_bind s₁ parent name p fun s d => Except.ok (s, (.ok d : Except Int Ptr))]
        cases ha : addEntry kmalloc s₁ parent name p with
        | error e => exact .inl (hadd.of_error ha)
        | ok r =>
          obtain ⟨hinv', hl', hr', hcalls'⟩ := hadd.of_ok ha
          exact ⟨_, hinv', hl.trans hl', hcalls'.le.trans (Nat.succ_le_succ hcalls), .ok n, hlookup,
            hr', Function.update_self _ _ _⟩

/-! ## A whole path -/

/-- The entry that the cached entries lead to. -/
def walk (f : Key → Option Ptr) : Ptr → List Name → Option Ptr
  | d, [] => some d
  | d, name :: names =>
    match f (dentryKey d name) with
    | none => none
    | some child => walk f child names

theorem walk_step {f : Key → Option Ptr} {d child : Ptr} {name : Name} {names : List Name}
    (h : f (dentryKey d name) = some child) : walk f d (name :: names) = walk f child names := by
  rw [walk, h]

theorem walk_later {s s' : VfsData} {f f' : Key → Option Ptr} (hl : Later kmalloc s s' f f') :
    ∀ {names : List Name} {d d' : Ptr}, walk f d names = some d' → walk f' d names = some d' := by
  intro names
  induction names with
  | nil => exact fun h => h
  | cons name names ih =>
    intro d d' h
    simp only [walk] at h ⊢
    cases hc : f (dentryKey d name) with
    | none =>
      rw [hc] at h
      cases h
    | some child =>
      rw [hc] at h
      simp only [hl.entries _ _ hc]
      exact ih h

/-- The name after the `/` at `offset`: up to the next `/`, or to the end. -/
def componentAt (path : CString) (offset : Nat) : Name :=
  (path.chars.drop (offset + 1)).takeWhile (· ≠ slash)

theorem slash_notMem_componentAt (path : CString) (offset : Nat) :
    slash ∉ componentAt path offset := by
  intro hmem
  have h := List.mem_takeWhile_imp hmem
  exact absurd rfl (of_decide_eq_true h)

theorem kfind_componentAt (path : CString) (offset : Nat) :
    (kfindIndexFirstOfFrom path.chars slash (offset + 1) = -1 ∧
      componentAt path offset = path.chars.drop (offset + 1)) ∨
    (kfindIndexFirstOfFrom path.chars slash (offset + 1) =
        (offset + 1 + (componentAt path offset).length : Nat) ∧
      ∃ back, path.chars.drop (offset + 1) = componentAt path offset ++ slash :: back) := by
  have htake : ∀ {name : Name}, slash ∉ name → ∀ c ∈ name, decide (c ≠ slash) = true := by
    intro name hnot c hc
    exact decide_eq_true fun h => hnot (h ▸ hc)
  unfold kfindIndexFirstOfFrom componentAt
  rcases findFrom_cases slash (path.chars.drop (offset + 1)) (offset + 1) with
    ⟨hnone, hfind⟩ | ⟨name, back, hsplit, hnot, hfind⟩
  · left
    rw [hfind]
    exact ⟨rfl, List.takeWhile_eq_self_iff.2 (htake hnone)⟩
  · right
    have hname : (name ++ slash :: back).takeWhile (· ≠ slash) = name := by
      rw [List.takeWhile_append_of_pos (htake hnot), List.takeWhile_cons_of_neg (by simp),
        List.append_nil]
    rw [hfind, hsplit, hname]
    exact ⟨rfl, back, rfl⟩

/-- The name is copied if it has at most 255 characters, refused if it has more than 256. -/
theorem fetchPathSection_eq {path : CString} {offset : Nat}
    (hslash : path.chars[offset]? = some slash) :
    fetchPathSection path offset =
      if maxNodeNameLength + 1 < (componentAt path offset).length then .ok none
      else if maxNodeNameLength < (componentAt path offset).length then .error .outOfBounds
      else .ok (some (componentAt path offset)) := by
  have hlt : offset < path.chars.length := (List.getElem?_eq_some_iff.1 hslash).1
  unfold fetchPathSection
  rw [decide_eq_true hslash]
  rcases kfind_componentAt path offset with ⟨hk, hname⟩ | ⟨hk, back, hback⟩
  · have hsize : path.chars.length - (offset + 1) = (componentAt path offset).length := by
      rw [hname, List.length_drop]
    have htake : (path.chars.drop (offset + 1)).take (componentAt path offset).length =
        componentAt path offset := by
      rw [hname, List.take_length]
    simp only [assert, if_true, ok_bind, hk, Int.reduceNeg, Int.reduceLT, hsize, htake, pure_eq_ok]
  · have hpos : ¬ ((offset + 1 + (componentAt path offset).length : Nat) : Int) < 0 := by omega
    have htake : (path.chars.drop (offset + 1)).take (componentAt path offset).length =
        componentAt path offset := by
      rw [hback, List.take_left]
    simp only [assert, if_true, ok_bind, hk, hpos, if_false, Int.toNat_natCast,
      Nat.add_sub_cancel_left, htake, pure_eq_ok]

theorem fetchPathSection_ok {path : CString} {offset : Nat} {rest : List UInt8}
    (hrest : path.chars.drop offset = slash :: rest) :
    (rest.splitOn slash = [rest] ∧ kfindIndexFirstOfFrom path.chars slash (offset + 1) = -1 ∧
      (rest.length ≤ maxNodeNameLength → fetchPathSection path offset = .ok (some rest))) ∨
    ∃ name back, rest.length = name.length + 1 + back.length ∧
      rest.splitOn slash = name :: back.splitOn slash ∧
      kfindIndexFirstOfFrom path.chars slash (offset + 1) = (offset + 1 + name.length : Nat) ∧
      path.chars.drop (offset + 1 + name.length) = slash :: back ∧
      (name.length ≤ maxNodeNameLength → fetchPathSection path offset = .ok (some name)) := by
  have hdrop : path.chars.drop (offset + 1) = rest := by
    rw [← List.drop_drop, hrest, List.drop_one, List.tail_cons]
  have hslash : path.chars[offset]? = some slash := by
    rw [← List.head?_drop, hrest, List.head?_cons]
  have hfetch : (componentAt path offset).length ≤ maxNodeNameLength →
      fetchPathSection path offset = .ok (some (componentAt path offset)) := by
    intro hshort
    rw [fetchPathSection_eq hslash, if_neg (by omega), if_neg (by omega)]
  have hsplit := List.splitOn_eq_singleton (slash_notMem_componentAt path offset)
  rcases kfind_componentAt path offset with ⟨hk, hname⟩ | ⟨hk, back, hback⟩
  · left
    rw [hname, hdrop] at hsplit hfetch
    exact ⟨hsplit, hk, hfetch⟩
  · right
    rw [hdrop] at hback
    refine ⟨componentAt path offset, back, ?_, ?_, hk, ?_, hfetch⟩
    · rw [hback, List.length_append, List.length_cons]
      omega
    · rw [hback, List.splitOn_append_cons_self, hsplit]
      rfl
    · rw [← List.drop_drop, hdrop, hback, List.drop_left]

theorem crossMount_ok {s : VfsData} {f : Key → Option Ptr} (h : Inv kmalloc fs buf s f)
    (child : Ptr) : crossMount s.entries s.mounts child = .ok child := by
  simp only [crossMount, vfsMountResolve, fhashmapGetData_ok h.mounts, ok_bind, pure_eq_ok, ne_eq,
    not_true_eq_false, if_false]

theorem foldLookup_error {m : InodeNum} {name : Name} {names : List Name} {e : Fault}
    (h : driverLookup fs buf m name = .error e) :
    foldLookup fs buf m (name :: names) = .error e := by
  rw [foldLookup, h]
  rfl

theorem foldLookup_code {m : InodeNum} {name : Name} {names : List Name} {code : Int}
    (h : driverLookup fs buf m name = .ok (.error code)) :
    foldLookup fs buf m (name :: names) = .ok (.error code) := by
  rw [foldLookup, h]
  rfl

theorem foldLookup_step {m n : InodeNum} {name : Name} {names : List Name}
    (h : driverLookup fs buf m name = .ok (.ok n)) :
    foldLookup fs buf m (name :: names) = foldLookup fs buf n names := by
  rw [foldLookup, h]
  rfl

/-- The loop from the `/` before the names `rest` on does what the fold over the
names does. The induction is on the fuel, which is more than the characters left. -/
theorem lookupLoop_ok (hfresh : Fresh kmalloc) {N : Nat} {path : CString} :
    ∀ (fuel : Nat) {s : VfsData} {f : Key → Option Ptr} {cur : Ptr} {m : InodeNum} {offset : Nat}
      {rest : List UInt8}, Inv kmalloc fs buf s f → Reaches kmalloc s cur m →
      path.chars.drop offset = slash :: rest → rest.length < fuel →
      (∀ name ∈ rest.splitOn slash, name.length ≤ maxNodeNameLength) →
      Steady fs buf m (rest.splitOn slash) →
      s.calls + 3 * (rest.splitOn slash).length ≤ N →
      Outcome (fun e => Exhausted kmalloc N ∨ foldLookup fs buf m (rest.splitOn slash) = .error e)
        (fun r => ∃ f', Inv kmalloc fs buf r.1 f' ∧ Later kmalloc s r.1 f f' ∧
          r.1.calls ≤ s.calls + 3 * (rest.splitOn slash).length ∧
          ∃ a, foldLookup fs buf m (rest.splitOn slash) = .ok a ∧
            Agrees kmalloc r.1 (walk f' cur (rest.splitOn slash)) a r.2)
        (lookupLoop kmalloc fs path fuel s cur offset) := by
  intro fuel
  induction fuel with
  | zero =>
    intro s f cur m offset rest _ _ _ hfuel
    exact absurd hfuel (Nat.not_lt_zero _)
  | succ fuel ih =>
    intro s f cur m offset rest h hcur hrest hfuel hshort hsteady hN
    have hchar : path.chars[offset]? ≠ none := by
      rw [← List.head?_drop, hrest]
      simp
    rw [lookupLoop, if_neg hchar]
    rcases fetchPathSection_ok hrest with
      ⟨hsplit, hk, hfetch⟩ | ⟨name, back, hlen, hsplit, hk, hback, hfetch⟩
    · -- the last name
      rw [hsplit] at hshort hsteady hN ⊢
      have hstep := pathLookupStep_ok hfresh h hN hcur (hfetch (hshort rest List.mem_cons_self))
        (hshort rest List.mem_cons_self) hsteady.1
      cases hr : pathLookupStep kmalloc fs s cur path offset with
      | error e => exact (hstep.of_error hr).imp_right foldLookup_error
      | ok r =>
        obtain ⟨s₁, result⟩ := r
        obtain ⟨f', hinv, hl, hcalls, a, ha, hagree⟩ := hstep.of_ok hr
        simp only [ok_bind]
        rcases hagree.cases with ⟨code, rfl, rfl⟩ | ⟨n, d, rfl, rfl, hd, hkey⟩
        · exact ⟨f', hinv, hl, hcalls, .error code, foldLookup_code ha, rfl⟩
        · simp only [crossMount_ok hinv, ok_bind, hk, Int.reduceNeg, Int.reduceLT, if_true]
          refine ⟨f', hinv, hl, hcalls, .ok n, foldLookup_step ha, hd, ?_⟩
          rw [walk_step hkey, walk]
    · -- a name before another `/`
      rw [hsplit] at hshort hsteady hN ⊢
      rw [List.length_cons] at hN
      have hname := hshort name List.mem_cons_self
      have hstep := pathLookupStep_ok hfresh h (show s.calls + 3 ≤ N by omega) hcur (hfetch hname)
        hname hsteady.1
      cases hr : pathLookupStep kmalloc fs s cur path offset with
      | error e => exact (hstep.of_error hr).imp_right foldLookup_error
      | ok r =>
        obtain ⟨s₁, result⟩ := r
        obtain ⟨f', hinv, hl, hcalls, a, ha, hagree⟩ := hstep.of_ok hr
        simp only [ok_bind]
        rcases hagree.cases with ⟨code, rfl, rfl⟩ | ⟨n, d, rfl, rfl, hd, hkey⟩
        · refine ⟨f', hinv, hl, hcalls.trans ?_, .error code, foldLookup_code ha, rfl⟩
          rw [List.length_cons]
          omega
        · have hpos : ¬ ((offset + 1 + name.length : Nat) : Int) < 0 := by omega
          simp only [crossMount_ok hinv, ok_bind, hk, hpos, if_false, Int.toNat_natCast]
          have hcalls : s₁.calls ≤ s.calls + 3 := hcalls
          have hrec := ih hinv hd hback (by omega)
            (fun other hother => hshort other (List.mem_cons_of_mem _ hother)) (hsteady.2 n ha)
            (show s₁.calls + 3 * (back.splitOn slash).length ≤ N by omega)
          cases hloop : lookupLoop kmalloc fs path fuel s₁ d (offset + 1 + name.length) with
          | error e =>
            rw [foldLookup_step ha]
            exact hrec.of_error hloop
          | ok r =>
            obtain ⟨f'', hinv', hl', hcalls', a, ha', hagree'⟩ := hrec.of_ok hloop
            refine ⟨f'', hinv', hl.trans hl', hcalls'.trans ?_, a,
              (foldLookup_step ha).trans ha', ?_⟩
            · show s₁.calls + 3 * (back.splitOn slash).length ≤ _
              rw [List.length_cons]
              omega
            · rw [walk_step (hl'.entries _ _ hkey)]
              exact hagree'

theorem vfsLookupPath_ok (hfresh : Fresh kmalloc) {N : Nat} {s : VfsData} {f : Key → Option Ptr}
    (h : Inv kmalloc fs buf s f) (hroot : Reaches kmalloc s s.root ext2RootInode)
    (path : Option CString)
    (hshort : ∀ name ∈ namesOf path, name.length ≤ maxNodeNameLength)
    (hsteady : SteadyPath fs buf path)
    (hN : s.calls + 3 * (namesOf path).length ≤ N) :
    Outcome (fun e => Exhausted kmalloc N ∨ uncachedLookup fs buf path = .error e)
      (fun r => ∃ f', Inv kmalloc fs buf r.1 f' ∧ Later kmalloc s r.1 f f' ∧
        r.1.calls ≤ s.calls + 3 * (namesOf path).length ∧
        ∃ a, uncachedLookup fs buf path = .ok a ∧
          Agrees kmalloc r.1 (walk f' s.root (namesOf path)) a r.2)
      (vfsLookupPath kmalloc fs s path) := by
  cases path with
  | none => exact ⟨f, h, Later.refl s f, Nat.le_add_right _ _, _, rfl, rfl⟩
  | some path =>
    by_cases hfirst : path.chars[0]? = some slash
    · obtain ⟨rest, hrest⟩ : ∃ rest, path.chars = slash :: rest := by
        cases hc : path.chars with
        | nil =>
          rw [hc] at hfirst
          cases hfirst
        | cons c rest =>
          rw [hc, List.getElem?_cons_zero, Option.some.injEq] at hfirst
          exact ⟨rest, by rw [hfirst]⟩
      have hcomp : uncachedLookup fs buf (some path) =
          foldLookup fs buf ext2RootInode (components path) := by
        simp only [uncachedLookup, hfirst, if_true]
      by_cases hone : rest = []
      · -- the root itself
        have hnames : namesOf (some path) = [] := by
          simp [namesOf, components, hrest, hone]
        have hsecond : path.chars[1]? = none := by rw [hrest, hone]; rfl
        simp only [vfsLookupPath, hfirst, ne_eq, not_true_eq_false, if_false, hsecond, if_true]
        refine ⟨f, h, Later.refl s f, Nat.le_add_right _ _, .ok ext2RootInode, ?_, hroot, ?_⟩
        · rw [hcomp, show components path = [] from hnames, foldLookup]
        · rw [hnames, walk]
      · have hnames : namesOf (some path) = rest.splitOn slash := by
          simp [namesOf, components, hrest, hone]
        have hsecond : path.chars[1]? ≠ none := by
          rw [hrest, List.getElem?_cons_succ, ne_eq, List.getElem?_eq_none_iff]
          have := List.length_pos_of_ne_nil hone
          omega
        simp only [vfsLookupPath, hfirst, ne_eq, not_true_eq_false, if_false, hsecond]
        rw [hcomp, show components path = rest.splitOn slash from hnames]
        have hnext := hsteady path rfl hfirst
        rw [show components path = rest.splitOn slash from hnames] at hnext
        rw [hnames] at hshort hN ⊢
        refine lookupLoop_ok hfresh _ h hroot ?_ ?_ hshort hnext hN
        · rw [hrest, List.drop_zero]
        · rw [hrest, List.length_cons]
          omega
    · simp only [vfsLookupPath, ne_eq, hfirst, not_false_eq_true, if_true]
      refine ⟨f, h, Later.refl s f, Nat.le_add_right _ _, .error (-vfsErrInval), ?_, rfl⟩
      simp only [uncachedLookup, hfirst, if_false]

/-! ## Every sequence of lookups -/

/-- The answers of a run: what the lookups without caches give, and for each path
the entry that the cache leads to. -/
theorem run_transparent (hfresh : Fresh kmalloc) {N : Nat} :
    ∀ (paths : List (Option CString)) {s : VfsData} {f : Key → Option Ptr},
      Inv kmalloc fs buf s f → Reaches kmalloc s s.root ext2RootInode →
      (∀ path ∈ paths, ∀ name ∈ namesOf path, name.length ≤ maxNodeNameLength) →
      (∀ path ∈ paths, SteadyPath fs buf path) →
      s.calls + 3 * (paths.map fun path => (namesOf path).length).sum ≤ N →
      Outcome (fun e => Exhausted kmalloc N ∨ paths.mapM (uncachedLookup fs buf) = .error e)
        (fun r => ∃ f', Inv kmalloc fs buf r.1 f' ∧
          paths.mapM (uncachedLookup fs buf) = .ok (r.2.map inodeReached) ∧
          (∀ path d n, (path, .ok (d, n)) ∈ paths.zip r.2 →
            walk f' s.root (namesOf path) = some d) ∧
          Later kmalloc s r.1 f f')
        (run (lookup kmalloc fs) s paths) := by
  intro paths
  induction paths with
  | nil =>
    intro s f h _ _ _ _
    refine ⟨f, h, rfl, fun path d n hmem => ?_, Later.refl s f⟩
    cases hmem
  | cons path paths ih =>
    intro s f h hroot hshort hsteady hN
    rw [List.map_cons, List.sum_cons] at hN
    have hone := vfsLookupPath_ok hfresh h hroot path (hshort path List.mem_cons_self)
      (hsteady path List.mem_cons_self)
      (show s.calls + 3 * (namesOf path).length ≤ N by omega)
    rw [List.mapM_cons]
    cases hpath : vfsLookupPath kmalloc fs s path with
    | error e =>
      simp only [run, lookup, hpath]
      rcases hone.of_error hpath with hmem | herr
      · exact .inl hmem
      · rw [herr]
        exact .inr rfl
    | ok r =>
      obtain ⟨s₁, result⟩ := r
      obtain ⟨f₁, h₁, hl, hcalls, a, ha, hagree⟩ := hone.of_ok hpath
      have hroot₁ : Reaches kmalloc s₁ s₁.root ext2RootInode := by
        rw [show s₁.root = s.root from hl.root]
        exact hl.reaches _ _ hroot
      have hcalls : s₁.calls ≤ s.calls + 3 * (namesOf path).length := hcalls
      have hrec := ih h₁ hroot₁ (fun p hp => hshort p (List.mem_cons_of_mem _ hp))
        (fun p hp => hsteady p (List.mem_cons_of_mem _ hp))
        (show s₁.calls + 3 * (paths.map fun path => (namesOf path).length).sum ≤ N by omega)
      -- the answer of this lookup
      obtain ⟨answer, hanswer, hreached, hwalk⟩ : ∃ answer,
          lookup kmalloc fs s path = .ok (s₁, answer) ∧ a = inodeReached answer ∧
          ∀ d n, answer = .ok (d, n) → walk f₁ s.root (namesOf path) = some d := by
        rcases hagree.cases with ⟨code, rfl, rfl⟩ | ⟨n, d, rfl, rfl, hd, hw⟩
        · exact ⟨.error code, by simp only [lookup, hpath, ok_bind]; rfl, rfl, fun d n hd => by
            cases hd⟩
        · refine ⟨.ok (d, n), ?_, rfl, fun d' n' hd' => ?_⟩
          · simp only [lookup, hpath, ok_bind, inodeNumOf_ok hd.2]
            rfl
          · obtain ⟨rfl, -⟩ := Prod.mk.inj (Except.ok.inj hd')
            exact hw
      simp only [run, hanswer]
      rw [ha, ok_bind]
      cases hrun : run (lookup kmalloc fs) s₁ paths with
      | error e =>
        rcases hrec.of_error hrun with hmem | herr
        · exact .inl hmem
        · rw [herr]
          exact .inr rfl
      | ok r =>
        obtain ⟨f', hinv, hans, hzip, hl'⟩ := hrec.of_ok hrun
        refine ⟨f', hinv, ?_, fun p d n hmem => ?_, hl.trans hl'⟩
        · rw [hans, hreached]
          rfl
        · rw [List.zip_cons_cons, List.mem_cons] at hmem
          rcases hmem with hmem | hmem
          · obtain ⟨rfl, hd⟩ := Prod.mk.inj hmem
            exact walk_later hl' (hwalk d n hd.symm)
          · rw [← show s₁.root = s.root from hl.root]
            exact hzip p d n hmem

theorem inv_empty {mounts : VfsMountMap} {dcache inodeCache : FlatHashmap}
    (hm : Refines mounts.mounts fun _ => none) (hd : Holds dcache (fun _ => none) 0)
    (hi : Holds inodeCache (fun _ => none) 0) :
    Inv kmalloc fs buf
      { mounts, dcache, root := 0#32, inodeCache, entries := fun _ => ⟨0#32, 0#32, []⟩
        inodes := fun _ => none, calls := 0, reads := 0 } fun _ => none := by
  refine ⟨hd, hm, ⟨fun _ => none, hi, fun p n => ?_, fun p n hp => ?_, fun p n hp => ?_⟩,
    fun parent name d _ h => ?_⟩
  · simp
  · cases hp
  · cases hp
  · cases h

theorem vfsMountSetRoot_ok (hfresh : Fresh kmalloc) {N : Nat} {s : VfsData} {f : Key → Option Ptr}
    (h : Inv kmalloc fs buf s f) {p : Ptr} (hp : s.inodes p = some ext2RootInode)
    (hnone : f (dentryKey 0#32 []) = none) (hN : s.calls + 1 ≤ N) :
    Outcome (fun _ => Exhausted kmalloc N)
      (fun s' => ∃ f', Inv kmalloc fs buf s' f' ∧ Reaches kmalloc s' s'.root ext2RootInode ∧
        s'.calls = s.calls + 1)
      (vfsMountSetRoot kmalloc fs s) := by
  obtain ⟨g, hg⟩ := h.inodes
  have hadd := addEntry_ok hfresh h hN (Nat.zero_le _) hnone hp fun h => absurd rfl h
  simp only [vfsMountSetRoot, ext2FetchInode_cached h hp, ok_bind, ne_eq, (hg.block p _ hp).1,
    not_false_eq_true, decide_true, assert, if_true, pure_eq_ok]
  rw [addEntry_bind s 0#32 [] p fun s d => (.ok { s with root := d } : Kernel VfsData)]
  cases ha : addEntry kmalloc s 0#32 [] p with
  | error e => exact hadd.of_error ha
  | ok r =>
    obtain ⟨hinv, -, hroot, hcalls⟩ := hadd.of_ok ha
    obtain ⟨g', hg'⟩ := hinv.inodes
    exact ⟨_, ⟨hinv.dcache, hinv.mounts, ⟨g', hg'.holds, hg'.iff, hg'.block, hg'.read⟩,
      hinv.cached⟩, hroot, hcalls⟩

theorem initRootBdev_ok (hfresh : Fresh kmalloc) {N : Nat} (hN : 3 ≤ N) :
    Outcome (fun e => Exhausted kmalloc N ∨ mountRoot fs = .error e)
      (fun s => mountRoot fs = .ok () ∧ ∃ f, Inv kmalloc fs buf s f ∧
        Reaches kmalloc s s.root ext2RootInode ∧ s.calls ≤ 3)
      (initRootBdev kmalloc fs) := by
  obtain ⟨mounts, hmounts, hm⟩ := initFhashmap_holds murmur2Hash64 false
  obtain ⟨dcache, hdcache, hd⟩ := initFhashmap_holds dentryHash true
  obtain ⟨inodeCache, hicache, hi⟩ := initFhashmap_holds ext2HashInode true
  simp only [initRootBdev, vfsMountInitTree, initFhashmap, hmounts, hdcache, ok_bind, pure_eq_ok,
    ext2Mount, hicache, mountRoot]
  by_cases hgroup : fs.inodesPerGroup = 0#32
  · simp only [hgroup, ne_eq, not_true_eq_false, decide_false, assert, Bool.false_eq_true, if_false]
    exact .inr rfl
  simp only [ne_eq, hgroup, not_false_eq_true, decide_true, assert, if_true, ok_bind]
  have h₀ : Inv kmalloc fs buf
      { mounts := ⟨mounts, fun _ => none⟩, dcache, root := 0#32, inodeCache
        entries := fun _ => ⟨0#32, 0#32, []⟩, inodes := fun _ => none, calls := 0, reads := 0 }
      fun _ => none :=
    inv_empty hm.refines hd hi
  have hfirst := ext2FetchInode_ok hfresh h₀ (show 0 + 2 ≤ N by omega) ext2RootInode
  cases hr : ext2FetchInode kmalloc fs _ ext2RootInode with
  | error e => exact hfirst.of_error hr
  | ok r =>
    obtain ⟨h₁, -, hnum, hcalls⟩ := hfirst.of_ok hr
    have hcalls : r.1.calls ≤ 2 := hcalls
    obtain ⟨g, hg⟩ := h₁.inodes
    have hset := vfsMountSetRoot_ok hfresh h₁ hnum rfl (show r.1.calls + 1 ≤ N by omega)
    simp only [ok_bind, hg.read _ _ hnum, true_and]
    cases hs : vfsMountSetRoot kmalloc fs r.1 with
    | error e => exact .inl (hset.of_error hs)
    | ok s =>
      obtain ⟨f, hinv, hroot, hcalls'⟩ := hset.of_ok hs
      exact ⟨f, hinv, hroot, by omega⟩

theorem sameEntries_of_walk {paths : List (Option CString)}
    {answers : List (Except Int (Ptr × InodeNum))} {f : Key → Option Ptr} {root : Ptr}
    (h : ∀ path d n, (path, .ok (d, n)) ∈ paths.zip answers →
      walk f root (namesOf path) = some d) : SameEntries paths answers := by
  intro path d d' n n' hd hd'
  exact Option.some.inj ((h path d n hd).symm.trans (h path d' n' hd'))

theorem lookups_ok (hfresh : Fresh kmalloc) (paths : List (Option CString))
    (hshort : ∀ path ∈ paths, ∀ name ∈ namesOf path, name.length ≤ maxNodeNameLength)
    (hsteady : ∀ path ∈ paths, SteadyPath fs buf path) :
    Outcome (fun e => Exhausted kmalloc (requests paths) ∨ uncachedLookups fs buf paths = .error e)
      (fun r => uncachedLookups fs buf paths = .ok (r.2.map inodeReached) ∧ SameEntries paths r.2 ∧
        UniqueInodes r.1)
      (lookups kmalloc fs paths) := by
  have hmount := @initRootBdev_ok kmalloc fs buf hfresh _
    (show 3 ≤ requests paths from Nat.le_add_right _ _)
  rw [lookups, uncachedLookups]
  cases hs : initRootBdev kmalloc fs with
  | error e =>
    rcases hmount.of_error hs with hmem | herr
    · exact .inl hmem
    · rw [herr]
      exact .inr rfl
  | ok s =>
    obtain ⟨hcheck, f, hinv, hroot, hcalls⟩ := hmount.of_ok hs
    have hN : s.calls + 3 * (paths.map fun path => (namesOf path).length).sum ≤ requests paths :=
      Nat.add_le_add_right hcalls _
    have hrun := run_transparent hfresh paths hinv hroot hshort hsteady hN
    rw [hcheck, ok_bind, ok_bind]
    cases hr : run (lookup kmalloc fs) s paths with
    | error e => exact hrun.of_error hr
    | ok r =>
      obtain ⟨f', hinv', hans, hzip, -⟩ := hrun.of_ok hr
      exact ⟨hans, sameEntries_of_walk hzip, hinv'.unique⟩

end

/-- Lookups through the caches, on paths where the driver's answers do not depend on what the
blocks held. Those that get through answer as the driver's lookup folded over the
components of each path from the root does, or refuse a path that does not begin with
`/`; a path has one entry, and a number has one inode. As long as memory lasts they get
through where the driver does. -/
theorem lookups_transparent (fs : Filesystem) (buf : Ext2.Buffer) (kmalloc : Nat → Ptr)
    (hfresh : Fresh kmalloc) (paths : List (Option CString))
    (hshort : ∀ path ∈ paths, ∀ name ∈ namesOf path, name.length ≤ maxNodeNameLength)
    (hsteady : ∀ path ∈ paths, SteadyPath fs buf path) :
    (∀ s answers, lookups kmalloc fs paths = .ok (s, answers) →
      uncachedLookups fs buf paths = .ok (answers.map inodeReached) ∧ SameEntries paths answers ∧
        UniqueInodes s) ∧
    (¬ Exhausted kmalloc (requests paths) →
      ((lookups kmalloc fs paths).map fun r => r.2.map inodeReached) =
        uncachedLookups fs buf paths) := by
  have h := lookups_ok hfresh paths hshort hsteady
  constructor
  · intro s answers hs
    exact h.of_ok hs
  · intro hmem
    cases hs : lookups kmalloc fs paths with
    | error e =>
      rcases h.of_error hs with hout | herr
      · exact absurd hout hmem
      · rw [herr]
        rfl
    | ok r =>
      rw [(h.of_ok hs).1]
      rfl

/-! ## A small file system -/

/-- A directory with the entries `a`, inode 12, and `..`, the root. -/
def smallDir : List UInt8 :=
  [12, 0, 0, 0, 12, 0, 1, 2, 97, 0, 0, 0, 2, 0, 0, 0, 12, 0, 2, 2, 46, 46, 0, 0]

theorem smallInode_base_le : 0 ≤ 21 := Nat.zero_le 21

/-- The inodes of one block, block 5. -/
def smallInode : Ext2.Inode where
  size := 24
  block := fun _ => 5
  base := 0
  size_lt := by decide
  block_lt := fun _ => by decide
  base_le := smallInode_base_le

/-- A file system where every inode is the directory, which is read into other blocks each
time. -/
def smallFs : Filesystem where
  dev := fun i => smallDir.getD (i - 5120) 0
  inode := fun _ => smallInode
  mode := fun _ => 0x41ED#16
  inodesCount := 16#32
  inodesPerGroup := 16#32
  heap := fun i x => UInt8.ofNat (i + x)

/-- Blocks of 64 bytes, one after the other. -/
def smallKmalloc (i : Nat) : Ptr := if i < 64 then BitVec.ofNat 32 (4096 + 64 * i) else 0#32

theorem smallKmalloc_ne_zero {i : Nat} (h : i < 64) : smallKmalloc i ≠ 0#32 := by
  intro heq
  have heq := congrArg BitVec.toNat heq
  simp only [smallKmalloc, h, if_true, BitVec.toNat_ofNat] at heq
  omega

theorem smallKmalloc_fresh : Fresh smallKmalloc := by
  intro i j h hne
  have hi : i < 64 := by
    by_contra hge
    exact hne (if_neg hge)
  have hj : j < 64 := by
    by_contra hge
    rw [h] at hne
    exact hne (if_neg hge)
  simp only [smallKmalloc, hi, hj, if_true] at h
  have h := congrArg BitVec.toNat h
  simp only [BitVec.toNat_ofNat] at h
  omega

def pathA : CString := ⟨[47, 97], by decide⟩

def pathAUp : CString := ⟨[47, 97, 47, 46, 46], by decide⟩

def relativeA : CString := ⟨[97], by decide⟩

theorem smallFs_findChild (buf : Ext2.Buffer) (dir : InodeNum) {name : Name}
    {found : Option InodeNum} (hscan : scanDir smallDir name (smallDir.length + 1) 0 = .ok found) :
    findChild smallFs buf dir name = .ok (found.elim (.error (-vfsErrNoent)) .ok) := by
  have hdir : ext2InodeIsType (smallFs.mode dir) ext2FtDir = true := by
    show ext2InodeIsType 0x41ED#16 ext2FtDir = true
    decide
  have hsize : (smallFs.inode dir).size = smallDir.length := rfl
  have hread : Ext2.ReadsCorrectly smallFs.dev (smallFs.inode dir) smallDir.length 0 := by
    show Ext2.ReadsCorrectly smallFs.dev smallInode smallDir.length 0
    exact (Ext2.readInode_correct_iff _ smallInode _ 0 (by decide)).2
      (.inr ⟨by decide, by decide, .inl (by decide)⟩)
  have hbytes : ∀ i < smallDir.length,
      Ext2.fileByte smallFs.dev (smallFs.inode dir) i = smallDir.getD i 0 := by
    show ∀ i < smallDir.length, Ext2.fileByte smallFs.dev smallInode i = smallDir.getD i 0
    decide +kernel
  have hsmall : smallDir.length < 2 ^ 31 := by decide
  exact findChild_scanned hdir hsize hsmall hread hbytes hscan buf

theorem smallFs_steady (buf : Ext2.Buffer) : ∀ (names : List Name) (dir : InodeNum),
    (∀ name ∈ names, ∃ found, scanDir smallDir name (smallDir.length + 1) 0 = .ok found) →
    Steady smallFs buf dir names := by
  intro names
  induction names with
  | nil => exact fun _ _ => trivial
  | cons name names ih =>
    intro dir h
    obtain ⟨found, hscan⟩ := h name List.mem_cons_self
    refine ⟨fun buf' => ?_, fun n _ => ih n fun other hother =>
      h other (List.mem_cons_of_mem _ hother)⟩
    rw [smallFs_findChild buf' dir hscan, smallFs_findChild buf dir hscan]

/-- Lookups of `/a`, `/a/..`, `/a` again, `/` and `a`. -/
theorem smallFs_transparent :
    Fresh smallKmalloc ∧
    (∀ path ∈ [some pathA, some pathAUp, some pathA, some ⟨[47], by decide⟩, some relativeA],
      ∀ name ∈ namesOf path, name.length ≤ maxNodeNameLength) ∧
    ((lookups smallKmalloc smallFs
      [some pathA, some pathAUp, some pathA, some ⟨[47], by decide⟩, some relativeA]).map
        fun r => r.2.map inodeReached) =
      .ok [.ok 12#32, .ok 2#32, .ok 12#32, .ok 2#32, .error (-7)] := by
  have hshort : ∀ path ∈ [some pathA, some pathAUp, some pathA, some ⟨[47], by decide⟩,
      some relativeA], ∀ name ∈ namesOf path, name.length ≤ maxNodeNameLength := by
    decide
  have hscanned : ∀ path ∈ [some pathA, some pathAUp, some pathA, some ⟨[47], by decide⟩,
      some relativeA], ∀ name ∈ namesOf path,
        (scanDir smallDir name (smallDir.length + 1) 0).isOk = true := by
    decide
  have hsteady : ∀ path ∈ [some pathA, some pathAUp, some pathA, some ⟨[47], by decide⟩,
      some relativeA], SteadyPath smallFs (fun _ => 0) path := by
    rintro path hpath p rfl -
    refine smallFs_steady _ _ _ fun name hname => ?_
    have hok := hscanned (some p) hpath name hname
    cases hscan : scanDir smallDir name (smallDir.length + 1) 0 with
    | error e =>
      rw [hscan] at hok
      cases hok
    | ok found => exact ⟨found, rfl⟩
  refine ⟨smallKmalloc_fresh, hshort, ?_⟩
  rw [(lookups_transparent smallFs (fun _ => 0) smallKmalloc smallKmalloc_fresh _ hshort
    hsteady).2]
  · decide +kernel
  · intro hout
    rcases hout with ⟨i, hi, hnull⟩ | hmany
    · exact smallKmalloc_ne_zero (lt_of_lt_of_le hi (by decide)) hnull
    · exact absurd hmany (by decide)

/-- One record of 1024 bytes: an inode below 256, and a name of one character. -/
def blockRecord (inode name : UInt8) (i : Nat) : UInt8 :=
  [inode, 0, 0, 0, 0, 4, 1, 1, name].getD i 0

theorem twoBlocks_lt : 2048 < 2 ^ 32 := by decide

/-- Directories of two blocks: a `c` in the first one, and the second one is not read. The first
block of memory has an `a` there, the others a `b`. -/
def twoBlockFs : Filesystem where
  dev := fun i => blockRecord 14 99 (i - 5120)
  inode := fun _ => { smallInode with size := 2048, size_lt := twoBlocks_lt }
  mode := fun _ => 0x41ED#16
  inodesCount := 16#32
  inodesPerGroup := 16#32
  heap := fun i x => if 0 < i then blockRecord 13 98 (x - 1024) else blockRecord 12 97 (x - 1024)

/-- The path `a` has the component `a`, which is in the root, but it is refused. And where the
driver answers by what a block held, the cache gives its first answer, and not the one that
the driver would give now. -/
theorem lookups_differ :
    ((∀ name ∈ components relativeA, name.length ≤ maxNodeNameLength) ∧
      foldLookup smallFs (smallFs.heap 0) ext2RootInode (components relativeA) =
        .ok (.ok 12#32) ∧
      ∃ r, lookups smallKmalloc smallFs [some relativeA] = .ok r ∧ r.2 = [.error (-7)]) ∧
    foldLookup twoBlockFs (twoBlockFs.heap 1) ext2RootInode (components pathA) =
        .ok (.error (-1)) ∧
      ∃ r, lookups smallKmalloc twoBlockFs [some pathA, some pathA] = .ok r ∧
        r.2.map inodeReached = [.ok 12#32, .ok 12#32] ∧ r.1.reads = 1 := by
  decide +kernel

end X86Kernel.Vfs
