import X86Kernel.Utils.FlatHashmap.Occupancy

/- The mounts of the virtual file system (`kernel/vfs/core/mount.c`), a hash map
   from mount points to what is mounted there.

   What is proved: the map resolves mounts only as long as there are none
   (`resolvesMounts_iff`). `vfs_mount_register` hands `fhashmap_insert` the target
   itself as the key, so the four bytes of the key are the first field of the
   `dir_entry_t`, its parent; and the value is the `vfs_mountpoint_t`, which
   `vfs_mount_resolve` returns as a `dir_entry_t*`. A mount point resolves to
   that structure and so do all other entries of its directory
   (`sibling_resolves`).

   `kmalloc` is a parameter: a mount comes with the block it gave, and the block
   is not NULL and not a directory entry. The fields of `vfs_mountpoint_t` that
   are never set (`parent`, `sb`) are left out.

   Correspondence (C ↔ Lean):
     `dir_entry_t`            ↔ `DirEntry`
     `vfs_mountpoint_t`       ↔ `VfsMountpoint`
     `vfs_mount_map_t`        ↔ `VfsMountMap`
     `vfs_mount_init_tree`    ↔ `vfsMountInitTree`
     `vfs_mount_register`     ↔ `vfsMountRegister`
     `vfs_mount_resolve`      ↔ `vfsMountResolve`
     `vfs_lookup_path`        ↔ `crossMount` (what the loop does with a child) -/
namespace X86Kernel.Vfs
open X86Kernel.Hash

/-- `dir_entry_t`. -/
structure DirEntry where
  parent : Ptr
  inode : Ptr
  name : List UInt8
  deriving DecidableEq, Repr

/-- `vfs_mountpoint_t`. -/
structure VfsMountpoint where
  name : List UInt8
  mountpoint : Ptr
  root : Ptr
  deriving DecidableEq, Repr

/-- `vfs_mount_map_t`, with the mount points in memory. -/
structure VfsMountMap where
  mounts : FlatHashmap
  points : Ptr → Option VfsMountpoint

/-- The four bytes of a pointer, little endian. -/
def pointerBytes (p : Ptr) : Key :=
  [p.extractLsb' 0 8, p.extractLsb' 8 8, p.extractLsb' 16 8, p.extractLsb' 24 8].map
    fun b => UInt8.ofBitVec b

/-- The first `sizeof(dir_entry_t*)` bytes of an entry. -/
def keyOf (entries : Ptr → DirEntry) (target : Ptr) : Key := pointerBytes (entries target).parent

def vfsMountInitTree : Kernel VfsMountMap := do
  let mounts ← initFhashmap
  return { mounts, points := fun _ => none }

/-- A mount: the arguments of `vfs_mount_register`, and the block of `kmalloc`. -/
structure Mount where
  target : Ptr
  name : List UInt8
  root : Ptr
  block : Ptr
  deriving DecidableEq, Repr

def vfsMountRegister (entries : Ptr → DirEntry) (data : VfsMountMap) (mount : Mount) :
    Kernel VfsMountMap := do
  let newMount : VfsMountpoint :=
    { root := mount.root, mountpoint := mount.target, name := mount.name }
  let (mounts, res) ←
    fhashmapInsert data.mounts (keyOf entries newMount.mountpoint) mount.block 0#8
  assert (decide (0 ≤ res))
  return { mounts, points := fun p => if p = mount.block then some newMount else data.points p }

def vfsMountResolve (entries : Ptr → DirEntry) (data : VfsMountMap) (target : Ptr) :
    Kernel Ptr := do
  let result ← fhashmapGetData data.mounts (keyOf entries target)
  match result with
  | none => return 0#32
  | some value => return value

/-- The entry at which a lookup goes on after `child`. -/
def crossMount (entries : Ptr → DirEntry) (data : VfsMountMap) (child : Ptr) : Kernel Ptr := do
  let mountRes ← vfsMountResolve entries data child
  return if mountRes ≠ 0#32 then mountRes else child

/-- The mounts registered in order. -/
def registerAll (entries : Ptr → DirEntry) : VfsMountMap → List Mount → Kernel VfsMountMap
  | data, [] => .ok data
  | data, mount :: mounts => do
    let data ← vfsMountRegister entries data mount
    registerAll entries data mounts

/-- What is mounted at an entry, or NULL. -/
def mountedAt (mounts : List Mount) (d : Ptr) : Ptr :=
  match mounts.find? fun mount => mount.target = d with
  | none => 0#32
  | some mount => mount.root

/-- All mounts can be registered, every entry resolves to what is mounted there,
and a lookup goes on there. -/
def ResolvesMounts (entries : Ptr → DirEntry) (mounts : List Mount) : Prop :=
  ∃ data, (vfsMountInitTree >>= fun data => registerAll entries data mounts) = .ok data ∧
    (∀ d, vfsMountResolve entries data d = .ok (mountedAt mounts d)) ∧
    ∀ d, crossMount entries data d =
      .ok (if mountedAt mounts d ≠ 0#32 then mountedAt mounts d else d)

/-! ## What the map holds -/

/-- The table is sound, and its values are blocks of mounts. -/
def Blocks (data : VfsMountMap) (blocks : List Ptr) : Prop :=
  Sound data.mounts ∧ ∀ e ∈ usedEntries data.mounts.entries, e.data ∈ blocks

theorem vfsMountInitTree_ok :
    ∃ data, vfsMountInitTree = .ok data ∧ Sound data.mounts ∧
      usedEntries data.mounts.entries = [] := by
  obtain ⟨m, hm, hs, hnone⟩ :=
    initFhashmapCustom_sound (show u32 initCapacity ≤ 2 ^ 26 by decide) murmur2Hash64 false
  refine ⟨⟨m, fun _ => none⟩, ?_, hs, hnone⟩
  rw [vfsMountInitTree, initFhashmap, hm]
  rfl

theorem vfsMountRegister_ok {entries : Ptr → DirEntry} {data data' : VfsMountMap} {mount : Mount}
    {blocks : List Ptr} (h : Blocks data blocks)
    (hreg : vfsMountRegister entries data mount = .ok data') :
    Blocks data' (mount.block :: blocks) ∧
      ∃ e ∈ usedEntries data'.mounts.entries, e.keyData = keyOf entries mount.target := by
  obtain ⟨hs, hdata⟩ := h
  rcases fhashmapInsert_sound hs (keyOf entries mount.target) mount.block 0#8 with
    ⟨m', c, hm', hs', hkey, hall⟩ | ⟨-, herr⟩
  · simp only [vfsMountRegister, hm', ok_bind] at hreg
    by_cases hc : 0 ≤ c
    · simp only [hc, decide_true, assert, if_true, ok_bind, pure_eq_ok, Except.ok.injEq] at hreg
      subst hreg
      refine ⟨⟨hs', fun e he => ?_⟩, hkey⟩
      rcases hall e he with ⟨-, heq⟩ | hold
      · exact heq ▸ List.mem_cons_self
      · exact List.mem_cons_of_mem _ (hdata e hold)
    · simp only [hc, decide_false, assert, Bool.false_eq_true, if_false] at hreg
      cases hreg
  · simp only [vfsMountRegister, herr] at hreg
    cases hreg

theorem vfsMountResolve_mem {entries : Ptr → DirEntry} {data : VfsMountMap} {blocks : List Ptr}
    (h : Blocks data blocks) {d : Ptr}
    (hkey : ∃ e ∈ usedEntries data.mounts.entries, e.keyData = keyOf entries d) :
    ∃ b ∈ blocks, vfsMountResolve entries data d = .ok b := by
  obtain ⟨hs, hdata⟩ := h
  rcases findExactEntry_ok hs (keyOf entries d) with ⟨i, e, hfind, he, hused, -⟩ | ⟨-, hnone⟩
  · refine ⟨e.data, hdata e (mem_usedEntries.2 ⟨List.mem_of_getElem? he, hused⟩), ?_⟩
    simp only [vfsMountResolve, fhashmapGetData, hfind, ok_bind, he, pure_eq_ok]
  · obtain ⟨e, he, heq⟩ := hkey
    exact absurd heq (hnone e he)

/-- After any registrations, the last target resolves to a block. -/
theorem registerAll_last {entries : Ptr → DirEntry} : ∀ {mounts : List Mount} {mount : Mount}
    {data data' : VfsMountMap} {blocks : List Ptr}, Blocks data blocks →
    registerAll entries data (mounts ++ [mount]) = .ok data' →
    ∃ b ∈ (mounts ++ [mount]).map Mount.block ++ blocks,
      vfsMountResolve entries data' mount.target = .ok b := by
  intro mounts
  induction mounts with
  | nil =>
    intro mount data data' blocks h hreg
    simp only [List.nil_append, registerAll] at hreg
    cases hm : vfsMountRegister entries data mount with
    | error e =>
      rw [hm] at hreg
      cases hreg
    | ok data₁ =>
      rw [hm] at hreg
      obtain rfl := Except.ok.inj hreg
      obtain ⟨hblocks, hkey⟩ := vfsMountRegister_ok h hm
      exact vfsMountResolve_mem hblocks hkey
  | cons first mounts ih =>
    intro mount data data' blocks h hreg
    simp only [List.cons_append, registerAll] at hreg
    cases hm : vfsMountRegister entries data first with
    | error e =>
      rw [hm] at hreg
      cases hreg
    | ok data₁ =>
      rw [hm] at hreg
      obtain ⟨b, hb, hres⟩ := ih (vfsMountRegister_ok h hm).1 hreg
      refine ⟨b, ?_, hres⟩
      simp only [List.cons_append, List.map_cons, List.mem_append, List.mem_cons] at hb ⊢
      tauto

/-- Mounts are resolved as they should be exactly when there are none. -/
theorem resolvesMounts_iff (entries : Ptr → DirEntry) (mounts : List Mount)
    (hblock : ∀ mount ∈ mounts, ∀ other ∈ mounts,
      mount.block ≠ 0#32 ∧ mount.block ≠ other.root) :
    ResolvesMounts entries mounts ↔ mounts = [] := by
  obtain ⟨data₀, hdata₀, hs, hnone⟩ := vfsMountInitTree_ok
  constructor
  · intro h
    by_contra hne
    obtain ⟨data, hdata, hresolve, -⟩ := h
    obtain ⟨front, mount, rfl⟩ : ∃ front mount, mounts = front ++ [mount] :=
      ⟨_, _, (List.dropLast_append_getLast hne).symm⟩
    rw [hdata₀, ok_bind] at hdata
    have hblocks : Blocks data₀ [] := ⟨hs, by simp [hnone]⟩
    obtain ⟨b, hb, hres⟩ := registerAll_last hblocks hdata
    rw [List.append_nil] at hb
    obtain ⟨owner, howner, rfl⟩ := List.mem_map.1 hb
    -- the value is a block, which is neither NULL nor a root
    have hval : owner.block = mountedAt (front ++ [mount]) mount.target :=
      Except.ok.inj (hres.symm.trans (hresolve mount.target))
    rw [mountedAt] at hval
    split at hval
    · exact (hblock owner howner owner howner).1 hval
    · rename_i found hfound
      exact (hblock owner howner found (List.mem_of_find?_eq_some hfound)).2 hval
  · intro h
    subst h
    have hres : ∀ d, vfsMountResolve entries data₀ d = .ok 0#32 := by
      intro d
      rcases findExactEntry_ok hs (keyOf entries d) with ⟨i, e, -, he, hused, -⟩ | ⟨hfind, -⟩
      · have hmem : e ∈ usedEntries data₀.mounts.entries :=
          mem_usedEntries.2 ⟨List.mem_of_getElem? he, hused⟩
        rw [hnone] at hmem
        cases hmem
      · simp only [vfsMountResolve, fhashmapGetData, hfind, ok_bind, pure_eq_ok]
    refine ⟨data₀, by rw [hdata₀]; rfl, hres, fun d => ?_⟩
    simp only [crossMount, hres, ok_bind, pure_eq_ok]
    rfl

/-- Two entries of one directory. -/
def twoEntries (p : Ptr) : DirEntry :=
  if p = 0x1000#32 then ⟨0x500#32, 0#32, [97]⟩
  else if p = 0x1100#32 then ⟨0x500#32, 0#32, [98]⟩
  else ⟨0#32, 0#32, []⟩

def oneMount : Mount := ⟨0x1000#32, [109], 0x2000#32, 0x3000#32⟩

theorem oneMount_does_not_resolve :
    (∀ mount ∈ [oneMount], ∀ other ∈ [oneMount],
      mount.block ≠ 0#32 ∧ mount.block ≠ other.root) ∧
    ¬ ResolvesMounts twoEntries [oneMount] := by
  have hblock : ∀ mount ∈ [oneMount], ∀ other ∈ [oneMount],
      mount.block ≠ 0#32 ∧ mount.block ≠ other.root := by
    decide
  refine ⟨hblock, fun h => ?_⟩
  exact absurd ((resolvesMounts_iff twoEntries [oneMount] hblock).1 h) (by decide)

/-- The target resolves to the mount point structure and not to the root, and so
does the entry beside it, where nothing is mounted; a mount there is refused. -/
theorem sibling_resolves :
    ∃ data, (vfsMountInitTree >>= fun data => registerAll twoEntries data [oneMount]) = .ok data ∧
      (vfsMountResolve twoEntries data 0x1000#32 = .ok 0x3000#32 ∧
        mountedAt [oneMount] 0x1000#32 = 0x2000#32) ∧
      (vfsMountResolve twoEntries data 0x1100#32 = .ok 0x3000#32 ∧
        mountedAt [oneMount] 0x1100#32 = 0#32) ∧
      vfsMountRegister twoEntries data ⟨0x1100#32, [110], 0x2100#32, 0x3100#32⟩ =
        .error .assertion := by
  decide +kernel

end X86Kernel.Vfs
