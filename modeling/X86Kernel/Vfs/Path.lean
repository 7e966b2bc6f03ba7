import X86Kernel.Vfs.Mount
import X86Kernel.Ext2.Fetch
import X86Kernel.Lib.Run

/- Looking up a path (`kernel/vfs/core/path.c`), with the cache of directory
   entries (`dir_entry_cache.c`), the cache of inodes (`inode_cache.c`) and the
   ext2 driver behind them (`Ext2/features.c`, `fetch.c`, `inode.c`).

   This module is the model. A file system that does not change is what its
   device holds and what each inode number stands for (`Filesystem`). A call of the
   driver reads a directory into a new block; what the block of the `i`-th call held
   before (`heap i`) shows where `ext2_read_inode` does not write, so the driver need
   not answer two calls alike. The block is freed again and is not modelled
   otherwise. `kmalloc` is a parameter: `kmalloc i`
   is the block that the `i`-th request for an inode or a directory entry gets, and
   0 is NULL. These blocks are never freed here. A string is shorter than 2^31
   characters, so positions fit in `iptr`.

   Not modelled: the fields of `inode_t` and `superblock_t` that a lookup does not
   read (`ops` is always the table with `ext2_vfs_lookup`), and `ext2_match`.

   Correspondence (C ↔ Lean):
     `dentry_key_t`            ↔ `dentryKey`
     `dentry_hash`             ↔ `dentryHash`
     `dir_entry_create`        ↔ `dirEntryCreate`
     `dir_entry_cache_lookup`  ↔ `dirEntryCacheLookup`
     `dir_entry_cache_insert`  ↔ `dirEntryCacheInsert`
     `ext2_hash_inode`         ↔ `ext2HashInode`
     `inode_cache_fetch`       ↔ `inodeCacheFetch`
     `inode_cache_insert`      ↔ `inodeCacheInsert`
     `ext2_get_block_group`    ↔ `ext2GetBlockGroup`
     `make_init_inode`         ↔ `makeInitInode`
     `ext2_fetch_inode`        ↔ `ext2FetchInode`
     `ext2_inode_is_type`      ↔ `ext2InodeIsType`
     `ext2_vfs_lookup`         ↔ `ext2VfsLookup` (the search: `findChild`)
     `ext2_mount`, `vfs_mount_set_root`, `init_root_bdev`
                               ↔ `ext2Mount`, `vfsMountSetRoot`, `initRootBdev`
     `fetch_path_section`      ↔ `fetchPathSection`
     `path_lookup_step`        ↔ `pathLookupStep`
     `vfs_lookup_path`         ↔ `vfsLookupPath` (its loop: `lookupLoop`) -/
namespace X86Kernel.Vfs
open X86Kernel.Hash
open X86Kernel.Ext2 (vfsErrInval)

/-- The number of an ext2 inode. -/
abbrev InodeNum := BitVec 32

/-- The characters of a name. -/
abbrev Name := List UInt8

/-- A string: the characters before its NUL. -/
structure CString where
  chars : List UInt8
  noNul : 0 ∉ chars

/-- `/`. -/
def slash : UInt8 := 47

/-- `MAX_NODE_NAME_LENGTH`. -/
def maxNodeNameLength : Nat := 255

def vfsErrNoent : Int := 1

def vfsErrNotdir : Int := 3

def vfsErrNametoolong : Int := 14

/-! ## The file system on its device -/

/-- A mounted ext2 file system: the device, the inode on it for each number
(`inode`, and `mode` of its `ext2_inode_disk_t`), two fields of the superblock, and
what the blocks hold that directories are read into. -/
structure Filesystem where
  dev : Ext2.Device
  inode : InodeNum → Ext2.Inode
  mode : InodeNum → BitVec 16
  inodesCount : BitVec 32
  inodesPerGroup : BitVec 32
  heap : Nat → Ext2.Buffer

/-- `EXT2_ROOT_INODE`. -/
def ext2RootInode : InodeNum := 2#32

/-- `EXT2_FT_DIR`. -/
def ext2FtDir : BitVec 16 := 4#16

def ext2InodeIsType (mode type : BitVec 16) : Bool := (mode &&& 0xF000#16) >>> 12 == type

/-- `bgd_descs_count`, by `div_up`. -/
def bgdDescsCount (fs : Filesystem) : Nat :=
  (fs.inodesCount.toNat + (fs.inodesPerGroup.toNat - 1)) / fs.inodesPerGroup.toNat

def ext2GetBlockGroup (fs : Filesystem) (inodeNum : InodeNum) : Kernel Nat := do
  assert (decide (inodeNum.toNat ≤ fs.inodesCount.toNat))
  divide (inodeNum - 1#32).toNat fs.inodesPerGroup.toNat

/-- The start of `make_init_inode`: the group descriptor of the inode is read. A descriptor has
32 bytes, and the size of the table is computed in 32 bits. -/
def readGroupDesc (fs : Filesystem) (inodeNum : InodeNum) : Kernel Unit := do
  let bgdIndex ← ext2GetBlockGroup fs inodeNum
  if bgdIndex < bgdDescsCount fs % 2 ^ 27 then .ok () else .error .outOfBounds

/-- The loop of `ext2_vfs_lookup` over the entries of a directory, from `cur` on.
An entry has its inode, `rec_len`, `name_len` and the name at offsets 0, 4, 6 and
8. Every turn that moves on takes at least one byte. -/
def searchDir (dirData : Ext2.Buffer) (size : Nat) (childStr : Name) :
    Nat → Nat → Kernel (Option InodeNum)
  | 0, _ => .error .diverges
  | fuel + 1, cur =>
    if cur < size then
      let recLen := (dirData (cur + 4)).toNat + 256 * (dirData (cur + 5)).toNat
      let nameLen := (dirData (cur + 6)).toNat
      let name := (List.range nameLen).map fun i => dirData (cur + 8 + i)
      if childStr.length = nameLen ∧ memcmp name childStr nameLen = 0 then
        .ok (some (BitVec.ofNat 32 (Ext2.deviceU32 dirData cur)))
      else searchDir dirData size childStr fuel (u32 (cur + recLen))
    else .ok none

/-- `ext2_vfs_lookup` up to the number of the inode it fetches, or its error; `buf` is what the
block held that the directory is read into. -/
def findChild (fs : Filesystem) (buf : Ext2.Buffer) (dir : InodeNum) (childStr : Name) :
    Kernel (Except Int InodeNum) :=
  if ext2InodeIsType (fs.mode dir) ext2FtDir then do
    let size := (fs.inode dir).size
    -- `kmalloc` refuses a larger block
    assert (decide (size ≤ 2 ^ 31))
    let (res, dirData) ← Ext2.ext2ReadInode fs.dev (fs.inode dir) buf size 0
    if res < 0 then return .error res
    else
      let found ← searchDir dirData size childStr (size + 1) 0
      match found with
      | none => return .error (-vfsErrNoent)
      | some inodeNum => return .ok inodeNum
  else return .error (-vfsErrNotdir)

/-! ## The caches -/

/-- The eight bytes of a `u64`, little endian. -/
def lengthBytes (n : Nat) : Key := (List.range 8).map fun i => UInt8.ofNat (n >>> (8 * i))

/-- `dentry_key_t`: the parent, the length of the name, and the name with its NUL. -/
def dentryKey (parent : Ptr) (name : Name) : Key :=
  pointerBytes parent ++ (lengthBytes name.length ++ (name ++ [0]))

def dentryHash (keyData : Key) : UInt64 :=
  let nameLen := (murmur2Word ((keyData.drop 4).take 8)).toNat
  murmur2Hash64 (keyData.take 4) ^^^ murmur2Hash64 ((keyData.drop 12).take nameLen)

/-- The number itself; keys have four bytes. -/
def ext2HashInode (inodeNum : Key) : UInt64 := murmur2Word inodeNum

/-- `vfs_data_t`: the mount map with its `dcache` and `root`, the inode cache of the superblock,
and the memory of both: the directory entries, the number of each inode, the
blocks asked for so far, and the calls of the driver. -/
structure VfsData where
  mounts : VfsMountMap
  dcache : FlatHashmap
  root : Ptr
  inodeCache : FlatHashmap
  entries : Ptr → DirEntry
  inodes : Ptr → Option InodeNum
  calls : Nat
  reads : Nat

/-- The number in the `ext2_inode_t` of an inode. -/
def inodeNumOf (s : VfsData) (inode : Ptr) : Kernel InodeNum :=
  match s.inodes inode with
  | none => .error .outOfBounds
  | some inodeNum => .ok inodeNum

def dirEntryCacheLookup (s : VfsData) (parent : Ptr) (childName : Name) : Kernel Ptr := do
  assert (decide (childName.length ≤ maxNodeNameLength))
  let res ← fhashmapGetData s.dcache (dentryKey parent childName)
  match res with
  | none => return 0#32
  | some value => return value

def dirEntryCacheInsert (s : VfsData) (entry : Ptr) : Kernel VfsData := do
  let name := (s.entries entry).name
  assert (decide (name.length ≤ maxNodeNameLength))
  let (dcache, _) ←
    fhashmapInsert s.dcache (dentryKey (s.entries entry).parent name) entry insFlagKeyCopy
  return { s with dcache }

def inodeCacheFetch (s : VfsData) (inodeNum : InodeNum) : Kernel Ptr := do
  let res ← fhashmapGetData s.inodeCache (pointerBytes inodeNum)
  match res with
  | none => return 0#32
  | some value => return value

/-- `inode_cache_insert`; the key is the number in the inode (`fs_id`). -/
def inodeCacheInsert (s : VfsData) (inode : Ptr) : Kernel VfsData := do
  let inodeNum ← inodeNumOf s inode
  let (inodeCache, _) ← fhashmapInsert s.inodeCache (pointerBytes inodeNum) inode 0#8
  return { s with inodeCache }

section
variable (kmalloc : Nat → Ptr) (fs : Filesystem)

def dirEntryCreate (s : VfsData) (parent : Ptr) (childName : Name) (inode : Ptr) :
    Kernel (VfsData × Ptr) := do
  assert (decide (childName.length ≤ maxNodeNameLength))
  let entry := kmalloc s.calls
  assert (decide (entry ≠ 0#32))
  return ({ s with
    calls := s.calls + 1
    entries := Function.update s.entries entry { parent, inode, name := childName } }, entry)

/-- `make_init_inode`: a block for the `ext2_inode_t`, and one for the `inode_t`,
which is written to without a look at it. -/
def makeInitInode (s : VfsData) (inodeNum : InodeNum) : Kernel (VfsData × Ptr) := do
  readGroupDesc fs inodeNum
  let ext2Inode := kmalloc s.calls
  assert (decide (ext2Inode ≠ 0#32))
  let inode := kmalloc (s.calls + 1)
  if inode = 0#32 then .error .nullDeref
  else
    return ({ s with
      calls := s.calls + 2
      inodes := Function.update s.inodes inode (some inodeNum) }, inode)

def ext2FetchInode (s : VfsData) (inodeNum : InodeNum) : Kernel (VfsData × Ptr) := do
  let cacheInode ← inodeCacheFetch s inodeNum
  if cacheInode ≠ 0#32 then return (s, cacheInode)
  else
    let (s, newInode) ← makeInitInode kmalloc fs s inodeNum
    let s ← inodeCacheInsert s newInode
    return (s, newInode)

def ext2VfsLookup (s : VfsData) (inode : Ptr) (childStr : Name) : Kernel
    (VfsData × Except Int Ptr) := do
  let dir ← inodeNumOf s inode
  let found ← findChild fs (fs.heap s.reads) dir childStr
  let s := { s with reads := s.reads + 1 }
  match found with
  | .error code => return (s, .error code)
  | .ok inodeNum =>
    let (s, child) ← ext2FetchInode kmalloc fs s inodeNum
    return (s, .ok child)

/-! ## Mounting the root -/

/-- `ext2_mount` on a new superblock: the empty cache, `fetch_bgdt` with the
assertion of its `div_up`, and the root inode. -/
def ext2Mount (mounts : VfsMountMap) (dcache : FlatHashmap) : Kernel VfsData := do
  let inodeCache ← initFhashmapCustom initCapacity ext2HashInode true
  assert (decide (fs.inodesPerGroup ≠ 0#32))
  let s : VfsData :=
    { mounts, dcache, root := 0#32, inodeCache, entries := fun _ => ⟨0#32, 0#32, []⟩
      inodes := fun _ => none, calls := 0, reads := 0 }
  let (s, _) ← ext2FetchInode kmalloc fs s ext2RootInode
  return s

def vfsMountSetRoot (s : VfsData) : Kernel VfsData := do
  let (s, rootInode) ← ext2FetchInode kmalloc fs s ext2RootInode
  assert (decide (rootInode ≠ 0#32))
  let (s, rootDentry) ← dirEntryCreate kmalloc s 0#32 [] rootInode
  let s ← dirEntryCacheInsert s rootDentry
  return { s with root := rootDentry }

/-- `init_root_bdev`, with `vfs_mount_init_tree` first. -/
def initRootBdev : Kernel VfsData := do
  let mounts ← vfsMountInitTree
  let dcache ← initFhashmapCustom initCapacity dentryHash true
  let s ← ext2Mount kmalloc fs mounts dcache
  vfsMountSetRoot kmalloc fs s

/-! ## Looking up a path -/

/-- The name after the `/` at `offset`; `none` is a name that is too long. A name
of one character more than fits is let through, and its NUL goes past the end of
the buffer. -/
def fetchPathSection (path : CString) (offset : Nat) : Kernel (Option Name) := do
  assert (decide (path.chars[offset]? = some slash))
  let index := kfindIndexFirstOfFrom path.chars slash (offset + 1)
  let index := if index < 0 then path.chars.length else index.toNat
  let size := index - (offset + 1)
  if size > maxNodeNameLength + 1 then return none
  else if size > maxNodeNameLength then .error .outOfBounds
  else return some ((path.chars.drop (offset + 1)).take size)

def pathLookupStep (s : VfsData) (parent : Ptr) (path : CString) (offset : Nat) :
    Kernel (VfsData × Except Int Ptr) := do
  let fetched ← fetchPathSection path offset
  match fetched with
  | none => return (s, .error (-vfsErrNametoolong))
  | some curSubpath =>
    let entry ← dirEntryCacheLookup s parent curSubpath
    if entry ≠ 0#32 then return (s, .ok entry)
    else
      assert (decide (parent ≠ 0#32))
      let inode := (s.entries parent).inode
      assert (decide (inode ≠ 0#32))
      let (s, result) ← ext2VfsLookup kmalloc fs s inode curSubpath
      match result with
      | .error code => return (s, .error code)
      | .ok inode =>
        let (s, entry) ← dirEntryCreate kmalloc s parent curSubpath inode
        let s ← dirEntryCacheInsert s entry
        return (s, .ok entry)

/-- The loop of `vfs_lookup_path`. A step that succeeds gives an entry that is not
NULL. Every turn moves on in the path. -/
def lookupLoop (path : CString) : Nat → VfsData → Ptr → Nat → Kernel (VfsData × Except Int Ptr)
  | 0, _, _, _ => .error .diverges
  | fuel + 1, s, cur, offset =>
    if path.chars[offset]? = none then .ok (s, .ok cur)
    else do
      let (s, result) ← pathLookupStep kmalloc fs s cur path offset
      match result with
      | .error code => return (s, .error code)
      | .ok child =>
        let cur ← crossMount s.entries s.mounts child
        let next := kfindIndexFirstOfFrom path.chars slash (offset + 1)
        if next < 0 then return (s, .ok cur)
        else lookupLoop path fuel s cur next.toNat

/-- `vfs_lookup_path`: the code, or the entry it leaves in `result`. The path may
be NULL. -/
def vfsLookupPath (s : VfsData) : Option CString → Kernel (VfsData × Except Int Ptr)
  | none => .ok (s, .error (-vfsErrInval))
  | some path =>
    if path.chars[0]? ≠ some slash then .ok (s, .error (-vfsErrInval))
    else if path.chars[1]? = none then .ok (s, .ok s.root)
    else lookupLoop kmalloc fs path (path.chars.length + 1) s s.root 0

/-- One lookup: the entry it returns, with the number of its inode. -/
def lookup (s : VfsData) (path : Option CString) : Kernel
    (VfsData × Except Int (Ptr × InodeNum)) := do
  let (s, result) ← vfsLookupPath kmalloc fs s path
  match result with
  | .error code => return (s, .error code)
  | .ok entry =>
    let inodeNum ← inodeNumOf s (s.entries entry).inode
    return (s, .ok (entry, inodeNum))

/-- The root is mounted, and the paths are looked up one after the other. -/
def lookups (paths : List (Option CString)) :
    Kernel (VfsData × List (Except Int (Ptr × InodeNum))) := do
  let s ← initRootBdev kmalloc fs
  Lib.run (lookup kmalloc fs) s paths

end

end X86Kernel.Vfs
