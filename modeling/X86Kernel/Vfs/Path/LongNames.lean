import X86Kernel.Vfs.Path.Transparent

/- Names that are too long (`fetch_path_section`, `path_lookup_step`, `vfs_lookup_path`).

   `fetch_path_section` refuses a name of more than `MAX_NODE_NAME_LENGTH + 1` characters,
   and writes a NUL behind the others; the buffer has `MAX_NODE_NAME_LENGTH + 1` bytes,
   and the cache asserts that a name has at most `MAX_NODE_NAME_LENGTH` characters. What
   is proved: at all the names that a lookup reaches the three agree, exactly if none of
   them has 256 characters (`limitsKept_iff`). -/
namespace X86Kernel.Vfs

section Lookup

variable (kmalloc : Nat → Ptr) (fs : Filesystem) (path : CString) (s₀ : VfsData)

/-- A lookup of the path comes to the name at an offset, in a directory. -/
inductive Reached : VfsData → Ptr → Nat → Prop
  | start : path.chars[1]? ≠ none → Reached s₀ s₀.root 0
  | next {s s' : VfsData} {cur child cur' : Ptr} {offset offset' : Nat} :
    Reached s cur offset →
    pathLookupStep kmalloc fs s cur path offset = .ok (s', .ok child) →
    crossMount s'.entries s'.mounts child = .ok cur' →
    kfindIndexFirstOfFrom path.chars slash (offset + 1) = (offset' : Int) →
    Reached s' cur' offset'

/-- What the cache asserts of a name: `dir_entry_cache_lookup` and `dir_entry_create` of the
name, `dir_entry_cache_insert` of the entry that was made with it. -/
structure NameLenAsserted (name : Name) : Prop where
  lookup : name.length ≤ maxNodeNameLength
  insert : ∀ {s s' : VfsData} {parent inode entry : Ptr},
    dirEntryCreate kmalloc s parent name inode = .ok (s', entry) →
    (s'.entries entry).name.length ≤ maxNodeNameLength

/-- At every name that is reached: one of more than 255 characters is refused, nothing is
written past the buffer, and the cache gets names for which its assertions hold. -/
structure LimitsKept : Prop where
  refused : ∀ {s : VfsData} {cur : Ptr} {offset : Nat},
    Reached kmalloc fs path s₀ s cur offset →
    maxNodeNameLength < (componentAt path offset).length →
    vfsLookupPath kmalloc fs s₀ (some path) = .ok (s, .error (-vfsErrNametoolong))
  inside : ∀ {s : VfsData} {cur : Ptr} {offset : Nat},
    Reached kmalloc fs path s₀ s cur offset → fetchPathSection path offset ≠ .error .outOfBounds
  asserted : ∀ {s : VfsData} {cur : Ptr} {offset : Nat} {name : Name},
    Reached kmalloc fs path s₀ s cur offset → fetchPathSection path offset = .ok (some name) →
    NameLenAsserted kmalloc name

end Lookup

/-! ## The names that are reached -/

section Reached

variable {kmalloc : Nat → Ptr} {fs : Filesystem} {path : CString} {s₀ s : VfsData} {cur : Ptr}
  {offset : Nat}

theorem nametoolong_step (hslash : path.chars[offset]? = some slash)
    (hlong : maxNodeNameLength + 1 < (componentAt path offset).length) :
    pathLookupStep kmalloc fs s cur path offset = .ok (s, .error (-vfsErrNametoolong)) := by
  rw [pathLookupStep, fetchPathSection_eq hslash, if_pos hlong]
  rfl

theorem lookupLoop_next {fuel offset' : Nat} {s' : VfsData} {child cur' : Ptr}
    (hslash : path.chars[offset]? = some slash)
    (hstep : pathLookupStep kmalloc fs s cur path offset = .ok (s', .ok child))
    (hcross : crossMount s'.entries s'.mounts child = .ok cur')
    (hnext : kfindIndexFirstOfFrom path.chars slash (offset + 1) = (offset' : Int)) :
    lookupLoop kmalloc fs path (fuel + 1) s cur offset =
      lookupLoop kmalloc fs path fuel s' cur' offset' := by
  have hpos : ¬ (offset' : Int) < 0 := by omega
  rw [lookupLoop, if_neg (hslash.symm ▸ Option.some_ne_none slash), hstep, ok_bind]
  simp only [hcross, ok_bind, hnext, hpos, if_false, Int.toNat_natCast]

theorem lookupLoop_of_reached (hslash : path.chars[0]? = some slash)
    (h : Reached kmalloc fs path s₀ s cur offset) :
    path.chars[offset]? = some slash ∧ ∃ fuel, path.chars.length < offset + fuel ∧
      vfsLookupPath kmalloc fs s₀ (some path) = lookupLoop kmalloc fs path fuel s cur offset := by
  induction h with
  | start hone =>
    refine ⟨hslash, path.chars.length + 1, by omega, ?_⟩
    simp only [vfsLookupPath, hslash, ne_eq, not_true_eq_false, if_false, hone]
  | @next s s' cur child cur' offset offset' _ hstep hcross hnext ih =>
    obtain ⟨hchar, fuel, hfuel, hrun⟩ := ih
    have hlt : offset < path.chars.length := (List.getElem?_eq_some_iff.1 hchar).1
    obtain ⟨fuel, rfl⟩ := Nat.exists_eq_succ_of_ne_zero (show fuel ≠ 0 by omega)
    rcases kfind_componentAt path offset with ⟨hk, -⟩ | ⟨hk, back, hback⟩
    · rw [hk] at hnext
      omega
    · obtain rfl : offset' = offset + 1 + (componentAt path offset).length := by
        rw [hk] at hnext
        omega
      refine ⟨?_, fuel, by omega, ?_⟩
      · rw [← List.head?_drop, ← List.drop_drop, hback, List.drop_left, List.head?_cons]
      · rw [hrun, lookupLoop_next hchar hstep hcross hnext]

theorem nametoolong_of_reached (hslash : path.chars[0]? = some slash)
    (h : Reached kmalloc fs path s₀ s cur offset)
    (hlong : maxNodeNameLength + 1 < (componentAt path offset).length) :
    vfsLookupPath kmalloc fs s₀ (some path) = .ok (s, .error (-vfsErrNametoolong)) := by
  obtain ⟨hchar, fuel, hfuel, hrun⟩ := lookupLoop_of_reached hslash h
  have hlt : offset < path.chars.length := (List.getElem?_eq_some_iff.1 hchar).1
  obtain ⟨fuel, rfl⟩ := Nat.exists_eq_succ_of_ne_zero (show fuel ≠ 0 by omega)
  rw [hrun, lookupLoop, if_neg (hchar.symm ▸ Option.some_ne_none slash),
    nametoolong_step hchar hlong]
  rfl

theorem nameLenAsserted_of_le {name : Name} (h : name.length ≤ maxNodeNameLength) :
    NameLenAsserted kmalloc name := by
  refine ⟨h, fun {s s' parent inode entry} hcreate => ?_⟩
  obtain ⟨_, -, hcreate⟩ := exists_of_bind_eq_ok hcreate
  obtain ⟨_, -, hcreate⟩ := exists_of_bind_eq_ok hcreate
  obtain ⟨rfl, rfl⟩ := Prod.mk.inj (Except.ok.inj hcreate)
  simp only [Function.update_self]
  exact h

/-- The limits of the buffer, of `fetch_path_section` and of the cache agree along a lookup
exactly if it comes to no name of 256 characters. -/
theorem limitsKept_iff (hslash : path.chars[0]? = some slash) :
    LimitsKept kmalloc fs path s₀ ↔
      ∀ s cur offset, Reached kmalloc fs path s₀ s cur offset →
        (componentAt path offset).length ≠ maxNodeNameLength + 1 := by
  constructor
  · intro h s cur offset hreach hlen
    obtain ⟨hchar, -⟩ := lookupLoop_of_reached hslash hreach
    -- one more than the limit is let through, and its NUL lands behind the buffer
    apply h.inside hreach
    rw [fetchPathSection_eq hchar, if_neg (by omega), if_pos (by omega)]
  · intro h
    refine ⟨fun {s cur offset} hreach hlong => ?_, fun {s cur offset} hreach => ?_,
      fun {s cur offset name} hreach hfetch => ?_⟩
    · exact nametoolong_of_reached hslash hreach
        (lt_of_le_of_ne hlong (h s cur offset hreach).symm)
    · have hne := h s cur offset hreach
      rw [fetchPathSection_eq (lookupLoop_of_reached hslash hreach).1]
      split_ifs
      · exact nofun
      · omega
      · exact nofun
    · apply nameLenAsserted_of_le
      rw [fetchPathSection_eq (lookupLoop_of_reached hslash hreach).1] at hfetch
      split_ifs at hfetch with htoo hlong
      · cases hfetch
      · obtain rfl := Option.some.inj (Except.ok.inj hfetch)
        exact Nat.not_lt.1 hlong

end Reached

/-- A `/` and characters `a`. -/
def pathOf (n : Nat) : CString where
  chars := slash :: List.replicate n 97
  noNul := by
    simp only [List.mem_cons, List.mem_replicate, not_or]
    exact ⟨by decide, fun h => absurd h.2 (by decide)⟩

theorem componentAt_pathOf (n : Nat) : componentAt (pathOf n) 0 = List.replicate n 97 := by
  apply List.takeWhile_eq_self_iff.2
  intro c hc
  rw [show c = 97 from List.eq_of_mem_replicate hc]
  rfl

/-- A name of 300 characters is refused. -/
theorem longName_refused : ∃ s, initRootBdev smallKmalloc smallFs = .ok s ∧
    LimitsKept smallKmalloc smallFs (pathOf 300) s := by
  have hok : (initRootBdev smallKmalloc smallFs).isOk = true := by decide +kernel
  cases hs : initRootBdev smallKmalloc smallFs with
  | error e =>
    rw [hs] at hok
    cases hok
  | ok s =>
    refine ⟨s, rfl, (limitsKept_iff rfl).2 fun s' cur offset hreach => ?_⟩
    have hlen : (componentAt (pathOf 300) 0).length = 300 := by
      rw [componentAt_pathOf, List.length_replicate]
    -- the lookup never gets past the first name
    have hfirst : offset = 0 := by
      induction hreach with
      | start _ => rfl
      | next _ hstep _ _ ih =>
        rw [ih, nametoolong_step rfl (by rw [hlen]; decide)] at hstep
        cases hstep
    rw [hfirst, hlen]
    decide

/-- A name of 256 characters is written past the buffer. -/
theorem fullName_outside :
    lookups smallKmalloc smallFs [some (pathOf 256)] = .error .outOfBounds := by
  decide +kernel

end X86Kernel.Vfs
