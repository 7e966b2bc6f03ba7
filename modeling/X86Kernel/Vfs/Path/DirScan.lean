import Mathlib.Logic.Relation
import X86Kernel.Vfs.Path

/- The loop of `ext2_vfs_lookup` over the bytes of a directory (`Ext2/features.c`).

   A record is found by adding `rec_len` of the one before, and nothing is asked of
   it but that it starts inside. `scanDir` is the loop with a check at every byte
   that it examines; where it returns, it returns what the loop of the model of
   lookups does (`searchDir_of_scanDir`). What is proved: exactly the contents on
   which it returns (`lookupScan_returns_iff`). A `rec_len` of 0 is one on which it
   does not. -/
namespace X86Kernel.Vfs
open X86Kernel.Ext2 (toI32)

/-- A byte of the directory. -/
def byteAt (dirData : List UInt8) (i : Nat) : Kernel UInt8 :=
  match dirData[i]? with
  | none => .error .outOfBounds
  | some b => .ok b

/-- `memcmp(disk_entry->name, child_str, name_len) == 0`, where the name of the record has the
length of `child_str`: bytes are compared up to the first difference. -/
def sameName (dirData : List UInt8) : (start : Nat) → Name → Kernel Bool
  | _, [] => .ok true
  | start, c :: childStr => do
    let b ← byteAt dirData start
    if b = c then sameName dirData (start + 1) childStr else return false

/-- The test of a record: the lengths first, then the names. -/
def matchesAt (dirData : List UInt8) (childStr : Name) (cur : Nat) : Kernel Bool := do
  let nameLen ← byteAt dirData (cur + 6)
  if childStr.length = nameLen.toNat then sameName dirData (cur + 8) childStr else return false

/-- `disk_entry->inode` -/
def inodeAt (dirData : List UInt8) (cur : Nat) : Kernel InodeNum := do
  let b0 ← byteAt dirData cur
  let b1 ← byteAt dirData (cur + 1)
  let b2 ← byteAt dirData (cur + 2)
  let b3 ← byteAt dirData (cur + 3)
  return BitVec.ofNat 32
    (b0.toNat + 256 * b1.toNat + 65536 * b2.toNat + 16777216 * b3.toNat)

/-- `disk_entry->rec_len` -/
def recLenAt (dirData : List UInt8) (cur : Nat) : Kernel Nat := do
  let b0 ← byteAt dirData (cur + 4)
  let b1 ← byteAt dirData (cur + 5)
  return b0.toNat + 256 * b1.toNat

/-- The loop, from `cur` on. -/
def scanDir (dirData : List UInt8) (childStr : Name) : Nat → Nat → Kernel (Option InodeNum)
  | 0, _ => .error .diverges
  | fuel + 1, cur =>
    if cur < dirData.length then do
      let found ← matchesAt dirData childStr cur
      if found then
        let inodeNum ← inodeAt dirData cur
        return some inodeNum
      else
        let recLen ← recLenAt dirData cur
        scanDir dirData childStr fuel (u32 (cur + recLen))
    else return none

/-- `ext2_vfs_lookup` from the read on, which has filled `dir_data` and returns its size. -/
def lookupScan (dirData : List UInt8) (childStr : Name) (fuel : Nat) :
    Kernel (Except Int InodeNum) :=
  let res := toI32 dirData.length
  if res < 0 then return .error res
  else do
    let found ← scanDir dirData childStr fuel 0
    match found with
    | none => return .error (-vfsErrNoent)
    | some inodeNum => return .ok inodeNum

/-! ## The records that are reached -/

/-- `inode` of the record at `cur`. -/
def recordInode (dirData : List UInt8) (cur : Nat) : InodeNum :=
  BitVec.ofNat 32
    ((dirData.getD cur 0).toNat + 256 * (dirData.getD (cur + 1) 0).toNat +
      65536 * (dirData.getD (cur + 2) 0).toNat + 16777216 * (dirData.getD (cur + 3) 0).toNat)

/-- `rec_len` of the record at `cur`. -/
def recordLen (dirData : List UInt8) (cur : Nat) : Nat :=
  (dirData.getD (cur + 4) 0).toNat + 256 * (dirData.getD (cur + 5) 0).toNat

/-- `name_len` of the record at `cur`. -/
def recordNameLen (dirData : List UInt8) (cur : Nat) : Nat := (dirData.getD (cur + 6) 0).toNat

/-- The record at `cur` has the name. -/
def Named (dirData : List UInt8) (childStr : Name) (cur : Nat) : Prop :=
  childStr.length = recordNameLen dirData cur ∧ childStr <+: dirData.drop (cur + 8)

instance (dirData : List UInt8) (childStr : Name) (cur : Nat) :
    Decidable (Named dirData childStr cur) :=
  inferInstanceAs (Decidable (_ ∧ _))

/-- The loop goes on from a record to the one that `rec_len` names. -/
def NextRecord (dirData : List UInt8) (childStr : Name) (cur next : Nat) : Prop :=
  cur < dirData.length ∧ ¬ Named dirData childStr cur ∧ next = u32 (cur + recordLen dirData cur)

/-- A record that can be examined: the fields up to `name_len` are inside; a name of the right
length is inside, or differs before the end of the directory; a record with another name takes
at least a byte. -/
structure Examinable (dirData : List UInt8) (childStr : Name) (cur : Nat) : Prop where
  header : cur + 7 ≤ dirData.length
  name : childStr.length = recordNameLen dirData cur → dirData.drop (cur + 8) <+: childStr →
    childStr <+: dirData.drop (cur + 8)
  progress : ¬ Named dirData childStr cur → recordLen dirData cur ≠ 0

section Scan

variable {dirData : List UInt8} {childStr : Name} {cur fuel : Nat}

theorem byteAt_of_lt {i : Nat} (h : i < dirData.length) :
    byteAt dirData i = .ok (dirData.getD i 0) := by
  rw [byteAt, List.getElem?_eq_getElem h, List.getD_eq_getElem _ _ h]

theorem byteAt_of_le {i : Nat} (h : dirData.length ≤ i) :
    byteAt dirData i = .error .outOfBounds := by
  rw [byteAt, List.getElem?_eq_none h]

theorem lt_of_byteAt {i : Nat} {b : UInt8} (h : byteAt dirData i = .ok b) :
    i < dirData.length := by
  by_contra hle
  rw [byteAt_of_le (Nat.not_lt.1 hle)] at h
  cases h

/-- The comparison of the names. It leaves the directory where that ends inside the name and
is equal up to there. -/
theorem sameName_eq : ∀ (childStr : Name) (start : Nat),
    sameName dirData start childStr =
      if childStr <+: dirData.drop start then .ok true
      else if dirData.drop start <+: childStr then .error .outOfBounds else .ok false
  | [], start => by rw [if_pos List.nil_prefix, sameName]
  | c :: childStr, start => by
    rw [sameName]
    by_cases hin : start < dirData.length
    · rw [byteAt_of_lt hin, ok_bind, List.drop_eq_getElem_cons hin, List.getD_eq_getElem _ _ hin]
      by_cases hc : dirData[start] = c
      · rw [if_pos hc, sameName_eq childStr (start + 1), hc]
        simp only [List.cons_prefix_cons, true_and]
      · rw [if_neg hc]
        simp only [List.cons_prefix_cons, hc, Ne.symm hc, false_and, if_false]
        rfl
    · rw [byteAt_of_le (Nat.not_lt.1 hin), List.drop_eq_nil_of_le (Nat.not_lt.1 hin)]
      rfl

theorem matchesAt_eq (hheader : cur + 7 ≤ dirData.length) :
    matchesAt dirData childStr cur =
      if childStr.length = recordNameLen dirData cur then sameName dirData (cur + 8) childStr
      else .ok false := by
  rw [matchesAt, byteAt_of_lt (by omega), ok_bind]
  rfl

theorem Examinable.matchesAt (h : Examinable dirData childStr cur) :
    Vfs.matchesAt dirData childStr cur = .ok (decide (Named dirData childStr cur)) := by
  rw [matchesAt_eq h.header]
  by_cases hlen : childStr.length = recordNameLen dirData cur
  · rw [if_pos hlen, sameName_eq]
    by_cases hpre : childStr <+: dirData.drop (cur + 8)
    · rw [if_pos hpre, decide_eq_true ⟨hlen, hpre⟩]
    · rw [if_neg hpre, if_neg (mt (h.name hlen) hpre), decide_eq_false fun hnamed => hpre hnamed.2]
  · rw [if_neg hlen, decide_eq_false fun hnamed => hlen hnamed.1]

theorem of_matchesAt {found : Bool} (h : matchesAt dirData childStr cur = .ok found) :
    cur + 7 ≤ dirData.length ∧ found = decide (Named dirData childStr cur) ∧
      (childStr.length = recordNameLen dirData cur → dirData.drop (cur + 8) <+: childStr →
        childStr <+: dirData.drop (cur + 8)) := by
  have hheader : cur + 7 ≤ dirData.length := by
    obtain ⟨b, hb, -⟩ := exists_of_bind_eq_ok h
    exact lt_of_byteAt hb
  have hname : childStr.length = recordNameLen dirData cur → dirData.drop (cur + 8) <+: childStr →
      childStr <+: dirData.drop (cur + 8) := by
    intro hlen hshort
    -- otherwise the name goes on past the end, and the test would have read there
    by_contra hpre
    rw [matchesAt_eq hheader, if_pos hlen, sameName_eq, if_neg hpre, if_pos hshort] at h
    cases h
  refine ⟨hheader, ?_, hname⟩
  rw [matchesAt_eq hheader] at h
  by_cases hlen : childStr.length = recordNameLen dirData cur
  · rw [if_pos hlen, sameName_eq] at h
    by_cases hpre : childStr <+: dirData.drop (cur + 8)
    · rw [if_pos hpre] at h
      rw [decide_eq_true ⟨hlen, hpre⟩, Except.ok.inj h]
    · rw [if_neg hpre, if_neg (mt (hname hlen) hpre)] at h
      rw [decide_eq_false fun hnamed : Named dirData childStr cur => hpre hnamed.2,
        Except.ok.inj h]
  · rw [if_neg hlen] at h
    rw [decide_eq_false fun hnamed : Named dirData childStr cur => hlen hnamed.1, Except.ok.inj h]

theorem inodeAt_eq (hheader : cur + 7 ≤ dirData.length) :
    inodeAt dirData cur = .ok (recordInode dirData cur) := by
  rw [inodeAt, byteAt_of_lt (by omega), byteAt_of_lt (by omega), byteAt_of_lt (by omega),
    byteAt_of_lt (by omega)]
  rfl

theorem recLenAt_eq (hheader : cur + 7 ≤ dirData.length) :
    recLenAt dirData cur = .ok (recordLen dirData cur) := by
  rw [recLenAt, byteAt_of_lt (by omega), byteAt_of_lt (by omega)]
  rfl

theorem scanDir_succ {found : Bool} (hin : cur < dirData.length)
    (hmatch : matchesAt dirData childStr cur = .ok found) :
    scanDir dirData childStr (fuel + 1) cur =
      if found then .ok (some (recordInode dirData cur))
      else scanDir dirData childStr fuel (u32 (cur + recordLen dirData cur)) := by
  obtain ⟨hheader, -, -⟩ := of_matchesAt hmatch
  rw [scanDir, if_pos hin, hmatch, ok_bind, inodeAt_eq hheader, recLenAt_eq hheader]
  rfl

theorem matchesAt_of_scanDir {r : Option InodeNum} (hin : cur < dirData.length)
    (h : scanDir dirData childStr (fuel + 1) cur = .ok r) :
    ∃ found, matchesAt dirData childStr cur = .ok found := by
  rw [scanDir, if_pos hin] at h
  obtain ⟨found, hmatch, -⟩ := exists_of_bind_eq_ok h
  exact ⟨found, hmatch⟩

theorem scanDir_end (hend : dirData.length ≤ cur) :
    scanDir dirData childStr (fuel + 1) cur = .ok none := by
  rw [scanDir, if_neg (Nat.not_lt.2 hend)]
  rfl

theorem scanDir_le : ∀ {fuel fuel' cur : Nat} {r : Option InodeNum},
    scanDir dirData childStr fuel cur = .ok r → fuel ≤ fuel' →
    scanDir dirData childStr fuel' cur = .ok r := by
  intro fuel
  induction fuel with
  | zero =>
    intro fuel' cur r h _
    cases h
  | succ fuel ih =>
    intro fuel' cur r h hle
    obtain ⟨fuel', rfl⟩ := Nat.exists_eq_succ_of_ne_zero (Nat.ne_zero_of_lt hle)
    by_cases hin : cur < dirData.length
    · obtain ⟨found, hmatch⟩ := matchesAt_of_scanDir hin h
      rw [scanDir_succ hin hmatch] at h ⊢
      cases found with
      | true => exact h
      | false => exact ih h (Nat.le_of_succ_le_succ hle)
    · rw [scanDir_end (Nat.not_lt.1 hin)] at h ⊢
      exact h

theorem recordLen_lt (dirData : List UInt8) (cur : Nat) : recordLen dirData cur < 2 ^ 16 := by
  have h0 := (dirData.getD (cur + 4) 0).toNat_lt
  have h1 := (dirData.getD (cur + 5) 0).toNat_lt
  unfold recordLen
  omega

/-! ## When the loop returns -/

/-- A record of no length that is not the one is examined again and again. -/
theorem scanDir_stuck (hsmall : dirData.length < 2 ^ 32) (hin : cur < dirData.length)
    (hmatch : matchesAt dirData childStr cur = .ok false) (hzero : recordLen dirData cur = 0) :
    ∀ fuel, scanDir dirData childStr fuel cur = .error .diverges := by
  intro fuel
  induction fuel with
  | zero => rfl
  | succ fuel ih =>
    have hsame : u32 (cur + recordLen dirData cur) = cur := by
      rw [hzero, Nat.add_zero]
      exact u32_of_lt (lt_trans hin hsmall)
    rw [scanDir_succ hin hmatch, hsame]
    exact ih

theorem examinable_of_scanDir (hsmall : dirData.length < 2 ^ 32) : ∀ {fuel cur : Nat}
    {r : Option InodeNum}, scanDir dirData childStr fuel cur = .ok r →
    ∀ c, Relation.ReflTransGen (NextRecord dirData childStr) cur c → c < dirData.length →
      Examinable dirData childStr c := by
  intro fuel
  induction fuel with
  | zero =>
    intro cur r h
    cases h
  | succ fuel ih =>
    intro cur r h c hreach hc
    have hin : cur < dirData.length := by
      rcases hreach.cases_head with rfl | ⟨next, hstep, -⟩
      · exact hc
      · exact hstep.1
    obtain ⟨found, hmatch⟩ := matchesAt_of_scanDir hin h
    obtain ⟨hheader, hfound, hname⟩ := of_matchesAt hmatch
    rcases hreach.cases_head with rfl | ⟨next, ⟨-, hnot, rfl⟩, hrest⟩
    · -- a record of no length would keep the loop here
      refine ⟨hheader, hname, fun hnot hzero => ?_⟩
      rw [decide_eq_false hnot] at hfound
      rw [scanDir_stuck hsmall hin (hfound ▸ hmatch) hzero] at h
      cases h
    · rw [decide_eq_false hnot] at hfound
      rw [scanDir_succ hin (hfound ▸ hmatch)] at h
      exact ih h c hrest hc

/-- Where every record that is reached can be examined, the loop returns: it moves on to the
end. -/
theorem scanDir_returns (hsmall : dirData.length < 2 ^ 31) : ∀ (left cur : Nat),
    dirData.length ≤ cur + left →
    (∀ c, Relation.ReflTransGen (NextRecord dirData childStr) cur c → c < dirData.length →
      Examinable dirData childStr c) →
    ∃ r, scanDir dirData childStr (left + 1) cur = .ok r := by
  intro left
  -- on the bytes that are left: every record that is passed takes one of them at least
  induction left with
  | zero =>
    intro cur hend _
    exact ⟨none, scanDir_end hend⟩
  | succ left ih =>
    intro cur hleft hall
    by_cases hin : cur < dirData.length
    · have hexam := hall cur .refl hin
      rw [scanDir_succ hin hexam.matchesAt]
      by_cases hnamed : Named dirData childStr cur
      · exact ⟨_, by rw [decide_eq_true hnamed]; rfl⟩
      · have hstep := hexam.progress hnamed
        have hlt := recordLen_lt dirData cur
        have hnext : u32 (cur + recordLen dirData cur) = cur + recordLen dirData cur :=
          u32_of_lt (by omega)
        obtain ⟨r, hr⟩ := ih (u32 (cur + recordLen dirData cur)) (by omega)
          fun c hreach => hall c (hreach.head ⟨hin, hnamed, rfl⟩)
        exact ⟨r, by rw [decide_eq_false hnamed]; exact hr⟩
    · exact ⟨none, scanDir_end (Nat.not_lt.1 hin)⟩

theorem toI32_neg_iff {n : Nat} (h : n < 2 ^ 32) : toI32 n < 0 ↔ 2 ^ 31 ≤ n := by
  unfold toI32
  split_ifs <;> omega

theorem lookupScan_of_le (hsize : dirData.length < 2 ^ 32) (hlarge : 2 ^ 31 ≤ dirData.length) :
    lookupScan dirData childStr fuel = .ok (.error (toI32 dirData.length)) := by
  rw [lookupScan, if_pos ((toI32_neg_iff hsize).2 hlarge)]
  rfl

theorem lookupScan_of_lt (hsmall : dirData.length < 2 ^ 31) :
    lookupScan dirData childStr fuel =
      (scanDir dirData childStr fuel 0).map (Option.elim · (.error (-vfsErrNoent)) .ok) := by
  rw [lookupScan, if_neg (mt (toI32_neg_iff (by omega)).1 (Nat.not_le.2 hsmall))]
  cases scanDir dirData childStr fuel 0 with
  | error e => rfl
  | ok found => cases found <;> rfl

/-- The loop ends and stays inside the directory exactly if that has 2^31 bytes or more, for
then it is refused before, or every record that is reached can be examined. -/
theorem lookupScan_returns_iff (childStr : Name) (hsize : dirData.length < 2 ^ 32) :
    (∃ fuel r, lookupScan dirData childStr fuel = .ok r) ↔
      2 ^ 31 ≤ dirData.length ∨
      ∀ cur, Relation.ReflTransGen (NextRecord dirData childStr) 0 cur → cur < dirData.length →
        Examinable dirData childStr cur := by
  by_cases hlarge : 2 ^ 31 ≤ dirData.length
  · exact iff_of_true ⟨0, _, lookupScan_of_le hsize hlarge⟩ (.inl hlarge)
  · have hsmall := Nat.not_le.1 hlarge
    constructor
    · rintro ⟨fuel, r, h⟩
      rw [lookupScan_of_lt hsmall] at h
      cases hscan : scanDir dirData childStr fuel 0 with
      | error e =>
        rw [hscan] at h
        cases h
      | ok found => exact .inr (examinable_of_scanDir hsize hscan)
    · intro h
      obtain ⟨found, hscan⟩ := scanDir_returns hsmall dirData.length 0 (by omega)
        (h.resolve_left hlarge)
      refine ⟨dirData.length + 1, found.elim (.error (-vfsErrNoent)) .ok, ?_⟩
      rw [lookupScan_of_lt hsmall, hscan]
      rfl

/-! ## The loop of the model of lookups -/

theorem prefix_of_name {buf : Ext2.Buffer} (hbuf : ∀ i < dirData.length, buf i = dirData.getD i 0)
    (hname : (List.range childStr.length).map (fun i => buf (cur + 8 + i)) = childStr) :
    childStr <+: dirData.drop (cur + 8) ∨ dirData.drop (cur + 8) <+: childStr := by
  have hbyte : ∀ i (hi : i < childStr.length) (hin : cur + 8 + i < dirData.length),
      childStr[i] = dirData[cur + 8 + i] := by
    intro i hi hin
    have h := hbuf _ hin
    rw [List.getD_eq_getElem _ _ hin] at h
    rw [← h, ← List.getElem_of_eq hname (by simpa using hi), List.getElem_map,
      List.getElem_range]
  rcases Nat.le_total childStr.length (dirData.drop (cur + 8)).length with hle | hle
  · left
    rw [List.prefix_iff_eq_take]
    apply List.ext_getElem (by simpa using hle)
    intro i hi _
    rw [List.length_drop] at hle
    rw [List.getElem_take, List.getElem_drop]
    exact hbyte i hi (by omega)
  · right
    rw [List.prefix_iff_eq_take]
    apply List.ext_getElem (by simpa using hle)
    intro i hi _
    rw [List.length_drop] at hi hle
    rw [List.getElem_take, List.getElem_drop]
    exact (hbyte i (by omega) (by omega)).symm

theorem name_eq_iff {buf : Ext2.Buffer} (hbuf : ∀ i < dirData.length, buf i = dirData.getD i 0)
    (hshort : dirData.drop (cur + 8) <+: childStr → childStr <+: dirData.drop (cur + 8)) :
    (List.range childStr.length).map (fun i => buf (cur + 8 + i)) = childStr ↔
      childStr <+: dirData.drop (cur + 8) := by
  constructor
  · intro hname
    exact (prefix_of_name hbuf hname).elim id hshort
  · rintro ⟨rest, hrest⟩
    apply List.ext_getElem (by simp)
    intro i _ hi
    have hin : i < (dirData.drop (cur + 8)).length := by
      rw [← hrest, List.length_append]
      omega
    have hbyte : (dirData.drop (cur + 8))[i] = childStr[i] := by
      rw [← List.getElem_of_eq hrest (by rw [List.length_append]; omega),
        List.getElem_append_left hi]
    rw [List.length_drop] at hin
    rw [List.getElem_map, List.getElem_range, hbuf _ (by omega),
      List.getD_eq_getElem _ _ (by omega), ← hbyte, List.getElem_drop]

theorem searchDir_of_scanDir {buf : Ext2.Buffer}
    (hbuf : ∀ i < dirData.length, buf i = dirData.getD i 0) : ∀ {fuel cur : Nat}
    {r : Option InodeNum}, scanDir dirData childStr fuel cur = .ok r →
    searchDir buf dirData.length childStr fuel cur = .ok r := by
  intro fuel
  induction fuel with
  | zero =>
    intro cur r h
    cases h
  | succ fuel ih =>
    intro cur r h
    rw [searchDir]
    by_cases hin : cur < dirData.length
    · rw [if_pos hin]
      obtain ⟨found, hmatch⟩ := matchesAt_of_scanDir hin h
      obtain ⟨hheader, hfound, hname⟩ := of_matchesAt hmatch
      rw [scanDir_succ hin hmatch, hfound] at h
      have hrecLen : (buf (cur + 4)).toNat + 256 * (buf (cur + 5)).toNat =
          recordLen dirData cur := by
        rw [hbuf _ (by omega), hbuf _ (by omega), recordLen]
      have hinode : BitVec.ofNat 32 (Ext2.deviceU32 buf cur) = recordInode dirData cur := by
        rw [Ext2.deviceU32, hbuf _ (by omega), hbuf _ (by omega), hbuf _ (by omega),
          hbuf _ (by omega), recordInode]
      have hnameLen : (buf (cur + 6)).toNat = recordNameLen dirData cur := by
        rw [hbuf _ (by omega), recordNameLen]
      have hsame : (childStr.length = recordNameLen dirData cur ∧
          memcmp ((List.range (recordNameLen dirData cur)).map fun i => buf (cur + 8 + i)) childStr
            (recordNameLen dirData cur) = 0) ↔ Named dirData childStr cur := by
        refine and_congr_right fun hlen => ?_
        rw [← hlen, ← name_eq_iff hbuf (hname hlen)]
        have h := memcmp_eq_zero ((List.range childStr.length).map fun i => buf (cur + 8 + i))
          childStr (by simp)
        rwa [List.length_map, List.length_range] at h
      dsimp only
      simp only [hrecLen, hinode, hnameLen, hsame]
      by_cases hnamed : Named dirData childStr cur
      · rw [decide_eq_true hnamed] at h
        rw [if_pos hnamed]
        exact h
      · rw [decide_eq_false hnamed] at h
        rw [if_neg hnamed]
        exact ih h
    · rw [if_neg hin]
      rw [scanDir_end (Nat.not_lt.1 hin)] at h
      exact h

end Scan

/-- What `ext2_vfs_lookup` answers in a directory whose bytes are read, if the loop gets through
them. -/
theorem findChild_read {fs : Filesystem} {buf : Ext2.Buffer} {dir : InodeNum}
    {dirData : List UInt8} {childStr : Name} {found : Option InodeNum}
    (hdir : ext2InodeIsType (fs.mode dir) ext2FtDir = true)
    (hsize : (fs.inode dir).size = dirData.length) (hsmall : dirData.length < 2 ^ 31)
    (hread : ∃ data, Ext2.ext2ReadInode fs.dev (fs.inode dir) buf dirData.length 0 =
        .ok ((dirData.length : Int), data) ∧
      ∀ i < dirData.length, data i = dirData.getD i 0)
    (hscan : scanDir dirData childStr (dirData.length + 1) 0 = .ok found) :
    findChild fs buf dir childStr = .ok (found.elim (.error (-vfsErrNoent)) .ok) := by
  obtain ⟨data, hrun, hbytes⟩ := hread
  have hsearch := searchDir_of_scanDir hbytes hscan
  have hassert : assert (decide (dirData.length ≤ 2 ^ 31)) = .ok () := by
    rw [decide_eq_true (le_of_lt hsmall)]
    rfl
  rw [findChild, if_pos hdir, hsize]
  simp only [hassert, ok_bind, hrun, hsearch, if_neg (Int.not_lt.2 (Int.natCast_nonneg _))]
  cases found <;> rfl

/-- Where the directory is read correctly, the answer does not depend on what the block held. -/
theorem findChild_scanned {fs : Filesystem} {dir : InodeNum} {dirData : List UInt8}
    {childStr : Name} {found : Option InodeNum}
    (hdir : ext2InodeIsType (fs.mode dir) ext2FtDir = true)
    (hsize : (fs.inode dir).size = dirData.length) (hsmall : dirData.length < 2 ^ 31)
    (hread : Ext2.ReadsCorrectly fs.dev (fs.inode dir) dirData.length 0)
    (hbytes : ∀ i < dirData.length, Ext2.fileByte fs.dev (fs.inode dir) i = dirData.getD i 0)
    (hscan : scanDir dirData childStr (dirData.length + 1) 0 = .ok found) (buf : Ext2.Buffer) :
    findChild fs buf dir childStr = .ok (found.elim (.error (-vfsErrNoent)) .ok) := by
  refine findChild_read hdir hsize hsmall ?_ hscan
  obtain ⟨data, hrun, hdata⟩ := hread buf
  refine ⟨data, hrun, fun i hi => ?_⟩
  rw [hdata i hi, Nat.zero_add, hbytes i hi]

/-- `a`. -/
def nameA : Name := [97]

/-- Two records: an `a` with the inode 12, after one with the name `.`. -/
def twoRecords : List UInt8 :=
  [2, 0, 0, 0, 12, 0, 1, 2, 46, 0, 0, 0,
   12, 0, 0, 0, 12, 0, 1, 1, 97, 0, 0, 0]

theorem twoRecords_reached {cur : Nat}
    (hreach : Relation.ReflTransGen (NextRecord twoRecords nameA) 0 cur) : cur = 0 ∨ cur = 12 := by
  induction hreach with
  | refl => exact .inl rfl
  | tail _ hstep ih =>
    obtain ⟨-, hnot, rfl⟩ := hstep
    rcases ih with rfl | rfl
    · exact .inr (by decide)
    · exact absurd (by decide) hnot

theorem twoRecords_scanned : ∃ fuel r, lookupScan twoRecords nameA fuel = .ok r := by
  refine (lookupScan_returns_iff nameA (by decide)).2 (.inr fun cur hreach _ => ?_)
  rcases twoRecords_reached hreach with rfl | rfl
  · exact ⟨by decide, by decide, fun _ => by decide⟩
  · exact ⟨by decide, by decide, fun _ => by decide⟩

/-- A directory of zeros is never left, and one that ends in the middle of a record is. -/
theorem zeroRecord_not_scanned :
    (∀ fuel, lookupScan (List.replicate 12 0) nameA fuel = .error .diverges) ∧
      lookupScan (List.replicate 5 0) nameA 1 = .error .outOfBounds := by
  refine ⟨fun fuel => ?_, by decide⟩
  rw [lookupScan_of_lt (by decide), scanDir_stuck (by decide) (by decide) (by rfl) (by decide)]
  rfl

end X86Kernel.Vfs
