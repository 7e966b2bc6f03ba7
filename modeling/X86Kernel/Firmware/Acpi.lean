import X86Kernel.Libk

/- The tables of the firmware: how they are found (`kernel/firmware/acpi/rsdp.c`) and
   searched (`kernel/firmware/acpi/fadt.c`).

   The memory is any image of the 32-bit address space; every address is used modulo 2^32,
   and the 64-bit pointers of an XSDT by their lower halves, as the casts to pointers do.

   What is proved: `gather_rdsp` finds the first structure with a right checksum exactly
   if its second loop, which does not look at the checksum, has no occasion to
   (`gatherRdsp_first_iff`); and the search for the FADT stays inside the root table
   exactly if there is one in it (`findFadt_inside_iff`), for the count of the pointers is
   made with the size of a field in place of that of the header.

   Correspondence (C ↔ Lean):
     `strncmp`              ↔ `strncmp`
     `find_fadt_by_rsdt`    ↔ `findFadtByRsdt`
     `find_fadt_by_xsdt`    ↔ `findFadtByXsdt` (the same text: `findFadt`)
     `valid_rsdp_checksum`  ↔ `validRsdpChecksum`
     `gather_rdsp`          ↔ `gatherRdsp` -/
namespace X86Kernel.Acpi

/-- The memory, by address. -/
abbrev Memory := Nat → UInt8

def Memory.byte (mem : Memory) (addr : Nat) : UInt8 := mem (u32 addr)

/-- Little endian, `n` bytes. -/
def Memory.load (mem : Memory) (addr : Nat) : Nat → Nat
  | 0 => 0
  | n + 1 => (mem.byte addr).toNat + 256 * mem.load (addr + 1) n

/-- `strncmp`; `n` characters from position `i` on are left. -/
def strncmpFrom (s1 s2 : Nat → UInt8) : Nat → Nat → Int
  | 0, _ => 0
  | n + 1, i =>
    if s1 i ≠ 0 ∧ s2 i ≠ 0 then
      if s1 i ≠ s2 i then (s1 i).toNat - (s2 i).toNat else strncmpFrom s1 s2 n (i + 1)
    else (s1 i).toNat - (s2 i).toNat

def strncmp (s1 s2 : Nat → UInt8) (n : Nat) : Int := strncmpFrom s1 s2 n 0

theorem sub_eq_zero_iff (a b : UInt8) : (a.toNat : Int) - b.toNat = 0 ↔ a = b := by
  rw [← UInt8.toNat_inj]
  omega

theorem strncmpFrom_eq_zero {s1 s2 : Nat → UInt8} : ∀ {n i : Nat},
    (∀ j, i ≤ j → j < i + n → s2 j ≠ 0) →
    (strncmpFrom s1 s2 n i = 0 ↔ ∀ j, i ≤ j → j < i + n → s1 j = s2 j) := by
  intro n
  induction n with
  | zero =>
    intro i _
    refine iff_of_true rfl fun j hlo hhi => ?_
    omega
  | succ n ih =>
    intro i hchars
    have hchar : s2 i ≠ 0 := hchars i (Nat.le_refl i) (by omega)
    rw [strncmpFrom]
    by_cases heq : s1 i = s2 i
    · have hboth : s1 i ≠ 0 ∧ s2 i ≠ 0 := ⟨heq ▸ hchar, hchar⟩
      rw [if_pos hboth, if_neg (not_not.2 heq),
        ih fun j hlo hhi => hchars j (by omega) (by omega)]
      constructor
      · intro h j hlo hhi
        rcases Nat.eq_or_lt_of_le hlo with rfl | hlt
        · exact heq
        · exact h j hlt (by omega)
      · intro h j hlo hhi
        exact h j (by omega) (by omega)
    · have hdiff : ((s1 i).toNat : Int) - (s2 i).toNat ≠ 0 := mt (sub_eq_zero_iff _ _).1 heq
      refine iff_of_false ?_ fun h => heq (h i (Nat.le_refl i) (by omega))
      rw [if_pos (show s1 i ≠ s2 i from heq)]
      split_ifs <;> exact hdiff

/-! ## The FADT -/

/-- `FADT_SIGNATURE`, with its NUL. -/
def fadtSignature (i : Nat) : UInt8 := ([70, 65, 67, 80] : List UInt8).getD i 0

/-- `FADT_SIGNATURE_LEN` -/
def fadtSignatureLen : Nat := 4

/-- `sizeof(acpi_sdt_header_t)`, where `pointer_sdts` begins. -/
def sdtHeaderSize : Nat := 36

/-- `header.length` of a table. -/
def headerLength (mem : Memory) (table : Nat) : Nat := mem.load (table + 4) 4

/-- `pointer_sdts[i]`, of `width` bytes, as a pointer. -/
def pointerSdt (mem : Memory) (width table i : Nat) : Nat :=
  u32 (mem.load (table + sdtHeaderSize + width * i) width)

/-- What a search returns (0 is NULL), and the pointers it looked at. -/
structure Search where
  examined : List Nat
  found : Nat
  deriving DecidableEq, Repr

/-- The loop over the pointers; `n` of them are left. -/
def findFadtFrom (mem : Memory) (width table : Nat) : Nat → Nat → Search
  | 0, _ => ⟨[], 0⟩
  | n + 1, i =>
    let h := pointerSdt mem width table i
    if strncmp (fun j => mem.byte (h + j)) fadtSignature fadtSignatureLen = 0 then ⟨[i], h⟩
    else
      let rest := findFadtFrom mem width table n (i + 1)
      ⟨i :: rest.examined, rest.found⟩

/-- The text of both functions; `sizeof(rsdt->header.length)` is 4. -/
def findFadt (mem : Memory) (width table : Nat) : Search :=
  findFadtFrom mem width table (sub32 (headerLength mem table) 4 / width) 0

def findFadtByRsdt (mem : Memory) (rsdt : Nat) : Search := findFadt mem 4 rsdt

def findFadtByXsdt (mem : Memory) (rsdt : Nat) : Search := findFadt mem 8 rsdt

/-- How many pointers the table contains. -/
def entryCount (mem : Memory) (width table : Nat) : Nat :=
  (headerLength mem table - sdtHeaderSize) / width

/-- The table at the address is an FADT. -/
def IsFadt (mem : Memory) (addr : Nat) : Prop :=
  ∀ i < fadtSignatureLen, mem.byte (addr + i) = fadtSignature i

instance (mem : Memory) (addr : Nat) : Decidable (IsFadt mem addr) :=
  inferInstanceAs (Decidable (∀ i < fadtSignatureLen, _))

/-- Pointer `i` is the first of the table that leads to an FADT. -/
def FirstFadt (mem : Memory) (width table i : Nat) : Prop :=
  i < entryCount mem width table ∧ IsFadt mem (pointerSdt mem width table i) ∧
    ∀ j < i, ¬ IsFadt mem (pointerSdt mem width table j)

/-- A search that looks at pointers of the table only, returns the first one that leads to an
FADT, and NULL exactly if there is none. -/
structure SearchesTable (mem : Memory) (width table : Nat) (r : Search) : Prop where
  inside : ∀ i ∈ r.examined, i < entryCount mem width table
  first : ∀ i, FirstFadt mem width table i → r.found = pointerSdt mem width table i
  null : r.found = 0 ↔
    ∀ i < entryCount mem width table, ¬ IsFadt mem (pointerSdt mem width table i)

theorem load_lt (mem : Memory) : ∀ (n addr : Nat), mem.load addr n < 256 ^ n
  | 0, _ => Nat.one_pos
  | n + 1, addr => by
    have hrest := load_lt mem n (addr + 1)
    have hbyte := (mem.byte addr).toNat_lt
    rw [Memory.load, pow_succ]
    omega

theorem strncmp_fadtSignature (mem : Memory) (addr : Nat) :
    strncmp (fun j => mem.byte (addr + j)) fadtSignature fadtSignatureLen = 0 ↔
      IsFadt mem addr := by
  have hchars : ∀ j, 0 ≤ j → j < 0 + fadtSignatureLen → fadtSignature j ≠ 0 := by decide
  rw [strncmp, strncmpFrom_eq_zero hchars, Nat.zero_add]
  exact ⟨fun h i hi => h i (Nat.zero_le i) hi, fun h i _ hi => h i hi⟩

section Fadt

variable {mem : Memory} {width table : Nat}

/-- The loop stops at the first FADT, which is returned, or looks at everything. -/
theorem findFadtFrom_cases : ∀ (n i : Nat),
    (∃ k, i ≤ k ∧ k < i + n ∧ findFadtFrom mem width table n i =
        ⟨List.range' i (k + 1 - i), pointerSdt mem width table k⟩ ∧
      IsFadt mem (pointerSdt mem width table k) ∧
      ∀ j, i ≤ j → j < k → ¬ IsFadt mem (pointerSdt mem width table j)) ∨
    (findFadtFrom mem width table n i = ⟨List.range' i n, 0⟩ ∧
      ∀ j, i ≤ j → j < i + n → ¬ IsFadt mem (pointerSdt mem width table j)) := by
  intro n
  induction n with
  | zero =>
    intro i
    refine .inr ⟨rfl, fun j hlo hhi => ?_⟩
    omega
  | succ n ih =>
    intro i
    rw [findFadtFrom]
    simp only [strncmp_fadtSignature]
    by_cases hfadt : IsFadt mem (pointerSdt mem width table i)
    · refine .inl ⟨i, Nat.le_refl i, by omega, ?_, hfadt, fun j hlo hhi => ?_⟩
      · rw [if_pos hfadt, Nat.add_sub_cancel_left]
        rfl
      · omega
    · rw [if_neg hfadt]
      have hnext : ∀ {j}, i ≤ j → (i + 1 ≤ j → ¬ IsFadt mem (pointerSdt mem width table j)) →
          ¬ IsFadt mem (pointerSdt mem width table j) := by
        intro j hlo h
        rcases Nat.eq_or_lt_of_le hlo with rfl | hlt
        · exact hfadt
        · exact h hlt
      rcases ih (i + 1) with ⟨k, hlo, hhi, hrun, hthere, hbefore⟩ | ⟨hrun, hnone⟩
      · refine .inl ⟨k, by omega, by omega, ?_, hthere, fun j hj hk => ?_⟩
        · rw [hrun, show k + 1 - i = k + 1 - (i + 1) + 1 by omega, List.range'_succ]
        · exact hnext hj fun hj => hbefore j hj hk
      · refine .inr ⟨?_, fun j hj hn => hnext hj fun hj => hnone j hj (by omega)⟩
        rw [hrun, List.range'_succ]

/-- The words after the table that are taken for pointers: the header without its length. -/
theorem entries_eq (hwidth : width = 4 ∨ width = 8) (hlength : 36 ≤ headerLength mem table) :
    sub32 (headerLength mem table) 4 / width = entryCount mem width table + 32 / width := by
  have hlt : headerLength mem table < 2 ^ 32 := load_lt mem 4 (table + 4)
  rw [sub32_of_le hlt (by omega), entryCount, sdtHeaderSize]
  rcases hwidth with rfl | rfl
  · omega
  · omega

/-- The search is right exactly if the table has an FADT, and the first one is not at the
address that is NULL. -/
theorem searchesTable_iff (hwidth : width = 4 ∨ width = 8)
    (hlength : 36 ≤ headerLength mem table) :
    SearchesTable mem width table (findFadt mem width table) ↔
      ∃ i, FirstFadt mem width table i ∧ pointerSdt mem width table i ≠ 0 := by
  have hmore : 0 < 32 / width := by
    rcases hwidth with rfl | rfl
    · decide
    · decide
  rw [findFadt, entries_eq hwidth hlength]
  constructor
  · intro h
    rcases @findFadtFrom_cases mem width table
      (entryCount mem width table + 32 / width) 0 with ⟨k, -, -, hrun, hthere, hbefore⟩ | ⟨hrun, -⟩
    · rw [hrun] at h
      have hk := h.inside k (List.mem_range'_1.2 ⟨Nat.zero_le k, by omega⟩)
      refine ⟨k, ⟨hk, hthere, fun j hj => hbefore j (Nat.zero_le j) hj⟩, fun hnull => ?_⟩
      exact h.null.1 hnull k hk hthere
    · -- the word after the last pointer is looked at
      rw [hrun] at h
      have hpast := h.inside _ (List.mem_range'_1.2 ⟨Nat.zero_le (entryCount mem width table),
        by omega⟩)
      omega
  · rintro ⟨i, ⟨hi, hfadt, hfirst⟩, hnonnull⟩
    rcases @findFadtFrom_cases mem width table
      (entryCount mem width table + 32 / width) 0 with ⟨k, -, -, hrun, hthere, hbefore⟩ |
      ⟨-, hnone⟩
    · have hsame : ∀ j, FirstFadt mem width table j → j = k := by
        rintro j ⟨-, hj, hjfirst⟩
        rcases Nat.lt_trichotomy j k with hlt | heq | hgt
        · exact absurd hj (hbefore j (Nat.zero_le j) hlt)
        · exact heq
        · exact absurd hthere (hjfirst k hgt)
      obtain rfl := hsame i ⟨hi, hfadt, hfirst⟩
      rw [hrun]
      refine ⟨fun j hj => ?_, fun j hj => ?_, ?_⟩
      · have := (List.mem_range'_1.1 hj).2
        omega
      · rw [hsame j hj]
      · exact iff_of_false hnonnull fun hnone => hnone i hi hfadt
    · exact absurd hfadt (hnone i (Nat.zero_le i) (by omega))

end Fadt

/-- Both searches stay inside their tables, and find what they should, exactly if the table has
an FADT, the first one not at the address that is NULL. -/
theorem findFadt_inside_iff {mem : Memory} {rsdt xsdt : Nat}
    (hrsdt : 36 ≤ headerLength mem rsdt) (hxsdt : 36 ≤ headerLength mem xsdt) :
    (SearchesTable mem 4 rsdt (findFadtByRsdt mem rsdt) ↔
      ∃ i, FirstFadt mem 4 rsdt i ∧ pointerSdt mem 4 rsdt i ≠ 0) ∧
    (SearchesTable mem 8 xsdt (findFadtByXsdt mem xsdt) ↔
      ∃ i, FirstFadt mem 8 xsdt i ∧ pointerSdt mem 8 xsdt i ≠ 0) :=
  ⟨searchesTable_iff (.inl rfl) hrsdt, searchesTable_iff (.inr rfl) hxsdt⟩

/-- A table of this length at 0x1000. The eight bytes after its header are a pointer to an FADT
at 0x2000. -/
def tableMemory (length : UInt8) : Memory := fun a =>
  if a = 0x1004 then length
  else if a = 0x1025 then 0x20
  else if 0x2000 ≤ a ∧ a < 0x2004 then fadtSignature (a - 0x2000)
  else 0

theorem fadt_found :
    (SearchesTable (tableMemory 44) 4 0x1000 (findFadtByRsdt (tableMemory 44) 0x1000) ↔
      ∃ i, FirstFadt (tableMemory 44) 4 0x1000 i ∧ pointerSdt (tableMemory 44) 4 0x1000 i ≠ 0) ∧
    (SearchesTable (tableMemory 44) 8 0x1000 (findFadtByXsdt (tableMemory 44) 0x1000) ↔
      ∃ i, FirstFadt (tableMemory 44) 8 0x1000 i ∧ pointerSdt (tableMemory 44) 8 0x1000 i ≠ 0) ∧
    SearchesTable (tableMemory 44) 8 0x1000 (findFadtByXsdt (tableMemory 44) 0x1000) := by
  have h := findFadt_inside_iff (show 36 ≤ headerLength (tableMemory 44) 0x1000 by decide)
    (show 36 ≤ headerLength (tableMemory 44) 0x1000 by decide)
  exact ⟨h.1, h.2, h.2.2 ⟨0, ⟨by decide, by decide, fun j hj => absurd hj (Nat.not_lt_zero j)⟩,
    by decide⟩⟩

/-- A table without pointers: what follows it is taken for one. -/
theorem stray_fadt_found :
    entryCount (tableMemory 36) 4 0x1000 = 0 ∧
      findFadtByRsdt (tableMemory 36) 0x1000 = ⟨[0], 0x2000⟩ ∧
      ¬ SearchesTable (tableMemory 36) 4 0x1000 (findFadtByRsdt (tableMemory 36) 0x1000) := by
  have hrun : findFadtByRsdt (tableMemory 36) 0x1000 = ⟨[0], 0x2000⟩ := by decide
  refine ⟨by decide, hrun, fun h => ?_⟩
  have hin := h.inside 0 (by rw [hrun]; exact List.mem_singleton_self 0)
  exact absurd hin (by decide)

/-! ## The RSDP -/

/-- `EBDA_MEM` -/
def ebdaMem : Nat := 0x40E

/-- `RDSP_ALIGNMENT` -/
def rdspAlignment : Nat := 16

/-- `RSDP_SIGNATURE` -/
def rsdpSignature : List UInt8 := [82, 83, 68, 32, 80, 84, 82, 32]

/-- The bytes from an address on. -/
def Memory.bytes (mem : Memory) (addr n : Nat) : List UInt8 :=
  (List.range n).map fun i => mem.byte (addr + i)

/-- `for (i = 0; i < n; i++) sum += ((u8*)r)[i];` -/
def byteSum (mem : Memory) (r : Nat) : Nat → UInt8
  | 0 => 0
  | n + 1 => byteSum mem r n + mem.byte (r + n)

/-- `valid_rsdp_checksum`: `revision` is byte 15, and `length` of an XSDP is at 20. -/
def validRsdpChecksum (mem : Memory) (r : Nat) : Bool :=
  if byteSum mem r 20 ≠ 0 then false
  else if mem.byte (r + 15) ≥ 2 then
    if byteSum mem r (mem.load (r + 20) 4) ≠ 0 then false else true
  else true

/-- `memcmp(rsdp->signature, RSDP_SIGNATURE, RSDP_SIGNATURE_LEN) == 0` -/
def hasRsdpSignature (mem : Memory) (r : Nat) : Bool :=
  memcmp (mem.bytes r 8) rsdpSignature 8 = 0

/-- `for (; iterator < bound; iterator += RDSP_ALIGNMENT) if (accept) return iterator;` -/
def searchAligned (accept : Nat → Bool) (bound : Nat) : Nat → Nat → Kernel (Option Nat)
  | 0, _ => .error .diverges
  | fuel + 1, iterator =>
    if iterator < bound then
      if accept iterator then .ok (some iterator)
      else searchAligned accept bound fuel (u32 (iterator + rdspAlignment))
    else .ok none

/-- `gather_rdsp`; 0 is NULL. -/
def gatherRdsp (mem : Memory) : Kernel Nat := do
  let ebdaPtr := u32 (mem.load ebdaMem 2 <<< 4)
  let inEbda ← searchAligned
    (fun i => hasRsdpSignature mem (u32 (ebdaPtr + i)) && validRsdpChecksum mem (u32 (ebdaPtr + i)))
    1024 65 0
  match inEbda with
  | some i => return u32 (ebdaPtr + i)
  | none =>
    let inBios ← searchAligned (hasRsdpSignature mem) 0x100000 8193 0xE0000
    return inBios.getD 0

/-- The start of the EBDA. -/
def ebdaStart (mem : Memory) : Nat := mem.load ebdaMem 2 * 16

/-- The aligned addresses of the first KiB of the EBDA. -/
def ebdaAddresses (mem : Memory) : List Nat := List.range' (ebdaStart mem) 64 16

/-- The aligned addresses of `0xE0000..0xFFFFF`. -/
def biosAddresses : List Nat := List.range' 0xE0000 8192 16

/-- There is a structure with a right checksum at the address. -/
def isRsdp (mem : Memory) (addr : Nat) : Bool :=
  decide (mem.bytes addr 8 = rsdpSignature) && validRsdpChecksum mem addr

/-- What should be found. -/
def firstRsdp (mem : Memory) : Option Nat :=
  (ebdaAddresses mem ++ biosAddresses).find? (isRsdp mem)

theorem hasRsdpSignature_eq (mem : Memory) (r : Nat) :
    hasRsdpSignature mem r = decide (mem.bytes r 8 = rsdpSignature) := by
  have hlength : (mem.bytes r 8).length = 8 := by simp [Memory.bytes]
  have h := memcmp_eq_zero (mem.bytes r 8) rsdpSignature hlength
  rw [hlength] at h
  exact decide_eq_decide.2 h

theorem searchAligned_eq (accept : Nat → Bool) : ∀ (n start fuel : Nat), n < fuel →
    start + 16 * n < 2 ^ 32 →
    searchAligned accept (start + 16 * n) fuel start =
      .ok ((List.range' start n 16).find? accept) := by
  intro n
  induction n with
  | zero =>
    intro start fuel hfuel _
    obtain ⟨fuel, rfl⟩ := Nat.exists_eq_succ_of_ne_zero (Nat.ne_of_gt hfuel)
    rw [searchAligned, if_neg (by omega)]
    rfl
  | succ n ih =>
    intro start fuel hfuel hlt
    obtain ⟨fuel, rfl⟩ := Nat.exists_eq_succ_of_ne_zero (Nat.ne_zero_of_lt hfuel)
    rw [searchAligned, if_pos (by omega), List.range'_succ, List.find?_cons]
    cases accept start with
    | true => rfl
    | false =>
      have hnext : u32 (start + rdspAlignment) = start + 16 :=
        u32_of_lt (show start + 16 < 2 ^ 32 by omega)
      have hbound : start + 16 * (n + 1) = start + 16 + 16 * n := by omega
      rw [hnext, hbound]
      exact ih (start + 16) fuel (Nat.lt_of_succ_lt_succ hfuel) (by omega)

theorem find?_eq_of_mem {p q : Nat → Bool} : ∀ {l : List Nat}, (∀ a ∈ l, p a = q a) →
    l.find? p = l.find? q
  | [], _ => rfl
  | a :: l, h => by
    rw [List.find?_cons, List.find?_cons, h a List.mem_cons_self,
      find?_eq_of_mem fun b hb => h b (List.mem_cons_of_mem a hb)]

theorem ebdaStart_lt (mem : Memory) : ebdaStart mem < 2 ^ 20 := by
  have hload : mem.load ebdaMem 2 < 2 ^ 16 := load_lt mem 2 ebdaMem
  unfold ebdaStart
  omega

theorem searchEbda (mem : Memory) :
    (searchAligned (fun i => hasRsdpSignature mem (u32 (ebdaStart mem + i)) &&
      validRsdpChecksum mem (u32 (ebdaStart mem + i))) 1024 65 0).map
        (Option.map fun i => u32 (ebdaStart mem + i)) =
      .ok ((ebdaAddresses mem).find? (isRsdp mem)) := by
  have hstart := ebdaStart_lt mem
  have hin : ∀ i ∈ List.range' 0 64 16, u32 (ebdaStart mem + i) = ebdaStart mem + i := by
    intro i hi
    obtain ⟨k, hk, rfl⟩ := List.mem_range'.1 hi
    exact u32_of_lt (by omega)
  have haddresses : ebdaAddresses mem = (List.range' 0 64 16).map (ebdaStart mem + ·) :=
    (List.map_add_range' 0 64 16).symm
  rw [searchAligned_eq _ 64 0 65 (by decide) (by decide), haddresses, List.find?_map]
  show Except.ok (Option.map _ _) = Except.ok _
  have hsame : ∀ i ∈ List.range' 0 64 16,
      (hasRsdpSignature mem (u32 (ebdaStart mem + i)) &&
        validRsdpChecksum mem (u32 (ebdaStart mem + i))) =
      (isRsdp mem ∘ (ebdaStart mem + ·)) i := by
    intro i hi
    rw [hin i hi, hasRsdpSignature_eq]
    rfl
  rw [find?_eq_of_mem hsame]
  congr 1
  apply Option.map_congr
  intro i hi
  exact hin i (List.mem_of_find?_eq_some hi)

/-- What `gather_rdsp` finds: in the second area the checksum is not looked at. -/
theorem gatherRdsp_eq (mem : Memory) :
    gatherRdsp mem = .ok ((((ebdaAddresses mem).find? (isRsdp mem)).or
      (biosAddresses.find? (hasRsdpSignature mem))).getD 0) := by
  have hstart := ebdaStart_lt mem
  have hptr : u32 (mem.load ebdaMem 2 <<< 4) = ebdaStart mem := by
    rw [Nat.shiftLeft_eq]
    exact u32_of_lt (lt_trans hstart (by decide))
  have hbios := searchAligned_eq (hasRsdpSignature mem) 8192 0xE0000 8193 (by decide) (by decide)
  have hebda := searchEbda mem
  rw [gatherRdsp, hptr]
  cases hrun : searchAligned (fun i => hasRsdpSignature mem (u32 (ebdaStart mem + i)) &&
    validRsdpChecksum mem (u32 (ebdaStart mem + i))) 1024 65 0 with
  | error e =>
    rw [hrun] at hebda
    cases hebda
  | ok inEbda =>
    rw [hrun] at hebda
    rw [← Except.ok.inj hebda, ok_bind]
    cases inEbda with
    | some i => rfl
    | none =>
      rw [show (0x100000 : Nat) = 0xE0000 + 16 * 8192 from rfl, hbios]
      rfl

/-- `gather_rdsp` returns the first structure with a right checksum, and no other. -/
structure FindsFirst (mem : Memory) (r : Nat) : Prop where
  first : r = (firstRsdp mem).getD 0
  valid : r ≠ 0 → validRsdpChecksum mem r = true

/-- It does so exactly if there is one in the EBDA, or the first signature in the other area,
if there is any, is that of a structure with a right checksum. -/
theorem gatherRdsp_first_iff (mem : Memory) :
    (∃ r, gatherRdsp mem = .ok r ∧ FindsFirst mem r) ↔
      (∃ a ∈ ebdaAddresses mem, isRsdp mem a = true) ∨
      ∀ a, biosAddresses.find? (hasRsdpSignature mem) = some a →
        validRsdpChecksum mem a = true := by
  have hcode : ∀ a, isRsdp mem a = true ↔
      hasRsdpSignature mem a = true ∧ validRsdpChecksum mem a = true := by
    intro a
    rw [hasRsdpSignature_eq, isRsdp, Bool.and_eq_true]
  have hsplit : firstRsdp mem = ((ebdaAddresses mem).find? (isRsdp mem)).or
      (biosAddresses.find? (isRsdp mem)) := List.find?_append
  rw [gatherRdsp_eq]
  constructor
  · rintro ⟨r, hr, h⟩
    obtain rfl := Except.ok.inj hr
    by_cases hebda : ∃ a ∈ ebdaAddresses mem, isRsdp mem a = true
    · exact .inl hebda
    · right
      intro a ha
      have hnone : (ebdaAddresses mem).find? (isRsdp mem) = none :=
        List.find?_eq_none.2 fun b hb hthere => hebda ⟨b, hb, hthere⟩
      have hvalid := h.valid
      rw [hnone, Option.none_or, ha, Option.getD_some] at hvalid
      apply hvalid
      obtain ⟨k, -, rfl⟩ := List.mem_range'.1 (List.mem_of_find?_eq_some ha)
      omega
  · intro h
    refine ⟨_, rfl, ?_⟩
    cases hebda : (ebdaAddresses mem).find? (isRsdp mem) with
    | some a =>
      rw [hebda, Option.some_or] at hsplit
      exact ⟨by rw [hsplit]; rfl, fun _ => ((hcode a).1 (List.find?_some hebda)).2⟩
    | none =>
      have hbios := h.resolve_left (by
        rintro ⟨a, ha, hthere⟩
        exact List.find?_eq_none.1 hebda a ha hthere)
      rw [hebda, Option.none_or] at hsplit
      rw [Option.none_or]
      cases hfirst : biosAddresses.find? (hasRsdpSignature mem) with
      | none =>
        have hnone : biosAddresses.find? (isRsdp mem) = none := by
          rw [List.find?_eq_none] at hfirst ⊢
          exact fun a ha hthere => hfirst a ha ((hcode a).1 hthere).1
        exact ⟨by rw [hsplit, hnone], fun hne => absurd rfl hne⟩
      | some a =>
        have hvalid := hbios a hfirst
        have hsome : biosAddresses.find? (isRsdp mem) = some a := by
          rw [List.find?_eq_some_iff_append] at hfirst ⊢
          obtain ⟨hsig, before, after, hsplit, hbefore⟩ := hfirst
          refine ⟨(hcode a).2 ⟨hsig, hvalid⟩, before, after, hsplit, fun b hb => ?_⟩
          have hno := hbefore b hb
          rw [Bool.not_eq_true'] at hno ⊢
          rw [Bool.eq_false_iff] at hno ⊢
          exact fun hthere => hno ((hcode b).1 hthere).1
        exact ⟨by rw [hsplit, hsome], fun _ => hvalid⟩

/-- A stray signature at 0xE0000. -/
def strayMemory : Memory := fun a =>
  if 0xE0000 ≤ a then rsdpSignature.getD (a - 0xE0000) 0 else 0

/-- It is returned, although its checksum is wrong. -/
theorem stray_rsdp_found :
    gatherRdsp strayMemory = .ok 0xE0000 ∧ validRsdpChecksum strayMemory 0xE0000 = false ∧
      ¬ ∃ r, gatherRdsp strayMemory = .ok r ∧ FindsFirst strayMemory r := by
  have hebda : (ebdaAddresses strayMemory).find? (isRsdp strayMemory) = none := by decide +kernel
  have hbios : biosAddresses.find? (hasRsdpSignature strayMemory) = some 0xE0000 := by
    decide +kernel
  have hrun : gatherRdsp strayMemory = .ok 0xE0000 := by
    rw [gatherRdsp_eq, hebda, hbios]
    rfl
  have hbad : validRsdpChecksum strayMemory 0xE0000 = false := by decide +kernel
  refine ⟨hrun, hbad, fun ⟨r, hr, h⟩ => ?_⟩
  obtain rfl := Except.ok.inj (hrun.symm.trans hr)
  rw [h.valid (by decide)] at hbad
  cases hbad

end X86Kernel.Acpi
