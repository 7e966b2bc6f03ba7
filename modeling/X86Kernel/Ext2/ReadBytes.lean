import X86Kernel.Ext2.Fetch
import X86Kernel.Block.Partition

/- Reading bytes of a device (`kernel/filesystem/Ext2/fs_read_bytes.c`, with `div_up`
   and `align_up_n` of `core/defs.h`).

   Three roundings: the start is rounded down to a block, the bytes are rounded up
   to blocks, and to the pages that hold them. The first and the last are computed
   in 64 bits, the second one in 32 bits. What is proved: the second one does not wrap
   around where there are pages for the bytes, and the call fetches what it should
   (`fsReadBytes_fetches`); it is the read that the rest of the driver counts on
   (`fsReadBytes_refines`).

   `kvalloc` is where `kvalloc_pages` puts the pages, or the fault of `mm_alloc_pages`, which
   dereferences NULL where there are no frames for them; what the pages held before is in
   `mem`. The device fills the blocks of a request (`deliver`) and calls back. Freeing the
   pages is not modelled.

   Correspondence (C ↔ Lean):
     `div_up`        ↔ `divUp`
     `align_up_n`    ↔ `alignUpN`
     `block_submit`  ↔ `blockSubmit` (its assertion)
     `fs_read_bytes` ↔ `fsReadBytes` -/
namespace X86Kernel.Bio
open X86Kernel.Ext2 (Device)

/-- The memory of the kernel, by address. -/
abbrev Memory := Nat → UInt8

/-- `div_up`, on `usize`. -/
def divUp (a b : Nat) : Kernel Nat := do
  assert (decide (b ≠ 0))
  return (a + (b - 1)) % 2 ^ 64 / b

/-- `align_up_n`, on `usize_ptr`. -/
def alignUpN (value alignment : Nat) : Kernel Nat := do
  assert (decide (alignment &&& sub32 alignment 1 = 0))
  return sub32 (u32 (value + alignment)) 1 &&& (2 ^ 32 - 1 - sub32 alignment 1)

/-- A read of blocks. -/
structure Request where
  vbuffer : Nat
  blockCount : Nat
  blockOffset : Nat
  deriving DecidableEq, Repr

def blockSubmit (blockSize : Nat) (request : Request) : Kernel Request := do
  assert (Disk.bufferAligned blockSize request.vbuffer)
  return request

/-- The blocks of a request arrive. -/
def deliver (dev : Device) (blockSize : Nat) (mem : Memory) (r : Request) : Memory := fun x =>
  if r.vbuffer ≤ x ∧ x < r.vbuffer + r.blockCount * blockSize then
    dev (r.blockOffset * blockSize + (x - r.vbuffer))
  else mem x

/-- `memcpy` between places that do not overlap. -/
def memcpy (mem : Memory) (dst src size : Nat) : Memory := fun x =>
  if dst ≤ x ∧ x < dst + size then mem (src + (x - dst)) else mem x

/-- What a call leaves: the memory, the requests it submitted, and the pages it had. -/
structure Fetch where
  mem : Memory
  requests : List Request
  pages : Nat

/-- `fs_read_bytes` on a device with the given block size. `length` has 32 bits, `offset` has
64. -/
def fsReadBytes (kvalloc : Nat → Kernel Nat) (dev : Device) (blockSize : Nat) (mem : Memory)
    (data length offset : Nat) : Kernel Fetch :=
  if blockSize = 0 then .error .divideByZero
  else do
    let unnecessary := offset % blockSize
    let fetchLength := (length + unnecessary) % 2 ^ 64
    let pages ← divUp fetchLength pageSize
    let tempVbuffer ← kvalloc (u32 pages)
    let aligned ← alignUpN (u32 fetchLength) (u32 blockSize)
    let blockCount := aligned / blockSize
    let request ← blockSubmit blockSize ⟨tempVbuffer, u32 blockCount, offset / blockSize⟩
    let mem := deliver dev blockSize mem request
    return ⟨memcpy mem data (tempVbuffer + unnecessary) length, [request], u32 pages⟩

/-! ## The roundings -/

theorem and_alignment_mask {x k : Nat} (hx : x < 2 ^ 32) (hk : k ≤ 31) :
    x &&& (2 ^ 32 - 1 - (2 ^ k - 1)) = x / 2 ^ k * 2 ^ k := by
  have hpos := Nat.two_pow_pos k
  have hlt : 2 ^ k - 1 < 2 ^ 32 := by
    have : 2 ^ k ≤ 2 ^ 31 := Nat.pow_le_pow_right (by decide) hk
    omega
  have hmask : 2 ^ 32 - 1 - (2 ^ k - 1) = 2 ^ 32 - (2 ^ k - 1 + 1) := by omega
  apply Nat.eq_of_testBit_eq
  intro i
  rw [hmask, Nat.testBit_and, Nat.testBit_two_pow_sub_succ hlt, Nat.testBit_two_pow_sub_one,
    Nat.testBit_mul_two_pow, Nat.testBit_div_two_pow]
  by_cases hik : i < k
  · simp [hik, Nat.not_le.2 hik]
  · by_cases hi : i < 32
    · simp [hik, hi, Nat.not_lt.1 hik]
    · have hbit : x.testBit i = false := by
        apply Nat.testBit_lt_two_pow
        exact lt_of_lt_of_le hx (Nat.pow_le_pow_right (by decide) (Nat.not_lt.1 hi))
      simp [hik, hi, hbit, Nat.not_lt.1 hik]

theorem alignUpN_eq {value k : Nat} (hk : k ≤ 31) :
    alignUpN value (2 ^ k) = .ok (sub32 (u32 (value + 2 ^ k)) 1 / 2 ^ k * 2 ^ k) := by
  have hpos := Nat.two_pow_pos k
  have hle : 2 ^ k ≤ 2 ^ 31 := Nat.pow_le_pow_right (by decide) hk
  have hsub : sub32 (2 ^ k) 1 = 2 ^ k - 1 := sub32_of_le (by omega) hpos
  have hpow : 2 ^ k &&& (2 ^ k - 1) = 0 := by
    rw [Nat.and_two_pow_sub_one_eq_mod, Nat.mod_self]
  have hlt : sub32 (u32 (value + 2 ^ k)) 1 < 2 ^ 32 := Nat.mod_lt _ (by decide)
  rw [alignUpN, hsub, hpow, and_alignment_mask hlt hk]
  rfl

theorem divUp_eq {a b : Nat} (hb : b ≠ 0) (hlt : a + b ≤ 2 ^ 64) :
    divUp a b = .ok ((a + (b - 1)) / b) := by
  rw [divUp, Nat.mod_eq_of_lt (by omega)]
  simp [assert, hb]

theorem roundUp_le_iff {f b n : Nat} (hb : 0 < b) : (f + b - 1) / b ≤ n ↔ f ≤ n * b := by
  rw [← Nat.lt_succ_iff, Nat.div_lt_iff_lt_mul hb, Nat.succ_mul]
  omega

/-! ## What is fetched -/

/-- The buffer holds the bytes of the device, and one read was submitted, whose blocks cover
the bytes and fit into the pages. -/
structure Fetches (dev : Device) (blockSize data length offset : Nat) (fetch : Fetch) : Prop where
  filled : ∀ i < length, fetch.mem (data + i) = dev (offset + i)
  submitted : ∃ r, fetch.requests = [r] ∧ r.blockOffset * blockSize ≤ offset ∧
    offset + length ≤ (r.blockOffset + r.blockCount) * blockSize ∧
    r.blockCount * blockSize ≤ fetch.pages * pageSize

/-- The pages that `kvalloc_pages` returns: whole pages of the address space, and not its
first one. -/
structure InAddressSpace (kvalloc : Nat → Kernel Nat) : Prop where
  aligned : ∀ {n a}, kvalloc n = .ok a → pageSize ∣ a
  not_null : ∀ {n a}, kvalloc n = .ok a → 0 < a
  inside : ∀ {n a}, kvalloc n = .ok a → a + n * pageSize ≤ 2 ^ 32

theorem blocks_le_pages (hk : 2 ^ k ≤ pageSize) (f : Nat) :
    (f + 2 ^ k - 1) / 2 ^ k * 2 ^ k ≤ (f + (pageSize - 1)) / pageSize * pageSize := by
  have hexp : k ≤ 12 := by
    rw [← Nat.pow_le_pow_iff_right (show 1 < 2 by decide)]
    exact hk
  obtain ⟨m, hm⟩ : 2 ^ k ∣ pageSize := Nat.pow_dvd_pow 2 hexp
  have hpage : f ≤ (f + (pageSize - 1)) / pageSize * pageSize :=
    (roundUp_le_iff (by decide)).1 (le_refl _)
  have hmul : (f + (pageSize - 1)) / pageSize * pageSize =
      (f + (pageSize - 1)) / pageSize * m * 2 ^ k := by
    calc (f + (pageSize - 1)) / pageSize * pageSize
        = (f + (pageSize - 1)) / pageSize * (2 ^ k * m) := congrArg _ hm
      _ = (f + (pageSize - 1)) / pageSize * m * 2 ^ k := by ring
  rw [hmul] at hpage ⊢
  exact Nat.mul_le_mul_right _ ((roundUp_le_iff (Nat.two_pow_pos k)).2 hpage)

section Fetch

variable {kvalloc : Nat → Kernel Nat} {dev : Device} {k length offset : Nat} {mem : Memory}
  {data a : Nat}

/-- The pages for the bytes from the start of the first block on. -/
def pagesOf (k length offset : Nat) : Nat := (length + offset % 2 ^ k + (pageSize - 1)) / pageSize

/-- The request that is submitted: the blocks from the one of the first byte to the one of the
last. -/
def requestOf (k length offset a : Nat) : Request where
  vbuffer := a
  blockCount := (length + offset % 2 ^ k + 2 ^ k - 1) / 2 ^ k
  blockOffset := offset / 2 ^ k

/-- Where there are pages for the bytes, one more block fits into 32 bits: the pages end below
4 GiB, and are fewer than all. -/
theorem InAddressSpace.no_wrap (h : InAddressSpace kvalloc) (hk : 2 ^ k ≤ pageSize)
    (hrun : kvalloc (pagesOf k length offset) = .ok a) :
    length + offset % 2 ^ k + 2 ^ k ≤ 2 ^ 32 := by
  obtain ⟨p, rfl⟩ := h.aligned hrun
  have hpos := h.not_null hrun
  have hend := h.inside hrun
  have hbytes : length + offset % 2 ^ k ≤ pagesOf k length offset * pageSize :=
    (roundUp_le_iff (by decide)).1 (le_refl _)
  unfold pageSize at *
  omega

theorem fsReadBytes_eq (hkvalloc : InAddressSpace kvalloc) (hk : 2 ^ k ≤ pageSize)
    (hsmall : length + 2 ^ k < 2 ^ 32) :
    fsReadBytes kvalloc dev (2 ^ k) mem data length offset = do
      let a ← kvalloc (pagesOf k length offset)
      return ⟨memcpy (deliver dev (2 ^ k) mem (requestOf k length offset a)) data
          (a + offset % 2 ^ k) length, [requestOf k length offset a], pagesOf k length offset⟩ := by
  have hpos := Nat.two_pow_pos k
  have hmod := Nat.mod_lt offset hpos
  have hpage : pageSize = 4096 := rfl
  have hexp : k ≤ 12 := by
    rw [← Nat.pow_le_pow_iff_right (show 1 < 2 by decide)]
    exact hk
  have hfetch : (length + offset % 2 ^ k) % 2 ^ 64 = length + offset % 2 ^ k :=
    Nat.mod_eq_of_lt (by omega)
  have hpages : pagesOf k length offset < 2 ^ 32 := Nat.div_lt_of_lt_mul (by omega)
  have hdiv : divUp (length + offset % 2 ^ k) pageSize = .ok (pagesOf k length offset) :=
    divUp_eq (show pageSize ≠ 0 by decide) (by omega)
  unfold fsReadBytes
  rw [if_neg hpos.ne']
  simp only [hfetch, hdiv, ok_bind, u32_of_lt hpages]
  cases hrun : kvalloc (pagesOf k length offset) with
  | error e => rfl
  | ok a =>
    have hfit := hkvalloc.no_wrap hk hrun
    have hcount : (length + offset % 2 ^ k + 2 ^ k - 1) / 2 ^ k < 2 ^ 32 :=
      lt_of_le_of_lt (Nat.div_le_self _ _) (by omega)
    have hsub : sub32 (u32 (length + offset % 2 ^ k + 2 ^ k)) 1 =
        length + offset % 2 ^ k + 2 ^ k - 1 := by
      unfold sub32 u32
      omega
    have haligned : Disk.bufferAligned (2 ^ k) a = true := by
      apply Disk.bufferAligned_two_pow (by omega)
      apply Nat.mod_eq_zero_of_dvd
      exact Dvd.dvd.trans (Nat.pow_dvd_pow 2 hexp) (hkvalloc.aligned hrun)
    have hsubmit : blockSubmit (2 ^ k) (requestOf k length offset a) =
        .ok (requestOf k length offset a) := by
      rw [blockSubmit, requestOf, haligned]
      rfl
    simp only [ok_bind, u32_of_lt (show length + offset % 2 ^ k < 2 ^ 32 by omega),
      u32_of_lt (show 2 ^ k < 2 ^ 32 by omega), alignUpN_eq (show k ≤ 31 by omega), hsub,
      Nat.mul_div_cancel _ hpos, u32_of_lt hcount]
    exact (congrArg (· >>= _) hsubmit).trans rfl

/-- `fs_read_bytes` fetches what it should, for every offset and length, unless there are no
pages for the bytes: then it ends as `kvalloc_pages` does. -/
theorem fsReadBytes_fetches (hkvalloc : InAddressSpace kvalloc) (hk : 2 ^ k ≤ pageSize)
    (hlength : 1 ≤ length) (hsmall : length + 2 ^ k < 2 ^ 32) :
    (∀ a, kvalloc (pagesOf k length offset) = .ok a →
      ∃ fetch, fsReadBytes kvalloc dev (2 ^ k) mem data length offset = .ok fetch ∧
        Fetches dev (2 ^ k) data length offset fetch) ∧
    ∀ e, kvalloc (pagesOf k length offset) = .error e →
      fsReadBytes kvalloc dev (2 ^ k) mem data length offset = .error e := by
  rw [fsReadBytes_eq hkvalloc hk hsmall]
  refine ⟨fun a hrun => ?_, fun e hrun => by rw [hrun]; rfl⟩
  have hpos := Nat.two_pow_pos k
  have hmod := Nat.mod_lt offset hpos
  have hsplit := Nat.div_add_mod' offset (2 ^ k)
  have hround : length + offset % 2 ^ k ≤
      (length + offset % 2 ^ k + 2 ^ k - 1) / 2 ^ k * 2 ^ k :=
    (roundUp_le_iff hpos).1 (le_refl _)
  rw [hrun]
  refine ⟨_, rfl, fun i hi => ?_, _, rfl, ?_, ?_, ?_⟩
  · -- the byte is copied from the pages, where the device put it
    have hin : data ≤ data + i ∧ data + i < data + length := by omega
    show memcpy _ data _ length (data + i) = _
    rw [memcpy, if_pos hin, deliver, if_pos]
    · congr 1
      show offset / 2 ^ k * 2 ^ k + (a + offset % 2 ^ k + (data + i - data) - a) = _
      omega
    · show a ≤ a + offset % 2 ^ k + (data + i - data) ∧ a + offset % 2 ^ k + (data + i - data) <
        a + (length + offset % 2 ^ k + 2 ^ k - 1) / 2 ^ k * 2 ^ k
      omega
  · exact Nat.div_mul_le_self _ _
  · show offset + length ≤ (offset / 2 ^ k + (length + offset % 2 ^ k + 2 ^ k - 1) / 2 ^ k) * 2 ^ k
    rw [Nat.add_mul]
    omega
  · exact blocks_le_pages hk _

/-- There is one page, at the start of the kernel. -/
def onePage (n : Nat) : Kernel Nat := if n = 1 then .ok 0xC0000000 else .error .nullDeref

theorem onePage_eq {n a : Nat} (h : onePage n = .ok a) : n = 1 ∧ a = 0xC0000000 := by
  unfold onePage at h
  split at h
  · next hn => exact ⟨hn, (Except.ok.inj h).symm⟩
  · cases h

theorem onePage_inAddressSpace : InAddressSpace onePage := by
  constructor
  all_goals
    intro n a h
    obtain ⟨rfl, rfl⟩ := onePage_eq h
    decide

/-- Ten bytes over the end of a block of 512. -/
theorem tenBytes_fetched :
    ∃ fetch, fsReadBytes onePage Ext2.labelledDevice (2 ^ 9) (fun _ => 0) 0x1000 10 1020 =
        .ok fetch ∧
      Fetches Ext2.labelledDevice (2 ^ 9) 0x1000 10 1020 fetch :=
  (fsReadBytes_fetches onePage_inAddressSpace (by decide) (by decide) (by decide)).1 0xC0000000 rfl

theorem fsReadBytes_refines (hkvalloc : InAddressSpace kvalloc) (hk : 2 ^ k ≤ pageSize)
    (hlength : 1 ≤ length) (hsmall : length + 2 ^ k < 2 ^ 32)
    (hrun : kvalloc (pagesOf k length offset) = .ok a) :
    ∃ fetch, fsReadBytes kvalloc dev (2 ^ k) mem data length offset = .ok fetch ∧
      ∀ x, x < a ∨ a + fetch.pages * pageSize ≤ x →
        fetch.mem x = Ext2.fsReadBytes dev mem data length offset x := by
  obtain ⟨fetch, hcall, hfetch⟩ : ∃ fetch,
      fsReadBytes kvalloc dev (2 ^ k) mem data length offset = .ok fetch ∧
      Fetches dev (2 ^ k) data length offset fetch :=
    (fsReadBytes_fetches hkvalloc hk hlength hsmall).1 a hrun
  rw [fsReadBytes_eq hkvalloc hk hsmall, hrun] at hcall ⊢
  obtain rfl := Except.ok.inj hcall
  refine ⟨_, rfl, fun x hx => ?_⟩
  by_cases hin : data ≤ x ∧ x < data + length
  · have hfilled := hfetch.filled (x - data) (by omega)
    rw [Nat.add_sub_cancel' hin.1] at hfilled
    rw [hfilled, Ext2.fsReadBytes, if_pos hin]
  · -- the device writes into the pages only
    have hfits := blocks_le_pages hk (length + offset % 2 ^ k)
    rw [Ext2.fsReadBytes, if_neg hin]
    show memcpy _ data _ length x = _
    rw [memcpy, if_neg hin, deliver, if_neg]
    rintro ⟨hlo, hhi⟩
    rcases hx with hx | hx
    · exact absurd (lt_of_lt_of_le hx hlo) (lt_irrefl _)
    · exact absurd (lt_of_lt_of_le hhi (Nat.add_le_add_left hfits _)) (Nat.not_lt.2 hx)

end Fetch

end X86Kernel.Bio
