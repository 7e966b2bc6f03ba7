import X86Kernel.Memory.Paging
import X86Kernel.Boot.BootData

/- The first page tables (`kernel/arch/i386/boot/paging.c`). Paging is still off, so the code
   writes to physical memory directly: a table at address `pt` is the frame `pt / 4096`.

   What is proved: whatever is in memory before, `init_paging` leaves an address space in which
   the first 4 MiB are mapped to themselves and the image at 0xC0000000, every table is one of
   the arrays in `.bss.boot`, the last entry of the directory is the directory itself, and
   nothing is mapped from 0xD0000000 on up to the window of the tables (`initPaging_booted`).
   The invariant of the walk over a span is `Laid`: the tables of the pages that are done are
   taken from the array in order.

   The addresses are the linker's (`kernel/arch/i386/linker.ld`). They are parameters, with what
   the script says of their order and alignment; that `KERNEL_TABLES` are enough for the image
   and that `.boot` is below 4 MiB is not checked by the code and is assumed here.

   Correspondence (C ↔ Lean):
     `page_directory`, `kernel_tables`, `boot_tables` ↔ `Image` (their addresses)
     `__kernel_phys_base_sym`, `__image_end` ↔ `Image`
     `zero_page_table` ↔ `zeroPageTable`
     `map_span`        ↔ `mapSpan` (`fillTable`)
     `init_paging`     ↔ `initPaging` -/
namespace X86Kernel.Boot
open X86Kernel.Paging

/-- `KERNEL_TABLES` and `BOOT_TABLES`. -/
def kernelTablesAmount : Nat := 64
def bootTablesAmount : Nat := 2

/-- `__va_pa_off`: `KERNEL_VIRT_BASE - BOOT_PHYS_BASE`. -/
def vaPaOff : Nat := 0xC0000000 - 0x00100000

/-- The addresses of the page tables in `.bss.boot`, and the bounds of the image. -/
structure Image where
  pageDirectory : Nat
  kernelTables : Nat
  bootTables : Nat
  /-- `__kernel_phys_base`, where the boot sections end. -/
  kernelPhysBase : Nat
  /-- `__image_end`, as virtual address. -/
  imageEnd : Nat
  aligned : pageSize ∣ pageDirectory ∧ pageSize ∣ kernelTables ∧ pageSize ∣ bootTables ∧
    pageSize ∣ kernelPhysBase ∧ pageSize ∣ imageEnd
  above : stor1MiB ≤ pageDirectory ∧ stor1MiB ≤ kernelTables ∧ stor1MiB ≤ bootTables
  inBoot : pageDirectory + pageSize ≤ kernelPhysBase ∧
    kernelTables + kernelTablesAmount * pageSize ≤ kernelPhysBase ∧
    bootTables + bootTablesAmount * pageSize ≤ kernelPhysBase
  apart : (pageDirectory + pageSize ≤ kernelTables ∨
      kernelTables + kernelTablesAmount * pageSize ≤ pageDirectory) ∧
    (pageDirectory + pageSize ≤ bootTables ∨
      bootTables + bootTablesAmount * pageSize ≤ pageDirectory) ∧
    (kernelTables + kernelTablesAmount * pageSize ≤ bootTables ∨
      bootTables + bootTablesAmount * pageSize ≤ kernelTables)
  low : kernelPhysBase ≤ 0x400000
  start_le : kernelPhysBase + vaPaOff ≤ imageEnd
  fits : imageEnd ≤ 0xC0000000 + kernelTablesAmount * 0x400000

/-- `linker_kernel_begin`. -/
def Image.kernelBeginPa (_ : Image) : Nat := stor1MiB

/-- `linker_kernel_end`. -/
def Image.kernelEndPa (img : Image) : Nat := img.imageEnd - vaPaOff

/-! ## The tables -/

/-- `zero_page_table`: `amount` tables from `pageTable` on. -/
def zeroPageTable : Nat → Space → Nat → Space
  | 0, s, _ => s
  | amount + 1, s, pageTable =>
    zeroPageTable amount (s.clear (pageTable / pageSize) 0 entriesAmount) (pageTable + pageSize)

/-- `while (table_index < ENTRIES_AMOUNT && pages)`: the memory, `pages`, `paddr` and `vaddr`
after it. -/
def fillTable (pt flags : Nat) : Nat → Nat → Space → Nat → Nat → Nat → Space × Nat × Nat × Nat
  | 0, pages, s, _, paddr, vaddr => (s, pages, paddr, vaddr)
  | _ + 1, 0, s, _, paddr, vaddr => (s, 0, paddr, vaddr)
  | left + 1, pages + 1, s, tableIndex, paddr, vaddr =>
    fillTable pt flags left pages (s.put (pt / pageSize) tableIndex (paddr ||| flags))
      (tableIndex + 1) (u32 (paddr + pageSize)) (u32 (vaddr + pageSize))

/-- The table of a directory entry, or a new one: the memory, the table and `*free_pt`. -/
def chooseTable (flags : Nat) (s : Space) (freePt dirIndex : Nat) : Space × Nat × Nat :=
  let pdeVal := s.mem s.dir dirIndex
  if !present pdeVal then
    let s := s.clear (freePt / pageSize) 0 entriesAmount
    let s := s.put s.dir dirIndex (freePt / pageSize * pageSize ||| flags)
    (s, freePt, u32 (freePt + pageSize))
  else (s, pdeVal / pageSize * pageSize, freePt)

/-- `map_span`, with `*free_pt` after it. Every turn of `while (pages)` maps a page. -/
def mapSpan (flags : Nat) : Nat → Nat → Space → Nat → Nat → Nat → Kernel (Space × Nat)
  | _, 0, s, freePt, _, _ => .ok (s, freePt)
  | 0, _ + 1, _, _, _, _ => .error .diverges
  | fuel + 1, pages + 1, s, freePt, vaddr, paddr =>
    let tableIndex := getPteIndex vaddr
    let (s, pt, freePt) := chooseTable flags s freePt (getPdeIndex vaddr)
    let (s, pages, paddr, vaddr) :=
      fillTable pt flags (entriesAmount - tableIndex) (pages + 1) s tableIndex paddr vaddr
    mapSpan flags fuel pages s freePt vaddr paddr

/-- `PAGES_UP`. -/
def pagesUp (x : Nat) : Nat := u32 (x + (pageSize - 1)) / pageSize

/-- `init_paging`, on any memory. -/
def initPaging (img : Image) (mem : Nat → Nat → Nat) : Kernel Space := do
  let s : Space := ⟨img.pageDirectory / pageSize, mem⟩
  let s := s.clear s.dir 0 entriesAmount
  let s := zeroPageTable kernelTablesAmount s img.kernelTables
  let s := zeroPageTable bootTablesAmount s img.bootTables
  let vaKernelBase := img.kernelPhysBase + vaPaOff
  let kernelPages := pagesUp (sub32 img.imageEnd vaKernelBase)
  let bootPages := pagesUp (sub32 img.kernelPhysBase stor1MiB)
  let (s, _) ← mapSpan pageEntryWriteKernelFlags entriesAmount entriesAmount s img.bootTables 0 0
  let (s, freeKernPt) ← mapSpan pageEntryWriteKernelFlags bootPages bootPages s img.kernelTables
    (stor1MiB + vaPaOff) stor1MiB
  let (s, _) ← mapSpan pageEntryWriteKernelFlags kernelPages kernelPages s freeKernPt vaKernelBase
    img.kernelPhysBase
  return s.put s.dir (entriesAmount - 1) (img.pageDirectory ||| pageEntryWriteKernelFlags)

/-! ## One turn -/

theorem fillTable_ok (pt flags : Nat) : ∀ (left pages : Nat) (s : Space) (i paddr vaddr : Nat),
    paddr + min left pages * 4096 < 2 ^ 32 → vaddr + min left pages * 4096 < 2 ^ 32 →
    ∃ s', fillTable pt flags left pages s i paddr vaddr =
        (s', pages - left, paddr + min left pages * 4096, vaddr + min left pages * 4096) ∧
      s'.dir = s.dir ∧ ∀ f w, s'.mem f w =
        if f = pt / pageSize ∧ i ≤ w ∧ w < i + min left pages then
          paddr + (w - i) * 4096 ||| flags
        else s.mem f w := by
  intro left
  induction left with
  | zero =>
    intro pages s i paddr vaddr _ _
    refine ⟨s, ?_, rfl, fun f w => ?_⟩
    · simp [fillTable]
    · rw [if_neg (by omega)]
  | succ left ih =>
    intro pages s i paddr vaddr hp hv
    cases pages with
    | zero =>
      refine ⟨s, ?_, rfl, fun f w => ?_⟩
      · simp [fillTable]
      · rw [if_neg (by omega)]
    | succ pages =>
      have hmin : min (left + 1) (pages + 1) = min left pages + 1 := by omega
      rw [hmin] at hp hv ⊢
      have hpa : u32 (paddr + pageSize) = paddr + 4096 := u32_of_lt (by unfold pageSize; omega)
      have hva : u32 (vaddr + pageSize) = vaddr + 4096 := u32_of_lt (by unfold pageSize; omega)
      obtain ⟨s', hrun, hdir, hmem⟩ := ih pages (s.put (pt / pageSize) i (paddr ||| flags)) (i + 1)
        (paddr + 4096) (vaddr + 4096) (by omega) (by omega)
      refine ⟨s', ?_, hdir, fun f w => ?_⟩
      · have hp' : paddr + 4096 + min left pages * 4096 = paddr + (min left pages + 1) * 4096 := by
          omega
        have hv' : vaddr + 4096 + min left pages * 4096 = vaddr + (min left pages + 1) * 4096 := by
          omega
        rw [fillTable, hpa, hva, hrun, hp', hv', Nat.add_sub_add_right]
      · rw [hmem]
        by_cases hin : f = pt / pageSize ∧ i + 1 ≤ w ∧ w < i + 1 + min left pages
        · have hpage : paddr + 4096 + (w - (i + 1)) * 4096 = paddr + (w - i) * 4096 := by omega
          rw [if_pos hin, if_pos (by omega), hpage]
        · rw [if_neg hin]
          by_cases hat : f = pt / pageSize ∧ w = i
          · rw [if_pos (by omega)]
            show (if f = pt / pageSize ∧ w = i then paddr ||| flags else s.mem f w) = _
            rw [if_pos hat, hat.2, Nat.sub_self, Nat.zero_mul, Nat.add_zero]
          · rw [if_neg (by omega)]
            show (if f = pt / pageSize ∧ w = i then paddr ||| flags else s.mem f w) = _
            rw [if_neg hat]

/-! ## A span -/

/-- The tables of the first `n` pages. -/
def tablesFor (n : Nat) : Nat := (n + 1023) / 1024

/-- Since `s₀`, the `n` pages from the first page of entry `base` on have been mapped to the
frames from `p` on, with tables from frame `t` on in order. -/
structure Laid (s₀ s : Space) (base t p n : Nat) : Prop where
  dir : s.dir = s₀.dir
  pde : ∀ d, s.pde d = if base ≤ d ∧ d < base + tablesFor n then
    (t + (d - base)) * pageSize + pageEntryWriteKernelFlags else s₀.pde d
  word : ∀ q < n, s.mem (t + q / 1024) (q % 1024) =
    (p + q) * pageSize + pageEntryWriteKernelFlags
  other : ∀ f w, f ≠ s₀.dir → f < t ∨ t + tablesFor n ≤ f → s.mem f w = s₀.mem f w

theorem Laid.none (s : Space) (base t p : Nat) : Laid s s base t p 0 where
  dir := rfl
  pde d := by rw [if_neg (by unfold tablesFor; omega)]
  word q hq := by omega
  other _ _ _ _ := rfl

theorem Laid.chooseTable {s₀ s : Space} {base t p n : Nat} (h : Laid s₀ s base t p n)
    (hdir : s₀.dir < t ∨ t + n / 1024 < s₀.dir)
    (hempty : present (s₀.pde (base + n / 1024)) = false)
    (hlt : t + (n / 1024 + 1) < 2 ^ 20) :
    ∃ s', chooseTable pageEntryWriteKernelFlags s ((t + tablesFor n) * pageSize) (base + n / 1024) =
        (s', (t + n / 1024) * pageSize, (t + (n / 1024 + 1)) * pageSize) ∧
      s'.dir = s₀.dir ∧
      (∀ d, s'.pde d = if base ≤ d ∧ d < base + (n / 1024 + 1) then
        (t + (d - base)) * pageSize + pageEntryWriteKernelFlags else s₀.pde d) ∧
      (∀ q < n, s'.mem (t + q / 1024) (q % 1024) =
        (p + q) * pageSize + pageEntryWriteKernelFlags) ∧
      ∀ f w, f ≠ s₀.dir → f < t ∨ t + (n / 1024 + 1) ≤ f → s'.mem f w = s₀.mem f w := by
  have hdiv : (t + tablesFor n) * pageSize / pageSize = t + tablesFor n :=
    Nat.mul_div_cancel _ (by decide)
  by_cases hfull : n % 1024 = 0
  · -- the tables so far are full: a new one
    have htables : tablesFor n = n / 1024 := by unfold tablesFor; omega
    have habsent : present (s.mem s.dir (base + n / 1024)) = false := by
      have hpde := h.pde (base + n / 1024)
      rw [if_neg (by omega)] at hpde
      unfold Space.pde at hpde
      rw [hpde]
      exact hempty
    refine ⟨(s.clear (t + n / 1024) 0 1024).put s.dir (base + n / 1024)
      ((t + n / 1024) * pageSize + pageEntryWriteKernelFlags), ?_, h.dir, ?_, ?_, ?_⟩
    · have hnext :
          u32 ((t + n / 1024) * pageSize + pageSize) = (t + (n / 1024 + 1)) * pageSize := by
        rw [← Nat.succ_mul, Nat.succ_eq_add_one, Nat.add_assoc]
        apply u32_of_lt
        unfold pageSize
        omega
      rw [Boot.chooseTable, habsent, hdiv, htables, or_flags _ (by decide), hnext]
      rfl
    · intro d
      have hne : s.dir ≠ t + n / 1024 := by rw [h.dir]; omega
      have hput : ((s.clear (t + n / 1024) 0 1024).put s.dir (base + n / 1024)
            ((t + n / 1024) * pageSize + pageEntryWriteKernelFlags)).pde d =
          if d = base + n / 1024 then (t + n / 1024) * pageSize + pageEntryWriteKernelFlags
          else s.pde d := by
        unfold Space.pde Space.put Space.clear
        simp only [true_and, hne, false_and, if_false]
      rw [hput, h.pde, htables]
      by_cases hd : d = base + n / 1024
      · rw [if_pos hd, if_pos (by omega), hd, Nat.add_sub_cancel_left]
      · rw [if_neg hd]
        by_cases hin : base ≤ d ∧ d < base + n / 1024
        · rw [if_pos hin, if_pos (by omega)]
        · rw [if_neg hin, if_neg (by omega)]
    · intro q hq
      have hnew : ¬ (t + q / 1024 = t + n / 1024 ∧ 0 ≤ q % 1024 ∧ q % 1024 < 0 + 1024) := by omega
      have hne : ¬ (t + q / 1024 = s.dir ∧ q % 1024 = base + n / 1024) := by
        rw [h.dir]
        omega
      unfold Space.put Space.clear
      simp only [if_neg hne, if_neg hnew]
      exact h.word q hq
    · intro f w hf hout
      have hnew : ¬ (f = t + n / 1024 ∧ 0 ≤ w ∧ w < 0 + 1024) := by omega
      have hne : ¬ (f = s.dir ∧ w = base + n / 1024) := by
        rw [h.dir]
        omega
      unfold Space.put Space.clear
      simp only [if_neg hne, if_neg hnew]
      exact h.other f w hf (by omega)
  · have htables : tablesFor n = n / 1024 + 1 := by unfold tablesFor; omega
    have hpde : s.mem s.dir (base + n / 1024) =
        (t + n / 1024) * pageSize + pageEntryWriteKernelFlags := by
      have hpde := h.pde (base + n / 1024)
      rw [if_pos (by omega), Nat.add_sub_cancel_left] at hpde
      exact hpde
    refine ⟨s, ?_, h.dir, ?_, h.word, ?_⟩
    · have hframe : ((t + n / 1024) * pageSize + pageEntryWriteKernelFlags) / pageSize =
          t + n / 1024 := frameOf_table _
      rw [Boot.chooseTable, hpde, present_table, htables, hframe]
      rfl
    · rw [← htables]
      exact h.pde
    · rw [← htables]
      exact h.other

theorem Laid.turn {s₀ s : Space} {base t p n k : Nat} (h : Laid s₀ s base t p n)
    (hpos : 0 < k) (hk : k ≤ 1024 - n % 1024)
    (hdir : s₀.dir < t ∨ t + n / 1024 < s₀.dir)
    (hempty : present (s₀.pde (base + n / 1024)) = false)
    (hlt : t + (n / 1024 + 1) < 2 ^ 20) {s₁ s₂ : Space} {freePt : Nat}
    (hchoose : Boot.chooseTable pageEntryWriteKernelFlags s ((t + tablesFor n) * pageSize)
      (base + n / 1024) = (s₁, (t + n / 1024) * pageSize, freePt))
    (hdir₂ : s₂.dir = s₁.dir) (hmem₂ : ∀ f w, s₂.mem f w =
      if f = t + n / 1024 ∧ n % 1024 ≤ w ∧ w < n % 1024 + k then
        (p + n) * 4096 + (w - n % 1024) * 4096 ||| pageEntryWriteKernelFlags
      else s₁.mem f w) :
    freePt = (t + tablesFor (n + k)) * pageSize ∧ Laid s₀ s₂ base t p (n + k) := by
  obtain ⟨s', hrun, hd, hpde, hword, hother⟩ := h.chooseTable hdir hempty hlt
  obtain ⟨rfl, hfree⟩ := Prod.mk.inj (hchoose.symm.trans hrun)
  have htables : tablesFor (n + k) = n / 1024 + 1 := by unfold tablesFor; omega
  rw [htables]
  refine ⟨(Prod.mk.inj hfree).2, hdir₂.trans hd, fun d => ?_, fun q hq => ?_, fun f w hf hout => ?_⟩
  · have hne : ¬ (s₂.dir = t + n / 1024 ∧ n % 1024 ≤ d ∧ d < n % 1024 + k) := by
      rw [hdir₂, hd]
      omega
    rw [htables, ← hpde d]
    unfold Space.pde
    rw [hmem₂, if_neg hne, hdir₂]
  · rw [hmem₂]
    by_cases hnew : n ≤ q
    · have haddr : (p + n) * 4096 + (q % 1024 - n % 1024) * 4096 = (p + q) * pageSize := by
        rw [← Nat.add_mul, show p + n + (q % 1024 - n % 1024) = p + q by omega]
        rfl
      rw [if_pos (by omega), haddr, or_flags _ (by decide)]
    · rw [if_neg (by omega)]
      exact hword q (by omega)
  · rw [htables] at hout
    rw [hmem₂, if_neg (by omega)]
    exact hother f w hf hout

theorem mapSpan_none (flags fuel : Nat) (s : Space) (freePt vaddr paddr : Nat) :
    mapSpan flags fuel 0 s freePt vaddr paddr = .ok (s, freePt) := by
  cases fuel <;> rfl

theorem Laid.mapSpan {s₀ : Space} {base t p : Nat} : ∀ (fuel m : Nat)
    {s : Space} {n : Nat}, Laid s₀ s base t p n → m ≤ fuel →
    s₀.dir < t ∨ t + tablesFor (n + m) ≤ s₀.dir →
    (∀ d, base ≤ d → d < base + tablesFor (n + m) → present (s₀.pde d) = false) →
    base * 1024 + (n + m) < 2 ^ 20 → p + (n + m) < 2 ^ 20 → t + tablesFor (n + m) < 2 ^ 20 →
    ∃ s', mapSpan pageEntryWriteKernelFlags fuel m s ((t + tablesFor n) * pageSize)
        ((base * 1024 + n) * 4096) ((p + n) * 4096) = .ok (s', (t + tablesFor (n + m)) * pageSize) ∧
      Laid s₀ s' base t p (n + m) := by
  intro fuel
  induction fuel with
  | zero =>
    intro m s n h hfuel _ _ _ _ _
    obtain rfl : m = 0 := by omega
    exact ⟨s, mapSpan_none _ _ _ _ _ _, h⟩
  | succ fuel ih =>
    intro m s n h hfuel hdir hempty hva hend ht
    cases m with
    | zero => exact ⟨s, mapSpan_none _ _ _ _ _ _, h⟩
    | succ m =>
      have htables : n / 1024 < tablesFor (n + (m + 1)) := by unfold tablesFor; omega
      have hdir' : s₀.dir < t ∨ t + n / 1024 < s₀.dir := by omega
      have hempty' := hempty (base + n / 1024) (by omega) (by omega)
      have hlt : t + (n / 1024 + 1) < 2 ^ 20 := by omega
      obtain ⟨s₁, hrun₁, -⟩ := h.chooseTable hdir' hempty' hlt
      have hbytes : ∀ first, first + (n + (m + 1)) < 2 ^ 20 →
          (first + n) * 4096 + min (1024 - n % 1024) (m + 1) * 4096 < 2 ^ 32 := by
        intro first hfirst
        have hpages : first + n + min (1024 - n % 1024) (m + 1) < 2 ^ 20 := by omega
        rw [← Nat.add_mul]
        exact Nat.mul_lt_mul_of_pos_right hpages (show 0 < 4096 by decide)
      obtain ⟨s₂, hrun₂, hdir₂, hmem₂⟩ := fillTable_ok ((t + n / 1024) * pageSize)
        pageEntryWriteKernelFlags (1024 - n % 1024) (m + 1) s₁ (n % 1024) ((p + n) * 4096)
        ((base * 1024 + n) * 4096) (hbytes p hend) (hbytes _ hva)
      rw [Nat.mul_div_cancel _ (show 0 < pageSize by decide)] at hmem₂
      obtain ⟨hfree, hlaid⟩ := h.turn (show 0 < min (1024 - n % 1024) (m + 1) by omega)
        (by omega) hdir' hempty' hlt hrun₁ hdir₂ hmem₂
      generalize hk : min (1024 - n % 1024) (m + 1) = k at *
      have hrest := ih (m + 1 - k) hlaid (by omega)
      rw [show n + k + (m + 1 - k) = n + (m + 1) by omega] at hrest
      obtain ⟨s₃, hrun₃, hlaid₃⟩ := hrest hdir hempty hva hend ht
      refine ⟨s₃, ?_, hlaid₃⟩
      have hpde : getPdeIndex ((base * 1024 + n) * 4096) = base + n / 1024 := by
        unfold getPdeIndex
        omega
      have hpte : getPteIndex ((base * 1024 + n) * 4096) = n % 1024 := by
        unfold getPteIndex
        omega
      have hleft : m + 1 - (1024 - n % 1024) = m + 1 - k := by omega
      rw [Boot.mapSpan, hpde, hpte, hrun₁]
      dsimp only
      rw [show entriesAmount - n % 1024 = 1024 - n % 1024 from rfl, hrun₂]
      dsimp only
      rw [hleft, hfree, ← Nat.add_mul, ← Nat.add_mul, Nat.add_assoc (base * 1024), Nat.add_assoc p]
      exact hrun₃

/-! ## The whole of it -/

theorem zeroPageTable_pde : ∀ (amount : Nat) (s : Space) (t : Nat), s.dir < t ∨ t + amount ≤ s.dir →
    (zeroPageTable amount s (t * pageSize)).dir = s.dir ∧
      ∀ d, (zeroPageTable amount s (t * pageSize)).pde d = s.pde d := by
  intro amount
  induction amount with
  | zero => intro s t _; exact ⟨rfl, fun _ => rfl⟩
  | succ amount ih =>
    intro s t hdir
    have hframe : t * pageSize / pageSize = t := Nat.mul_div_cancel _ (by decide)
    obtain ⟨hsame, hpde⟩ := ih (s.clear t 0 1024) (t + 1)
      (show s.dir < t + 1 ∨ t + 1 + amount ≤ s.dir by omega)
    rw [Nat.succ_mul] at hsame hpde
    rw [zeroPageTable, hframe]
    refine ⟨hsame, fun d => ?_⟩
    rw [show entriesAmount = 1024 from rfl, hpde]
    have hne : ¬ (s.dir = t ∧ 0 ≤ d ∧ d < 0 + 1024) := by omega
    exact if_neg hne

/-- The entries `init_paging` leaves in the directory: the table of the first 4 MiB, `k` tables
of the image, and the directory itself. -/
def Image.pde (img : Image) (k d : Nat) : Nat :=
  if d = 1023 then img.pageDirectory + pageEntryWriteKernelFlags
  else if d = 0 then img.bootTables + pageEntryWriteKernelFlags
  else if 768 ≤ d ∧ d < 768 + k then
    img.kernelTables + (d - 768) * pageSize + pageEntryWriteKernelFlags
  else 0

theorem Image.frames (img : Image) : ∃ D K B P E,
    img.pageDirectory = D * pageSize ∧ img.kernelTables = K * pageSize ∧
    img.bootTables = B * pageSize ∧ img.kernelPhysBase = P * pageSize ∧
    img.imageEnd = E * pageSize ∧ (256 ≤ D ∧ 256 ≤ K ∧ 256 ≤ B) ∧
    (D + 1 ≤ P ∧ K + 64 ≤ P ∧ B + 2 ≤ P ∧ P ≤ 1024) ∧
    ((D < K ∨ K + 64 ≤ D) ∧ (D < B ∨ B + 2 ≤ D) ∧ (K + 64 ≤ B ∨ B + 2 ≤ K)) ∧
    P + 0xBFF00 ≤ E ∧ E ≤ 0xD0000 := by
  obtain ⟨⟨D, hD⟩, ⟨K, hK⟩, ⟨B, hB⟩, ⟨P, hP⟩, ⟨E, hE⟩⟩ := img.aligned
  have habove := img.above
  have hin := img.inBoot
  have hapart := img.apart
  have hlow := img.low
  have hstart := img.start_le
  have hfits := img.fits
  refine ⟨D, K, B, P, E, by rw [hD, Nat.mul_comm], by rw [hK, Nat.mul_comm],
    by rw [hB, Nat.mul_comm], by rw [hP, Nat.mul_comm], by rw [hE, Nat.mul_comm], ?_⟩
  rw [hD, hK, hB] at habove
  rw [hD, hK, hB, hP] at hin
  rw [hD, hK, hB] at hapart
  rw [hP] at hlow
  rw [hP, hE] at hstart
  rw [hE] at hfits
  unfold stor1MiB pageSize at habove
  unfold kernelTablesAmount bootTablesAmount pageSize at hin hapart
  unfold pageSize at hlow
  unfold vaPaOff pageSize at hstart
  unfold kernelTablesAmount pageSize at hfits
  clear hD hK hB hP hE
  omega

theorem initPaging_ok (img : Image) (mem : Nat → Nat → Nat) :
    ∃ s k, initPaging img mem = .ok s ∧ k ≤ kernelTablesAmount ∧
      s.dir = img.pageDirectory / pageSize ∧ (∀ d < 1024, s.pde d = img.pde k d) ∧
      ∀ q < 1024, s.mem (img.bootTables / pageSize) q =
        q * pageSize + pageEntryWriteKernelFlags := by
  obtain ⟨D, K, B, P, E, hD, hK, hB, hP, hE, habove, hin, hapart, hstart, hfits⟩ := img.frames
  have hdiv : ∀ n, n * pageSize / pageSize = n := fun n => Nat.mul_div_cancel n (by decide)
  -- zero tables
  generalize hs₀ : (⟨D, mem⟩ : Space).clear D 0 1024 = s₀
  have hdir₀ : s₀.dir = D := by rw [← hs₀]; rfl
  have hpde₀ : ∀ d < 1024, s₀.pde d = 0 := by
    intro d hd
    rw [← hs₀]
    exact if_pos ⟨rfl, Nat.zero_le d, by omega⟩
  obtain ⟨hdir₁, hpde₁⟩ := zeroPageTable_pde 64 s₀ K (by omega)
  generalize hs₁ : zeroPageTable 64 s₀ (K * pageSize) = s₁ at hdir₁ hpde₁
  obtain ⟨hdir₂, hpde₂⟩ := zeroPageTable_pde 2 s₁ B (by omega)
  generalize hs₂ : zeroPageTable 2 s₁ (B * pageSize) = s₂ at hdir₂ hpde₂
  have hempty₂ : ∀ d < 1024, s₂.pde d = 0 := by
    intro d hd
    rw [hpde₂, hpde₁, hpde₀ d hd]
  -- the first 4 MiB
  obtain ⟨s₃, hrun₃, hlaid₃⟩ := (Laid.none s₂ 0 B 0).mapSpan 1024 1024 (Nat.le_refl _)
    (show s₂.dir < B ∨ B + 1 ≤ s₂.dir by omega)
    (fun d _ hd => by rw [hempty₂ d (by unfold tablesFor at hd; omega)]; rfl) (by decide)
    (by decide) (show B + 1 < 2 ^ 20 by omega)
  have hdir₃ : s₃.dir = D := by rw [hlaid₃.dir, hdir₂, hdir₁, hdir₀]
  have hpde₃ : ∀ d < 1024, s₃.pde d =
      if d = 0 then B * pageSize + pageEntryWriteKernelFlags else 0 := by
    intro d hd
    rw [hlaid₃.pde, hempty₂ d hd]
    by_cases hzero : d = 0
    · rw [hzero]
      rfl
    · rw [if_neg hzero, if_neg (by unfold tablesFor; omega)]
  -- the image, in two spans that meet
  have htables : ∀ n ≤ E - 0xC0000, tablesFor n ≤ 64 := by
    intro n hn
    unfold tablesFor
    omega
  have hempty₃ : ∀ d, 768 ≤ d → d < 768 + 64 → present (s₃.pde d) = false := by
    intro d _ hd
    rw [hpde₃ d (by omega), if_neg (by omega)]
    rfl
  have hboot := htables (0 + (P - 256)) (by omega)
  obtain ⟨s₄, hrun₄, hlaid₄⟩ := (Laid.none s₃ 768 K 256).mapSpan (P - 256) (P - 256)
    (Nat.le_refl _) (by omega) (fun d hge hlt => hempty₃ d hge (by omega)) (by omega) (by omega)
    (by omega)
  have hall := htables (0 + (P - 256) + (E - P - 0xBFF00)) (by omega)
  obtain ⟨s₅, hrun₅, hlaid₅⟩ := hlaid₄.mapSpan (E - P - 0xBFF00) (E - P - 0xBFF00)
    (Nat.le_refl _) (by omega) (fun d hge hlt => hempty₃ d hge (by omega)) (by omega) (by omega)
    (by omega)
  have hdir₅ : s₅.dir = D := by rw [hlaid₅.dir, hdir₃]
  refine ⟨s₅.put D 1023 (D * pageSize + pageEntryWriteKernelFlags),
    tablesFor (0 + (P - 256) + (E - P - 0xBFF00)), ?_, hall, ?_, ?_, ?_⟩
  · have hbootPages : pagesUp (sub32 (P * pageSize) stor1MiB) = P - 256 := by
      unfold pagesUp sub32 u32 stor1MiB pageSize
      omega
    have hkernelPages : pagesUp (sub32 (E * pageSize) (P * pageSize + vaPaOff)) =
        E - P - 0xBFF00 := by
      unfold pagesUp sub32 u32 vaPaOff pageSize
      omega
    have hva : (768 * 1024 + (0 + (P - 256))) * 4096 = P * pageSize + vaPaOff := by
      rw [show 768 * 1024 + (0 + (P - 256)) = P + 0xBFF00 by omega, Nat.add_mul]
      rfl
    have hpa : (256 + (0 + (P - 256))) * 4096 = P * pageSize := by
      rw [show 256 + (0 + (P - 256)) = P by omega]
      rfl
    rw [hva, hpa] at hrun₅
    rw [initPaging, hD, hK, hB, hP, hE, hdiv, hbootPages, hkernelPages,
      or_flags D (show pageEntryWriteKernelFlags < 4096 by decide)]
    dsimp only [kernelTablesAmount, bootTablesAmount, entriesAmount]
    rw [hs₀, hs₁, hs₂]
    have hbase : stor1MiB + vaPaOff = 768 * 1024 * 4096 := by decide
    have hmib : stor1MiB = 256 * 4096 := by decide
    simp only [show tablesFor 0 = 0 from rfl, Nat.add_zero, Nat.zero_add, Nat.zero_mul]
      at hrun₃ hrun₄ hrun₅
    rw [hrun₃, ok_bind, hbase, hmib, hrun₄, ok_bind, hrun₅, ok_bind, hdir₅]
    rfl
  · rw [hD, hdiv]
    exact hdir₅
  · intro d hd
    have hput := pde_put_same s₅ 1023 (D * pageSize + pageEntryWriteKernelFlags) d
    rw [hdir₅] at hput
    rw [hput, hlaid₅.pde, hpde₃ d hd, Image.pde, hD, hK, hB]
    by_cases hlast : d = 1023
    · rw [if_pos hlast, if_pos hlast]
    · rw [if_neg hlast, if_neg hlast]
      by_cases hzero : d = 0
      · rw [if_pos hzero, if_pos hzero, if_neg (by omega)]
      · rw [if_neg hzero, if_neg hzero]
        apply if_congr Iff.rfl _ rfl
        rw [Nat.add_mul]
  · intro q hq
    have hne : ¬ (B = D ∧ q = 1023) := by omega
    have hkeep := hlaid₅.other B q (by omega) (by omega)
    have hword := hlaid₃.word q (by omega)
    rw [Nat.div_eq_of_lt hq, Nat.mod_eq_of_lt hq, Nat.add_zero, Nat.zero_add] at hword
    rw [hB, hdiv]
    show (if B = D ∧ q = 1023 then _ else s₅.mem B q) = _
    rw [if_neg hne, hkeep, hword]

/-- The address space the kernel starts in. -/
structure Booted (img : Image) (s : Space) : Prop where
  recursive : Recursive s
  /-- The directory and the tables are in the boot sections. -/
  inBoot : ∀ f, InUse s f → stor1MiB ≤ f * pageSize ∧ f * pageSize < img.kernelPhysBase
  /-- The directory is at its own physical address. -/
  directory : s.entry (img.pageDirectory / pageSize) =
    s.dir * pageSize + pageEntryWriteKernelFlags
  /-- There is no table between those of the image and the window of the tables. -/
  noTable : ∀ d, 832 ≤ d → d < 1023 → present (s.pde d) = false

theorem Image.frameOf_pde (img : Image) {k d : Nat} (hp : present (img.pde k d) = true) :
    (d = 1023 ∧ frameOf (img.pde k d) = img.pageDirectory / pageSize) ∨
    (d = 0 ∧ frameOf (img.pde k d) = img.bootTables / pageSize) ∨
    ((768 ≤ d ∧ d < 768 + k ∧ d ≠ 1023) ∧
      frameOf (img.pde k d) = img.kernelTables / pageSize + (d - 768)) := by
  obtain ⟨D, K, B, P, E, hD, hK, hB, -⟩ := img.frames
  have hdiv : ∀ n, n * pageSize / pageSize = n := fun n => Nat.mul_div_cancel n (by decide)
  unfold Image.pde at hp ⊢
  rw [hD, hK, hB] at hp ⊢
  rw [hdiv, hdiv, hdiv]
  by_cases hlast : d = 1023
  · rw [if_pos hlast, frameOf_table]
    exact .inl ⟨hlast, rfl⟩
  · rw [if_neg hlast] at hp ⊢
    by_cases hzero : d = 0
    · rw [if_pos hzero, frameOf_table]
      exact .inr (.inl ⟨hzero, rfl⟩)
    · rw [if_neg hzero] at hp ⊢
      by_cases himage : 768 ≤ d ∧ d < 768 + k
      · rw [if_pos himage, ← Nat.add_mul, frameOf_table]
        exact .inr (.inr ⟨⟨himage.1, himage.2, hlast⟩, rfl⟩)
      · rw [if_neg himage] at hp
        cases hp

theorem initPaging_booted (img : Image) (mem : Nat → Nat → Nat) :
    ∃ s, initPaging img mem = .ok s ∧ Booted img s := by
  obtain ⟨s, k, hrun, hk, hdir, hpde, hword⟩ := initPaging_ok img mem
  obtain ⟨D, K, B, P, E, hD, hK, hB, hP, -, habove, hin, hapart, -, -⟩ := img.frames
  have hdiv : ∀ n, n * pageSize / pageSize = n := fun n => Nat.mul_div_cancel n (by decide)
  unfold kernelTablesAmount at hk
  have hframe : ∀ d < 1024, present (s.pde d) = true →
      (d = 1023 ∧ frameOf (s.pde d) = D) ∨ (d = 0 ∧ frameOf (s.pde d) = B) ∨
      ((768 ≤ d ∧ d < 768 + k ∧ d ≠ 1023) ∧ frameOf (s.pde d) = K + (d - 768)) := by
    intro d hd hp
    rw [hpde d hd] at hp ⊢
    have h := img.frameOf_pde hp
    rw [hD, hK, hB, hdiv, hdiv, hdiv] at h
    exact h
  rw [hD, hdiv] at hdir
  rw [hB, hdiv] at hword
  have hlast : s.pde 1023 = D * pageSize + pageEntryWriteKernelFlags := by
    rw [hpde 1023 (by decide), Image.pde, if_pos rfl, hD]
  have hfirst : s.pde 0 = B * pageSize + pageEntryWriteKernelFlags := by
    rw [hpde 0 (by decide), Image.pde, if_neg (by decide), if_pos rfl, hB]
  refine ⟨s, hrun, ⟨?_, ?_, ?_⟩, fun f hf => ?_, ?_, fun d hge hlt => ?_⟩
  · rw [hlast]
    exact present_table D
  · rw [hlast, frameOf_table, hdir]
  · intro d e hd he hpd hpe heq
    have h₁ := hframe d hd hpd
    have h₂ := hframe e he hpe
    omega
  · obtain ⟨d, hd, hp, rfl⟩ := hf
    have h := hframe d hd hp
    rw [hP]
    unfold stor1MiB pageSize
    omega
  · unfold Space.entry
    rw [hD, hdiv, Nat.div_eq_of_lt (by omega), hfirst, present_table, if_pos rfl, frameOf_table,
      Nat.mod_eq_of_lt (by omega), hword D (by omega), hdir]
  · by_contra hp
    have h := hframe d (by omega) (Bool.eq_true_of_not_eq_false hp)
    omega

/-- An image with nothing but its page tables, in the 67 pages from 1 MiB on. -/
def smallImage : Image where
  pageDirectory := 0x100000
  kernelTables := 0x101000
  bootTables := 0x141000
  kernelPhysBase := 0x143000
  imageEnd := 0xC0043000
  aligned := by decide
  above := by decide
  inBoot := by decide
  apart := by decide
  low := by decide
  start_le := by decide
  fits := by decide

end X86Kernel.Boot
