import X86Kernel.Core

/- The byte loops of `libk/string`, on blocks of 32-bit words. A heap block that
   the kernel uses as an array of pointers is a list of words; `memcpy` and
   `memmove` still move single bytes, so a length that is not a multiple of
   four leaves a word half written. Bytes are little endian.

   Correspondence (C ↔ Lean):
     `memcpy`   ↔ `memcpyWords`
     `memmove`  ↔ `memmoveWords` (both blocks the same one)
     `memcmp`   ↔ `memcmp`
     `kfind_index_first_of_from` ↔ `kfindIndexFirstOfFrom` (its loop: `findFrom`) -/
namespace X86Kernel

/-- Byte `i` of a block of words. -/
def getByte (ws : List Ptr) (i : Nat) : Kernel (BitVec 8) :=
  match ws[i / 4]? with
  | none => .error .outOfBounds
  | some w => .ok (w.extractLsb' (8 * (i % 4)) 8)

/-- The block with byte `i` replaced. -/
def setByte (ws : List Ptr) (i : Nat) (b : BitVec 8) : Kernel (List Ptr) :=
  match ws[i / 4]? with
  | none => .error .outOfBounds
  | some w =>
    .ok (ws.set (i / 4)
      ((w &&& ~~~(0xFF#32 <<< (8 * (i % 4)))) ||| (b.zeroExtend 32 <<< (8 * (i % 4)))))

/-- One byte moved from `src` at `srcOff` to `dst` at `dstOff`. -/
def moveByte (dst : List Ptr) (dstOff : Nat) (src : List Ptr) (srcOff : Nat) :
    Kernel (List Ptr) :=
  match getByte src srcOff with
  | .error e => .error e
  | .ok b => setByte dst dstOff b

/-- `memcpy`: `size` bytes from the start of `src` to the start of `dst`, upwards. -/
def memcpyWords (dst src : List Ptr) : Nat → Kernel (List Ptr)
  | 0 => .ok dst
  | size + 1 =>
    match memcpyWords dst src size with
    | .error e => .error e
    | .ok dst' => moveByte dst' size src size

/-- `memmove` inside one block towards higher addresses: bytes move from the last down. -/
def memmoveWords (block : List Ptr) (dstOff srcOff : Nat) : Nat → Kernel (List Ptr)
  | 0 => .ok block
  | size + 1 =>
    match moveByte block (dstOff + size) block (srcOff + size) with
    | .error e => .error e
    | .ok block' => memmoveWords block' dstOff srcOff size

/-- `memcmp` of the first `size` bytes, both buffers holding at least that many:
the sign of the first difference. -/
def memcmp : List UInt8 → List UInt8 → Nat → Int
  | a :: as, b :: bs, size + 1 => if a < b then -1 else if b < a then 1 else memcmp as bs size
  | _, _, _ => 0

theorem memcmp_eq_zero : ∀ (a b : List UInt8), a.length = b.length →
    (memcmp a b a.length = 0 ↔ a = b)
  | [], [], _ => by simp [memcmp]
  | x :: a, y :: b, h => by
    have hl : a.length = b.length := by simpa using h
    simp only [memcmp, List.length_cons, List.cons.injEq]
    by_cases h₁ : x < y
    · simp [h₁, UInt8.ne_of_lt h₁]
    · by_cases h₂ : y < x
      · simp [h₁, h₂, (UInt8.ne_of_lt h₂).symm]
      · have hxy : x = y := UInt8.le_antisymm (UInt8.not_lt.mp h₂) (UInt8.not_lt.mp h₁)
        simp [hxy, UInt8.lt_irrefl, memcmp_eq_zero a b hl]

/-- The characters from position `pos` on are searched up to the NUL. -/
def findFrom (target : UInt8) : List UInt8 → Nat → Option Nat
  | [], _ => none
  | c :: s, pos => if c = target then some pos else findFrom target s (pos + 1)

/-- `kfind_index_first_of_from`, on the characters of a string before its NUL. -/
def kfindIndexFirstOfFrom (s : List UInt8) (target : UInt8) (offset : Nat) : Int :=
  match findFrom target (s.drop offset) offset with
  | none => -1
  | some pos => pos

theorem findFrom_cases (target : UInt8) : ∀ (s : List UInt8) (pos : Nat),
    (target ∉ s ∧ findFrom target s pos = none) ∨
    ∃ front back, s = front ++ target :: back ∧ target ∉ front ∧
      findFrom target s pos = some (pos + front.length)
  | [], pos => .inl ⟨List.not_mem_nil, rfl⟩
  | c :: s, pos => by
    by_cases hc : c = target
    · right
      exact ⟨[], s, by rw [hc, List.nil_append], List.not_mem_nil, by simp [findFrom, hc]⟩
    · rcases findFrom_cases target s (pos + 1) with ⟨hnone, hfind⟩ | ⟨front, back, hs, hnot, hfind⟩
      · left
        refine ⟨?_, by simp [findFrom, hc, hfind]⟩
        simp only [List.mem_cons, not_or]
        exact ⟨fun h => hc h.symm, hnone⟩
      · right
        refine ⟨c :: front, back, by rw [hs, List.cons_append], ?_, ?_⟩
        · simp only [List.mem_cons, not_or]
          exact ⟨fun h => hc h.symm, hnot⟩
        · simp only [findFrom, hc, if_false, hfind, List.length_cons, Option.some.injEq]
          omega

end X86Kernel
