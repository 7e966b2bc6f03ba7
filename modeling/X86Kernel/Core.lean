import Mathlib.Data.Nat.Bitwise

/- Machine arithmetic and failure, shared by every subsystem. `usize_ptr` is 32
   bits wide on i386: values are naturals, reduced with `u32` where the C
   expression can wrap. A failed `assert`, an `abort`, an access outside the
   memory a block really has, a NULL dereference, a loop that never ends and a
   spin on a lock that is already held are faults: the call does not return. So
   is signed arithmetic that does not fit, where it is modelled: C leaves it
   undefined.

   Correspondence (C ↔ Lean), `kernel/include/core/defs.h`:
     `assert`         ↔ `assert`
     `PAGE_SIZE`      ↔ `pageSize`
     `log2_u32`       ↔ `log2U32`
     `align_up_pow2`  ↔ `alignUpPow2`
     `round_page_up`, `round_page_down` ↔ `roundPageUp`, `roundPageDown` -/
namespace X86Kernel

/-- Why a kernel call does not return. -/
inductive Fault where
  | assertion
  | abort
  | outOfBounds
  | nullDeref
  | diverges
  | divideByZero
  | overflow
  | deadlock
  deriving DecidableEq, Repr

/-- A kernel call: a value, or the fault that stops the machine. -/
abbrev Kernel (α : Type) := Except Fault α

/-- `assert`: prints and aborts when the condition is false. -/
def assert (b : Bool) : Kernel Unit := if b then .ok () else .error .assertion

@[simp] theorem ok_bind {α β : Type} (a : α) (f : α → Kernel β) :
    ((Except.ok a : Kernel α) >>= f) = f a := rfl

@[simp] theorem pure_eq_ok {α : Type} (a : α) : (pure a : Kernel α) = .ok a := rfl

theorem exists_of_bind_eq_ok {α β : Type} {x : Kernel α} {f : α → Kernel β} {b : β}
    (h : x >>= f = .ok b) : ∃ a, x = .ok a ∧ f a = .ok b := by
  cases x with
  | error e => cases h
  | ok a => exact ⟨a, rfl, h⟩

theorem of_assert_eq_ok {b : Bool} {u : Unit} (h : assert b = .ok u) : b = true := by
  cases b with
  | false => cases h
  | true => rfl

/-- Whether a call returns, and with what, can be evaluated. -/
instance {α : Type} (x : Kernel α) (p : α → Prop) [DecidablePred p] :
    Decidable (∃ a, x = .ok a ∧ p a) :=
  match x with
  | .ok a => decidable_of_iff (p a) ⟨fun h => ⟨a, rfl, h⟩, fun ⟨_, e, h⟩ => Except.ok.inj e ▸ h⟩
  | .error _ => isFalse fun ⟨_, e, _⟩ => nomatch e

instance {α : Type} (x : Kernel α) (e : Fault) : Decidable (x = .error e) :=
  match x with
  | .ok _ => isFalse nofun
  | .error e' => decidable_of_iff (e' = e) ⟨fun h => congrArg _ h, fun h => Except.error.inj h⟩

/-- A `void*` as the machine stores it; `0` is NULL. -/
abbrev Ptr := BitVec 32

/-- Reduction to 32 bits. -/
def u32 (n : Nat) : Nat := n % 2 ^ 32

/-- 32-bit subtraction. -/
def sub32 (a b : Nat) : Nat := (a + 2 ^ 32 - b) % 2 ^ 32

def pageSize : Nat := 4096

theorem u32_of_lt {n : Nat} (h : n < 2 ^ 32) : u32 n = n := Nat.mod_eq_of_lt h

theorem sub32_of_le {a b : Nat} (ha : a < 2 ^ 32) (h : b ≤ a) : sub32 a b = a - b := by
  unfold sub32; omega

/-- `log2_u32`: the index of the highest set bit (`bsr`). -/
def log2U32 (x : Nat) : Nat := Nat.log2 x

/-- `align_up_pow2`: smear the highest set bit of `value - 1` downwards, add one. -/
def alignUpPow2 (value : Nat) : Nat :=
  if value = 0 then 1
  else
    let v := value - 1
    let v := v ||| v >>> 1
    let v := v ||| v >>> 2
    let v := v ||| v >>> 4
    let v := v ||| v >>> 8
    let v := v ||| v >>> 16
    u32 (v + 1)

/-- One step of the smearing: a bit that says "one of the next `w` bits of `x`"
comes to say "one of the next `2 * w`". -/
theorem smear_step {x y w : Nat} (h : ∀ i, y.testBit i = true ↔ ∃ j < w, x.testBit (i + j) = true)
    (i : Nat) : (y ||| y >>> w).testBit i = true ↔ ∃ j < 2 * w, x.testBit (i + j) = true := by
  rw [Nat.testBit_or, Nat.testBit_shiftRight, Bool.or_eq_true, h, h]
  constructor
  · rintro (⟨j, hj, hb⟩ | ⟨j, hj, hb⟩)
    · exact ⟨j, by omega, hb⟩
    · exact ⟨w + j, by omega, by rwa [show i + (w + j) = w + i + j by omega]⟩
  · rintro ⟨j, hj, hb⟩
    by_cases hjw : j < w
    · exact .inl ⟨j, hjw, hb⟩
    · exact .inr ⟨j - w, by omega, by rwa [show w + i + (j - w) = i + j by omega]⟩

/-- The highest set bit and all below it. -/
theorem smear_eq {x : Nat} (hpos : x ≠ 0) (hlt : x < 2 ^ 32) {y : Nat}
    (h : ∀ i, y.testBit i = true ↔ ∃ j < 32, x.testBit (i + j) = true) :
    y = 2 ^ (x.log2 + 1) - 1 := by
  have hlog : x.log2 < 32 := (Nat.log2_lt hpos).2 hlt
  apply Nat.eq_of_testBit_eq
  intro i
  rw [Nat.testBit_two_pow_sub_one, Bool.eq_iff_iff, h, decide_eq_true_eq]
  constructor
  · rintro ⟨j, -, hb⟩
    by_contra hge
    have hsmall : x < 2 ^ (i + j) :=
      lt_of_lt_of_le Nat.lt_log2_self (Nat.pow_le_pow_right (by decide) (by omega))
    rw [Nat.testBit_lt_two_pow hsmall] at hb
    cases hb
  · intro hi
    refine ⟨x.log2 - i, by omega, ?_⟩
    rw [show i + (x.log2 - i) = x.log2 by omega]
    exact Nat.testBit_log2 hpos

/-- `align_up_pow2`: the least power of two that is not smaller. -/
theorem exists_alignUpPow2 {value k : Nat} (hpos : 0 < value) (hle : value ≤ 2 ^ k) (hk : k ≤ 31) :
    ∃ j ≤ k, alignUpPow2 value = 2 ^ j ∧ value ≤ 2 ^ j ∧ 2 ^ j < 2 * value := by
  by_cases hone : value = 1
  · subst hone
    exact ⟨0, Nat.zero_le k, by decide, by decide, by decide⟩
  · have hx : value - 1 ≠ 0 := by omega
    have hk' : value - 1 < 2 ^ k := by omega
    have hlog : (value - 1).log2 < k := (Nat.log2_lt hx).2 hk'
    have h32 : value - 1 < 2 ^ 32 :=
      lt_of_lt_of_le hk' (Nat.pow_le_pow_right (by decide) (by omega))
    have h₀ : ∀ i, (value - 1).testBit i = true ↔ ∃ j < 1, (value - 1).testBit (i + j) = true := by
      simp
    have h := smear_step (smear_step (smear_step (smear_step (smear_step h₀))))
    have hsmear := smear_eq hx h32 h
    refine ⟨(value - 1).log2 + 1, hlog, ?_, ?_, ?_⟩
    · have hp := Nat.two_pow_pos ((value - 1).log2 + 1)
      have hlt : 2 ^ ((value - 1).log2 + 1) < 2 ^ 32 :=
        Nat.pow_lt_pow_right (by decide) (by omega)
      rw [alignUpPow2, if_neg (by omega)]
      simp only [Nat.reduceMul] at hsmear
      simp only [hsmear]
      rw [Nat.sub_add_cancel hp, u32_of_lt hlt]
    · have := @Nat.lt_log2_self (value - 1)
      omega
    · have := Nat.log2_self_le hx
      rw [pow_succ]
      omega

theorem alignUpPow2_overflow {value : Nat} (hgt : 2 ^ 31 < value) (hlt : value < 2 ^ 32) :
    alignUpPow2 value = 0 := by
  have hx : value - 1 ≠ 0 := by omega
  have h₀ : ∀ i, (value - 1).testBit i = true ↔ ∃ j < 1, (value - 1).testBit (i + j) = true := by
    simp
  have h := smear_step (smear_step (smear_step (smear_step (smear_step h₀))))
  have hsmear := smear_eq hx (by omega) h
  have hlog : (value - 1).log2 = 31 := by
    apply (Nat.log2_eq_iff hx).2
    omega
  rw [alignUpPow2, if_neg (by omega)]
  simp only [Nat.reduceMul] at hsmear
  simp only [hsmear, hlog]
  decide

def roundPageDown (addr : Nat) : Nat := addr / pageSize * pageSize

def roundPageUp (addr : Nat) : Nat := u32 (addr + pageSize - 1) / pageSize * pageSize

end X86Kernel
