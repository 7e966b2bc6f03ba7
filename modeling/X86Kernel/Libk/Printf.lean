import X86Kernel.Core
import Mathlib.Data.List.TakeWhile
import Mathlib.Tactic.NormNum

/- `printf` (`libk/stdio/printf.c`).

   The format is read from its start on: literal text up to the next `%` in one piece, of
   which `%%` may be the beginning, or one directive. The digits of a number are stored in
   a buffer of 32 bytes, the last one first, and put out from its end. What is proved: a
   format of text and the directives that are known is rendered as it should be, and the
   count returned is that of the characters, exactly if no signed number is the least of
   its type, and no number is to be padded to more than 32 digits (`printf_renders_iff`).
   The negation of the least number does not fit its type; padding goes on behind the
   buffer.

   A format is the list of its characters before the NUL, as is a string. `putchar` puts
   out its character and does not fail. Signed arithmetic that overflows is a fault.

   Correspondence (C ↔ Lean):
     `print_int`, `print_long`, `print_longlong` ↔ `printInt`, `printLong`, `printLonglong`
                                  (`printSigned`)
     `print_ulong`, `print_ulonglong` ↔ `printUlong`, `printUlonglong` (`printUnsigned`)
     `print_hex`                ↔ `printHex`
     `%llx`, `%llX` in `printf` ↔ `printHexLonglong`
     `va_arg`                   ↔ `Arg`
     the body of the loop of `printf` ↔ `turn` (`literal`, `directive`)
     `printf`                   ↔ `printf` (its loop: `printfLoop`) -/
namespace X86Kernel.Printf

/-- `INT_MAX` -/
def intMax : Nat := 2147483647

/-- The size of the buffers for digits. -/
def bufferSize : Nat := 32

/-- The result of arithmetic on a signed type of some bits. -/
def signedOf (bits : Nat) (n : Int) : Kernel Int :=
  if -2 ^ (bits - 1) ≤ n ∧ n < 2 ^ (bits - 1) then .ok n else .error .overflow

/-! ## Numbers -/

/-- `digits[i++] = c`; the digits that are stored, the last one first. -/
def store (digits : List UInt8) (c : UInt8) : Kernel (List UInt8) :=
  if digits.length < bufferSize then .ok (c :: digits) else .error .outOfBounds

/-- `while (value > 0)`: the digits of a number are stored. -/
def storeDigits (base : Nat) (digit : Nat → UInt8) :
    Nat → Nat → List UInt8 → Kernel (List UInt8)
  | 0, _, _ => .error .diverges
  | fuel + 1, value, digits =>
    if value = 0 then .ok digits
    else do
      let digits ← store digits (digit (value % base))
      storeDigits base digit fuel (value / base) digits

/-- `while (i < min_digits)`: zeros are stored. -/
def padDigits : Nat → List UInt8 → Kernel (List UInt8)
  | 0, digits => .ok digits
  | n + 1, digits => do
    let digits ← store digits 48
    padDigits n digits

/-- `while (i--)`: the digits are put out from the last one on, and counted. -/
def putDigits (out : List UInt8) (count : Int) (digits : List UInt8) : Int × List UInt8 :=
  digits.foldl (fun s c => (s.1 + 1, s.2 ++ [c])) (count, out)

/-- `'0' + d` -/
def decDigit (d : Nat) : UInt8 := UInt8.ofNat (48 + d)

/-- `hex[d]` -/
def hexDigit (uppercase : Bool) (d : Nat) : UInt8 :=
  ((if uppercase then "0123456789ABCDEF" else "0123456789abcdef").toList.map Char.toUInt8).getD d 0

/-- `print_int`, `print_long` and `print_longlong`, for a type of some bits: the count, and
what is put out. -/
def printSigned (bits : Nat) (out : List UInt8) (value : Int) : Kernel (Int × List UInt8) :=
  if value = 0 then .ok (1, out ++ [48])
  else if value < 0 then do
    let value ← signedOf bits (-value)
    let digits ← storeDigits 10 decDigit (value.toNat + 1) value.toNat []
    return putDigits (out ++ [45]) 1 digits
  else do
    let digits ← storeDigits 10 decDigit (value.toNat + 1) value.toNat []
    return putDigits out 0 digits

def printInt (out : List UInt8) (value : Int32) : Kernel (Int × List UInt8) :=
  printSigned 32 out value.toInt

def printLong (out : List UInt8) (value : Int32) : Kernel (Int × List UInt8) :=
  printSigned 32 out value.toInt

def printLonglong (out : List UInt8) (value : Int64) : Kernel (Int × List UInt8) :=
  printSigned 64 out value.toInt

/-- `print_ulong` and `print_ulonglong`. -/
def printUnsigned (out : List UInt8) (value : Nat) : Kernel (Int × List UInt8) :=
  if value = 0 then .ok (1, out ++ [48])
  else do
    let digits ← storeDigits 10 decDigit (value + 1) value []
    return putDigits out 0 digits

def printUlong (out : List UInt8) (value : UInt32) : Kernel (Int × List UInt8) :=
  printUnsigned out value.toNat

def printUlonglong (out : List UInt8) (value : UInt64) : Kernel (Int × List UInt8) :=
  printUnsigned out value.toNat

/-- The first part of `print_hex`; 0 has a digit. -/
def storeHex (value : UInt32) (uppercase : Bool) : Kernel (List UInt8) :=
  if value = 0 then store [] 48
  else storeDigits 16 (hexDigit uppercase) (value.toNat + 1) value.toNat []

def printHex (out : List UInt8) (value : UInt32) (uppercase : Bool) (minDigits : Nat) :
    Kernel (Int × List UInt8) := do
  let digits ← storeHex value uppercase
  let digits ← padDigits (minDigits - digits.length) digits
  return putDigits out 0 digits

/-- The branches for `%llx` and `%llX`. -/
def printHexLonglong (out : List UInt8) (value : UInt64) (uppercase : Bool) :
    Kernel (Int × List UInt8) :=
  if value = 0 then .ok (1, out ++ [48])
  else do
    let digits ← storeDigits 16 (hexDigit uppercase) (value.toNat + 1) value.toNat []
    return putDigits out 0 digits

/-! ## The format -/

/-- What `va_arg` gives, by the type it is asked for. -/
inductive Arg where
  | int (v : Int32)
  | uint (v : UInt32)
  | long (v : Int32)
  | ulong (v : UInt32)
  | longlong (v : Int64)
  | ulonglong (v : UInt64)
  | str (s : List UInt8)

/-- What a turn of the loop of `printf` comes to: `return -1`, or it goes on with the rest
of the format, the other arguments, and a count to be added. -/
inductive Turn where
  | fail (out : List UInt8)
  | next (format : List UInt8) (params : List Arg) (out : List UInt8) (count : Int)

/-- `if (count == -1) return -1;` -/
def Turn.of (format : List UInt8) (params : List Arg) (printed : Kernel (Int × List UInt8)) :
    Kernel Turn := do
  let (count, out) ← printed
  return if count = -1 then .fail out else .next format params out count

/-- `*format` -/
def first (format : List UInt8) : UInt8 := format.headD 0

def strlen (s : List UInt8) : Nat := (s.takeWhile fun c => c ≠ 0).length

/-- `print`, after the check that there is room for the count. -/
def printText (maxrem : Nat) (format : List UInt8) (params : List Arg) (out text : List UInt8) :
    Turn :=
  if maxrem < text.length then .fail out else .next format params (out ++ text) text.length

/-- Text up to the next `%`; the second of `%%` is the first character of it. -/
def literal (maxrem : Nat) (format : List UInt8) (params : List Arg) (out : List UInt8) : Turn :=
  let format := if first format = 37 then format.tail else format
  let amount := 1 + (format.tail.takeWhile fun c => c ≠ 0 ∧ c ≠ 37).length
  printText maxrem (format.drop amount) params out (format.take amount)

/-- `while (*format >= '0' && *format <= '9')`: the width, and the format behind it. -/
def readWidth : List UInt8 → Nat → Nat × List UInt8
  | [], width => (width, [])
  | c :: format, width =>
    if 48 ≤ c ∧ c ≤ 57 then readWidth format (u32 (width * 10 + (c.toNat - 48)))
    else (width, c :: format)

/-- The directives that begin with `%0`. -/
def paddedDirective (format : List UInt8) (params : List Arg) (out : List UInt8) : Kernel Turn :=
  let (width, format) := readWidth format 0
  if first format = 120 then
    match params with
    | .uint v :: params => Turn.of format.tail params (printHex out v false width)
    | _ => .error .outOfBounds
  else if first format = 88 then
    match params with
    | .uint v :: params => Turn.of format.tail params (printHex out v true width)
    | _ => .error .outOfBounds
  else .ok (.next format params out 0)

/-- The directives that begin with `%ll`. -/
def longlongDirective (format : List UInt8) (params : List Arg) (out : List UInt8) :
    Kernel Turn :=
  if first format = 100 then
    match params with
    | .longlong v :: params => Turn.of format.tail params (printLonglong out v)
    | _ => .error .outOfBounds
  else if first format = 117 then
    match params with
    | .ulonglong v :: params => Turn.of format.tail params (printUlonglong out v)
    | _ => .error .outOfBounds
  else if first format = 120 then
    match params with
    | .ulonglong v :: params => do
      let (count, out) ← printHexLonglong out v false
      return .next format.tail params out count
    | _ => .error .outOfBounds
  else if first format = 88 then
    match params with
    | .ulonglong v :: params => do
      let (count, out) ← printHexLonglong out v true
      return .next format.tail params out count
    | _ => .error .outOfBounds
  else .ok (.next format params out 0)

/-- The directives that begin with `%l`. -/
def longDirective (format : List UInt8) (params : List Arg) (out : List UInt8) : Kernel Turn :=
  if first format = 100 then
    match params with
    | .long v :: params => Turn.of format.tail params (printLong out v)
    | _ => .error .outOfBounds
  else if first format = 117 then
    match params with
    | .ulong v :: params => Turn.of format.tail params (printUlong out v)
    | _ => .error .outOfBounds
  else if first format = 108 then longlongDirective format.tail params out
  else .ok (.next format params out 0)

/-- A directive; what is none is put out to the end of the format. -/
def directive (maxrem : Nat) (begun : List UInt8) (params : List Arg) (out : List UInt8) :
    Kernel Turn :=
  let format := begun.tail
  if first format = 99 then
    match params with
    | .int v :: params => .ok (printText maxrem format.tail params out [v.toInt8.toUInt8])
    | _ => .error .outOfBounds
  else if first format = 115 then
    match params with
    | .str s :: params => .ok (printText maxrem format.tail params out (s.take (strlen s)))
    | _ => .error .outOfBounds
  else if first format = 100 then
    match params with
    | .int v :: params => Turn.of format.tail params (printInt out v)
    | _ => .error .outOfBounds
  else if first format = 120 then
    match params with
    | .uint v :: params => Turn.of format.tail params (printHex out v false 0)
    | _ => .error .outOfBounds
  else if first format = 88 then
    match params with
    | .uint v :: params => Turn.of format.tail params (printHex out v true 0)
    | _ => .error .outOfBounds
  else if first format = 48 then paddedDirective format.tail params out
  else if first format = 108 then longDirective format.tail params out
  else .ok (printText maxrem (begun.drop (strlen begun)) params out (begun.take (strlen begun)))

/-- The body of the loop of `printf`. -/
def turn (maxrem : Nat) (format : List UInt8) (params : List Arg) (out : List UInt8) :
    Kernel Turn :=
  if first format ≠ 37 ∨ first format.tail = 37 then .ok (literal maxrem format params out)
  else directive maxrem format params out

def printfLoop : Nat → List UInt8 → List Arg → List UInt8 → Int → Kernel (Int × List UInt8)
  | 0, _, _, _, _ => .error .diverges
  | fuel + 1, format, params, out, written =>
    if first format = 0 then .ok (written, out)
    else do
      let next ← turn ((intMax - written) % 2 ^ 64).toNat format params out
      match next with
      | .fail out => return (-1, out)
      | .next format params out count =>
        let written ← signedOf 32 (written + count)
        printfLoop fuel format params out written

/-- `printf`: the value returned, and what is put out. -/
def printf (format : List UInt8) (params : List Arg) : Kernel (Int × List UInt8) :=
  printfLoop (format.length + 1) format params [] 0

/-! ## What should be put out -/

/-- A number in decimal. -/
def decimal (n : Nat) : List UInt8 := (Nat.toDigits 10 n).map Char.toUInt8

/-- A signed number in decimal. -/
def signed (v : Int) : List UInt8 := if v < 0 then 45 :: decimal v.natAbs else decimal v.natAbs

def hexChar (uppercase : Bool) (c : Char) : UInt8 := (if uppercase then c.toUpper else c).toUInt8

/-- A number in hexadecimal. -/
def hexadecimal (uppercase : Bool) (n : Nat) : List UInt8 :=
  (Nat.toDigits 16 n).map (hexChar uppercase)

/-- A piece of a format, with the argument for it. -/
inductive Piece where
  | char (c : UInt8) (h : c ≠ 0 ∧ c ≠ 37)
  | percent
  | c (v : Int32)
  | s (text : List UInt8) (h : 0 ∉ text)
  | d (v : Int32)
  | x (uppercase : Bool) (v : UInt32)
  | padded (uppercase : Bool) (width : List (Fin 10)) (v : UInt32)
  | ld (v : Int32)
  | lu (v : UInt32)
  | lld (v : Int64)
  | llu (v : UInt64)
  | llx (uppercase : Bool) (v : UInt64)

/-- The number with some decimal digits. -/
def widthOf (width : List (Fin 10)) : Nat := width.foldl (fun n d => n * 10 + d.val) 0

def hexDirective (uppercase : Bool) : UInt8 := if uppercase then 88 else 120

namespace Piece

/-- How the piece is written in the format. -/
def chars : Piece → List UInt8
  | .char text _ => [text]
  | .percent => [37, 37]
  | .c _ => [37, 99]
  | .s _ _ => [37, 115]
  | .d _ => [37, 100]
  | .x uppercase _ => [37, hexDirective uppercase]
  | .padded uppercase width _ =>
    37 :: 48 :: (width.map fun d => UInt8.ofNat (48 + d.val)) ++ [hexDirective uppercase]
  | .ld _ => [37, 108, 100]
  | .lu _ => [37, 108, 117]
  | .lld _ => [37, 108, 108, 100]
  | .llu _ => [37, 108, 108, 117]
  | .llx uppercase _ => [37, 108, 108, hexDirective uppercase]

def args : Piece → List Arg
  | .char _ _ | .percent => []
  | .c v | .d v => [.int v]
  | .s text _ => [.str text]
  | .x _ v | .padded _ _ v => [.uint v]
  | .ld v => [.long v]
  | .lu v => [.ulong v]
  | .lld v => [.longlong v]
  | .llu v | .llx _ v => [.ulonglong v]

/-- What the piece stands for. -/
def render : Piece → List UInt8
  | .char text _ => [text]
  | .percent => [37]
  | .c v => [v.toInt8.toUInt8]
  | .s text _ => text
  | .d v | .ld v => signed v.toInt
  | .x uppercase v => hexadecimal uppercase v.toNat
  | .padded uppercase width v => (hexadecimal uppercase v.toNat).leftpad (widthOf width) 48
  | .lu v => decimal v.toNat
  | .lld v => signed v.toInt
  | .llu v => decimal v.toNat
  | .llx uppercase v => hexadecimal uppercase v.toNat

/-- The pieces that are put out right. -/
def Supported : Piece → Prop
  | .d v | .ld v => v ≠ Int32.minValue
  | .lld v => v ≠ Int64.minValue
  | .padded _ width _ => widthOf width ≤ bufferSize
  | _ => True

instance (p : Piece) : Decidable p.Supported := by
  cases p <;> unfold Supported <;> infer_instance

/-- What is wrong with a piece that is not: the padding leaves the buffer, or the negation
does not fit. -/
def fault : Piece → Fault
  | .padded _ _ _ => .outOfBounds
  | _ => .overflow

/-- What is put out for a piece. -/
def printed (p : Piece) : Kernel (List UInt8) :=
  if p.Supported then .ok p.render else .error p.fault

end Piece

/-- The format that is made up of some pieces. -/
def chars (ps : List Piece) : List UInt8 := ps.flatMap Piece.chars

def args (ps : List Piece) : List Arg := ps.flatMap Piece.args

def render (ps : List Piece) : List UInt8 := ps.flatMap Piece.render

/-- What is put out for a format. -/
def printed : List Piece → Kernel (List UInt8)
  | [] => .ok []
  | p :: ps => do
    let text ← p.printed
    let rest ← printed ps
    return text ++ rest

/-! ## Numbers in the buffer -/

theorem putDigits_eq (digits : List UInt8) : ∀ (out : List UInt8) (count : Int),
    putDigits out count digits = (count + digits.length, out ++ digits) := by
  induction digits with
  | nil =>
    intro out count
    simp [putDigits]
  | cons c digits ih =>
    intro out count
    have htail := ih (out ++ [c]) (count + 1)
    unfold putDigits at htail ⊢
    rw [List.foldl_cons, htail, List.append_assoc, List.length_cons]
    congr 1
    omega

theorem storeDigits_eq {base : Nat} (hbase : 1 < base) {digit : Nat → UInt8} {f : Char → UInt8}
    (hdigit : ∀ d < base, digit d = f d.digitChar) : ∀ (fuel n : Nat) (digits : List UInt8),
      n ≠ 0 → n < fuel → digits.length + (Nat.toDigits base n).length ≤ bufferSize →
        storeDigits base digit fuel n digits = .ok ((Nat.toDigits base n).map f ++ digits) := by
  intro fuel
  induction fuel with
  | zero =>
    intro n digits _ hfuel
    exact absurd hfuel (Nat.not_lt_zero n)
  | succ fuel ih =>
    intro n digits hn hfuel hroom
    have hpos := Nat.length_toDigits_pos (b := base) (n := n)
    have hstore : store digits (digit (n % base)) = .ok (digit (n % base) :: digits) :=
      if_pos (by omega)
    rw [storeDigits, if_neg hn, hstore, ok_bind, hdigit _ (Nat.mod_lt n (by omega))]
    by_cases hlast : n < base
    · rw [Nat.div_eq_of_lt hlast, Nat.mod_eq_of_lt hlast, Nat.toDigits_of_lt_base hlast]
      cases fuel with
      | zero => omega
      | succ fuel => rfl
    · rw [Nat.toDigits_of_base_le hbase (by omega)] at hroom ⊢
      rw [List.length_append, List.length_singleton] at hroom
      have hdiv : n / base < n := Nat.div_lt_self (by omega) hbase
      have hdiv_pos : 0 < n / base := Nat.div_pos (by omega) (by omega)
      rw [ih (n / base) _ (by omega) (by omega) (by rw [List.length_cons]; omega),
        List.map_append, List.append_assoc]
      rfl

theorem padDigits_eq : ∀ (n : Nat) (digits : List UInt8),
    padDigits n digits = if digits.length + n ≤ bufferSize ∨ n = 0 then
      .ok (List.replicate n 48 ++ digits) else .error .outOfBounds := by
  intro n
  induction n with
  | zero =>
    intro digits
    rw [if_pos (.inr rfl)]
    rfl
  | succ n ih =>
    intro digits
    unfold padDigits store
    by_cases hroom : digits.length < bufferSize
    · rw [if_pos hroom, ok_bind, ih, List.length_cons]
      by_cases hall : digits.length + (n + 1) ≤ bufferSize
      · rw [if_pos (.inl (by omega)), if_pos (.inl hall), List.replicate_succ',
          List.append_assoc]
        rfl
      · rw [if_neg (by omega), if_neg (by omega)]
    · rw [if_neg hroom, if_neg (by omega)]
      rfl

theorem decDigit_eq : ∀ d < 10, decDigit d = d.digitChar.toUInt8 := by decide

theorem hexDigit_eq (uppercase : Bool) :
    ∀ d < 16, hexDigit uppercase d = hexChar uppercase d.digitChar := by
  cases uppercase with
  | false => decide
  | true => decide

theorem length_toDigits_le {base n k : Nat} (hbase : 1 < base) (hk : 0 < k) (h : n < base ^ k) :
    (Nat.toDigits base n).length ≤ k :=
  (Nat.length_toDigits_le_iff hbase hk).2 h

/-- What a print function returns, if it puts out some characters. -/
def putsOut (out text : List UInt8) : Kernel (Int × List UInt8) := .ok (text.length, out ++ text)

theorem storeDecimal_eq {n : Nat} (hn : n ≠ 0) (hlt : n < 2 ^ 64) :
    storeDigits 10 decDigit (n + 1) n [] = .ok (decimal n) := by
  have hlength : (Nat.toDigits 10 n).length ≤ 20 :=
    length_toDigits_le (by decide) (by decide) (by omega)
  rw [storeDigits_eq (by decide) decDigit_eq _ n [] hn (Nat.lt_succ_self n)
    (by rw [List.length_nil, bufferSize]; omega), List.append_nil]
  rfl

theorem storeHexadecimal_eq {n : Nat} (uppercase : Bool) (hn : n ≠ 0) (hlt : n < 2 ^ 64) :
    storeDigits 16 (hexDigit uppercase) (n + 1) n [] = .ok (hexadecimal uppercase n) := by
  have hlength : (Nat.toDigits 16 n).length ≤ 16 :=
    length_toDigits_le (by decide) (by decide) (by omega)
  rw [storeDigits_eq (by decide) (hexDigit_eq uppercase) _ n [] hn (Nat.lt_succ_self n)
    (by rw [List.length_nil, bufferSize]; omega), List.append_nil]
  rfl

theorem printUnsigned_eq (out : List UInt8) {value : Nat} (hlt : value < 2 ^ 64) :
    printUnsigned out value = putsOut out (decimal value) := by
  unfold printUnsigned
  split_ifs with hzero
  · subst hzero
    rfl
  · rw [storeDecimal_eq hzero hlt, ok_bind, putDigits_eq, Int.zero_add]
    rfl

theorem signedOf_eq {bits : Nat} {n : Int} (hlo : -2 ^ (bits - 1) ≤ n)
    (hhi : n < 2 ^ (bits - 1)) : signedOf bits n = .ok n :=
  if_pos ⟨hlo, hhi⟩

theorem printSigned_eq {bits : Nat} (hbits : bits ≤ 64) (out : List UInt8) {value : Int}
    (hlo : -2 ^ (bits - 1) < value) (hhi : value < 2 ^ (bits - 1)) :
    printSigned bits out value = putsOut out (signed value) := by
  have hpow : (2 : Int) ^ (bits - 1) ≤ 2 ^ 63 := pow_le_pow_right₀ (by decide) (by omega)
  unfold printSigned signed
  split_ifs with hzero hneg hneg
  · subst hzero
    cases hneg
  · subst hzero
    rfl
  · have habs : (-value).toNat = value.natAbs := by omega
    rw [signedOf_eq (by omega) (by omega), ok_bind, habs,
      storeDecimal_eq (by omega) (by omega), ok_bind, putDigits_eq]
    unfold putsOut
    rw [List.length_cons, List.append_assoc, Int.add_comm]
    rfl
  · have habs : value.toNat = value.natAbs := by omega
    rw [habs, storeDecimal_eq (by omega) (by omega), ok_bind, putDigits_eq, Int.zero_add]
    rfl

theorem printSigned_min {bits : Nat} (out : List UInt8) :
    printSigned bits out (-2 ^ (bits - 1)) = .error .overflow := by
  have hpos : (0 : Int) < 2 ^ (bits - 1) := pow_pos (by decide) _
  have hfits : ¬ (-2 ^ (bits - 1) ≤ -(-2 ^ (bits - 1) : Int) ∧
      -(-2 ^ (bits - 1) : Int) < 2 ^ (bits - 1)) := by omega
  rw [printSigned, if_neg (by omega), if_pos (by omega), signedOf, if_neg hfits]
  rfl

theorem storeHex_eq (value : UInt32) (uppercase : Bool) :
    storeHex value uppercase = .ok (hexadecimal uppercase value.toNat) := by
  unfold storeHex
  split_ifs with hzero
  · subst hzero
    cases uppercase with
    | false => rfl
    | true => rfl
  · have hpos : value.toNat ≠ 0 := fun h => hzero (UInt32.toNat_inj.1 h)
    have hlt := value.toNat_lt
    exact storeHexadecimal_eq uppercase hpos (by omega)

theorem printHex_eq (out : List UInt8) (value : UInt32) (uppercase : Bool) (minDigits : Nat) :
    printHex out value uppercase minDigits =
      if minDigits ≤ bufferSize then
        putsOut out ((hexadecimal uppercase value.toNat).leftpad minDigits 48)
      else .error .outOfBounds := by
  have hlength : (hexadecimal uppercase value.toNat).length ≤ 8 := by
    unfold hexadecimal
    rw [List.length_map]
    exact length_toDigits_le (by decide) (by decide) value.toNat_lt
  unfold printHex
  rw [storeHex_eq, ok_bind, padDigits_eq]
  by_cases hroom : minDigits ≤ bufferSize
  · rw [if_pos hroom, if_pos (by unfold bufferSize at *; omega), ok_bind, putDigits_eq,
      Int.zero_add]
    rfl
  · rw [if_neg hroom, if_neg (by unfold bufferSize at *; omega)]
    rfl

theorem printHexLonglong_eq (out : List UInt8) (value : UInt64) (uppercase : Bool) :
    printHexLonglong out value uppercase =
      putsOut out (hexadecimal uppercase value.toNat) := by
  unfold printHexLonglong
  split_ifs with hzero
  · subst hzero
    cases uppercase with
    | false => rfl
    | true => rfl
  · have hpos : value.toNat ≠ 0 := fun h => hzero (UInt64.toNat_inj.1 h)
    rw [storeHexadecimal_eq uppercase hpos value.toNat_lt, ok_bind, putDigits_eq, Int.zero_add]
    rfl

theorem printSigned32_eq (out : List UInt8) (v : Int32) : printSigned 32 out v.toInt =
    if v ≠ Int32.minValue then putsOut out (signed v.toInt) else .error .overflow := by
  split_ifs with hmin
  · have hlo := v.le_toInt
    have hne : v.toInt ≠ Int32.minValue.toInt := fun h => hmin (Int32.toInt_inj.1 h)
    rw [Int32.toInt_minValue] at hne
    exact printSigned_eq (by decide) out (by omega) v.toInt_lt
  · rw [not_not.1 hmin]
    exact printSigned_min out

theorem printSigned64_eq (out : List UInt8) (v : Int64) : printSigned 64 out v.toInt =
    if v ≠ Int64.minValue then putsOut out (signed v.toInt) else .error .overflow := by
  split_ifs with hmin
  · have hlo := v.le_toInt
    have hne : v.toInt ≠ Int64.minValue.toInt := fun h => hmin (Int64.toInt_inj.1 h)
    rw [Int64.toInt_minValue] at hne
    exact printSigned_eq (Nat.le_refl 64) out (by omega) v.toInt_lt
  · rw [not_not.1 hmin]
    exact printSigned_min out

/-! ## One turn -/

@[simp] theorem turnOf_putsOut (format : List UInt8) (params : List Arg) (out text : List UInt8) :
    Turn.of format params (putsOut out text) =
      .ok (.next format params (out ++ text) text.length) := by
  have hcount : (text.length : Int) ≠ -1 := by omega
  rw [Turn.of, putsOut, ok_bind]
  dsimp only
  rw [if_neg hcount]
  rfl

theorem turnOf_printed (p : Piece) (format : List UInt8) (params : List Arg) (out : List UInt8) :
    Turn.of format params (if p.Supported then putsOut out p.render else .error p.fault) = (do
      let text ← p.printed
      return .next format params (out ++ text) text.length) := by
  unfold Piece.printed
  split_ifs
  · rw [turnOf_putsOut]
    rfl
  · rfl

theorem printText_eq {maxrem : Nat} {text : List UInt8} (h : text.length ≤ maxrem)
    (format : List UInt8) (params : List Arg) (out : List UInt8) :
    printText maxrem format params out text = .next format params (out ++ text) text.length :=
  if_neg (Nat.not_lt.2 h)

theorem le_widthFrom (width : List (Fin 10)) : ∀ n : Nat,
    n ≤ width.foldl (fun n d => n * 10 + d.val) n := by
  induction width with
  | nil => exact Nat.le_refl
  | cons d width ih =>
    intro n
    have htail := ih (n * 10 + d.val)
    rw [List.foldl_cons]
    omega

theorem readWidth_eq {rest : List UInt8} (hrest : ∀ c ∈ rest.head?, ¬ (48 ≤ c ∧ c ≤ 57))
    (width : List (Fin 10)) : ∀ n : Nat,
      width.foldl (fun n d => n * 10 + d.val) n < 2 ^ 32 →
        readWidth ((width.map fun d => UInt8.ofNat (48 + d.val)) ++ rest) n =
          (width.foldl (fun n d => n * 10 + d.val) n, rest) := by
  induction width with
  | nil =>
    intro n _
    cases rest with
    | nil => rfl
    | cons c rest => exact if_neg (hrest c rfl)
  | cons d width ih =>
    intro n hlt
    have hdigit : ∀ d : Fin 10, (48 ≤ UInt8.ofNat (48 + d.val) ∧ UInt8.ofNat (48 + d.val) ≤ 57) ∧
        (UInt8.ofNat (48 + d.val)).toNat - 48 = d.val := by decide
    have hle := le_widthFrom width (n * 10 + d.val)
    rw [List.foldl_cons] at hlt ⊢
    rw [List.map_cons, List.cons_append, readWidth, if_pos (hdigit d).1, (hdigit d).2,
      u32_of_lt (by omega)]
    exact ih _ hlt

theorem le_length_leftpad (n : Nat) (c : UInt8) (l : List UInt8) : n ≤ (l.leftpad n c).length := by
  rw [List.leftpad, List.length_append, List.length_replicate]
  omega

/-- The pieces without an argument. -/
def Piece.isText : Piece → Bool
  | .char _ _ | .percent => true
  | _ => false

theorem directive_padded (maxrem : Nat) (uppercase : Bool) {width : List (Fin 10)}
    (hwidth : widthOf width < 2 ^ 32) (v : UInt32) (rest : List UInt8) (params : List Arg)
    (out : List UInt8) :
    directive maxrem ((Piece.padded uppercase width v).chars ++ rest) (.uint v :: params) out =
      Turn.of rest params (printHex out v uppercase (widthOf width)) := by
  have hrest : ∀ c ∈ (hexDirective uppercase :: rest).head?, ¬ (48 ≤ c ∧ c ≤ 57) := by
    intro c hc
    obtain rfl := Option.some.inj hc
    cases uppercase with
    | false => decide
    | true => decide
  have hread := readWidth_eq hrest width 0 hwidth
  have hformat : (Piece.padded uppercase width v).chars ++ rest = 37 :: 48 ::
      ((width.map fun d => UInt8.ofNat (48 + d.val)) ++ hexDirective uppercase :: rest) := by
    simp [Piece.chars]
  rw [hformat]
  show paddedDirective _ _ _ = _
  unfold paddedDirective
  dsimp only [List.tail_cons]
  rw [hread]
  cases uppercase with
  | false => rfl
  | true => rfl

/-- A directive is put out as `printed` says. -/
theorem directive_eq {maxrem : Nat} {p : Piece} (hp : p.isText = false)
    (hroom : p.render.length ≤ maxrem) (hlt : p.render.length < 2 ^ 31) (rest : List UInt8)
    (params : List Arg) (out : List UInt8) :
    directive maxrem (p.chars ++ rest) (p.args ++ params) out = (do
      let text ← p.printed
      return .next rest params (out ++ text) text.length) := by
  cases p with
  | char text h => cases hp
  | percent => cases hp
  | c v =>
    show Except.ok (printText maxrem rest params out [v.toInt8.toUInt8]) = _
    rw [printText_eq (show [v.toInt8.toUInt8].length ≤ maxrem from hroom)]
    rfl
  | s text h =>
    have hlength : strlen text = text.length := by
      unfold strlen
      rw [List.takeWhile_eq_self_iff.2]
      intro c hc
      exact decide_eq_true fun hzero => h (hzero ▸ hc)
    show Except.ok (printText maxrem rest params out (text.take (strlen text))) = _
    rw [hlength, List.take_length, printText_eq (show text.length ≤ maxrem from hroom)]
    rfl
  | d v =>
    show Turn.of rest params (printSigned 32 out v.toInt) = _
    rw [printSigned32_eq]
    exact turnOf_printed (.d v) rest params out
  | x uppercase v =>
    have hstep : directive maxrem ((Piece.x uppercase v).chars ++ rest) (.uint v :: params) out =
        Turn.of rest params (printHex out v uppercase 0) := by
      cases uppercase with
      | false => rfl
      | true => rfl
    refine hstep.trans ?_
    rw [printHex_eq, if_pos (Nat.zero_le _), turnOf_putsOut, List.leftpad, Nat.zero_sub]
    rfl
  | padded uppercase width v =>
    have hle := le_length_leftpad (widthOf width) 48 (hexadecimal uppercase v.toNat)
    have hrender : (Piece.padded uppercase width v).render =
      (hexadecimal uppercase v.toNat).leftpad (widthOf width) 48 := rfl
    rw [hrender] at hlt
    refine (directive_padded maxrem uppercase (by omega) v rest params out).trans ?_
    rw [printHex_eq]
    exact turnOf_printed (.padded uppercase width v) rest params out
  | ld v =>
    show Turn.of rest params (printSigned 32 out v.toInt) = _
    rw [printSigned32_eq]
    exact turnOf_printed (.ld v) rest params out
  | lu v =>
    have hlt := v.toNat_lt
    show Turn.of rest params (printUnsigned out v.toNat) = _
    rw [printUnsigned_eq out (by omega), turnOf_putsOut]
    rfl
  | lld v =>
    show Turn.of rest params (printSigned 64 out v.toInt) = _
    rw [printSigned64_eq]
    exact turnOf_printed (.lld v) rest params out
  | llu v =>
    show Turn.of rest params (printUnsigned out v.toNat) = _
    rw [printUnsigned_eq out v.toNat_lt, turnOf_putsOut]
    rfl
  | llx uppercase v =>
    have hstep : directive maxrem ((Piece.llx uppercase v).chars ++ rest)
        (.ulonglong v :: params) out = (do
          let (count, out) ← printHexLonglong out v uppercase
          return .next rest params out count) := by
      cases uppercase with
      | false => rfl
      | true => rfl
    refine hstep.trans ?_
    rw [printHexLonglong_eq]
    rfl

theorem literal_eq {maxrem : Nat} {p : Piece} (hp : p.isText = true) {text rest : List UInt8}
    (htext : ∀ c ∈ text, c ≠ 0 ∧ c ≠ 37) (hrest : ∀ c ∈ rest.head?, c = 37)
    (hroom : 1 + text.length ≤ maxrem) (params : List Arg) (out : List UInt8) :
    literal maxrem (p.chars ++ (text ++ rest)) params out =
      .next rest params (out ++ (p.render ++ text)) (p.render ++ text).length := by
  have hrun : (text ++ rest).takeWhile (fun c => c ≠ 0 ∧ c ≠ 37) = text := by
    rw [List.takeWhile_append_of_pos fun c hc => decide_eq_true (htext c hc)]
    cases rest with
    | nil => rw [List.takeWhile_nil, List.append_nil]
    | cons c rest =>
      obtain rfl := hrest c rfl
      rw [List.takeWhile_cons_of_neg (by decide), List.append_nil]
  have hcut : ∀ c : UInt8, printText maxrem
      ((c :: (text ++ rest)).drop (1 + text.length)) params out
      ((c :: (text ++ rest)).take (1 + text.length)) =
        .next rest params (out ++ ([c] ++ text)) ([c] ++ text).length := by
    intro c
    have htake : (c :: (text ++ rest)).take (1 + text.length) = [c] ++ text := by
      rw [Nat.add_comm, List.take_succ_cons, List.take_left]
      rfl
    have hdrop : (c :: (text ++ rest)).drop (1 + text.length) = rest := by
      rw [Nat.add_comm, List.drop_succ_cons, List.drop_left]
    rw [htake, hdrop, printText_eq]
    rw [List.length_append, List.length_singleton]
    exact hroom
  unfold literal
  cases p with
  | char c h =>
    have hformat : (Piece.char c h).chars ++ (text ++ rest) = c :: (text ++ rest) := rfl
    have hfirst : first (c :: (text ++ rest)) ≠ 37 := h.2
    dsimp only
    rw [hformat, if_neg hfirst, List.tail_cons, hrun]
    exact hcut c
  | percent =>
    have hformat : Piece.percent.chars ++ (text ++ rest) = 37 :: 37 :: (text ++ rest) := rfl
    have hfirst : first (37 :: 37 :: (text ++ rest)) = 37 := rfl
    dsimp only
    rw [hformat, if_pos hfirst, List.tail_cons, List.tail_cons, hrun]
    exact hcut 37
  | _ => cases hp

/-! ## The loop -/

def Piece.isChar : Piece → Bool
  | .char _ _ => true
  | _ => false

theorem chars_of_isChar {ps : List Piece} (h : ∀ p ∈ ps, p.isChar = true) :
    chars ps = render ps ∧ args ps = [] ∧ (∀ c ∈ chars ps, c ≠ 0 ∧ c ≠ 37) ∧
      ∀ rest, printed (ps ++ rest) = (do
        let text ← printed rest
        return render ps ++ text) := by
  induction ps with
  | nil =>
    refine ⟨rfl, rfl, nofun, fun rest => ?_⟩
    rw [List.nil_append]
    cases printed rest <;> rfl
  | cons p ps ih =>
    obtain ⟨hchars, hargs, hplain, hprinted⟩ := ih fun q hq => h q (List.mem_cons_of_mem p hq)
    have hp := h p List.mem_cons_self
    cases p with
    | char c hc =>
      refine ⟨congrArg (c :: ·) hchars, hargs, ?_, fun rest => ?_⟩
      · intro b hb
        rcases List.mem_cons.1 hb with rfl | hb
        · exact hc
        · exact hplain b hb
      · have hrest := hprinted rest
        show (printed (ps ++ rest) >>= fun text => Except.ok ([c] ++ text)) = _
        rw [hrest]
        cases printed rest with
        | error e => rfl
        | ok text => rfl
    | _ => cases hp

theorem first_directive {p : Piece} (hp : p.isText = false) (rest : List UInt8) :
    first (p.chars ++ rest) = 37 ∧ first (p.chars ++ rest).tail ≠ 37 := by
  have hhex : ∀ uppercase, hexDirective uppercase ≠ 37 := by decide
  cases p with
  | char c h => cases hp
  | percent => cases hp
  | c v => exact ⟨rfl, by show (99 : UInt8) ≠ 37; decide⟩
  | s text h => exact ⟨rfl, by show (115 : UInt8) ≠ 37; decide⟩
  | d v => exact ⟨rfl, by show (100 : UInt8) ≠ 37; decide⟩
  | x uppercase v => exact ⟨rfl, hhex uppercase⟩
  | padded uppercase width v => exact ⟨rfl, by show (48 : UInt8) ≠ 37; decide⟩
  | ld v => exact ⟨rfl, by show (108 : UInt8) ≠ 37; decide⟩
  | lu v => exact ⟨rfl, by show (108 : UInt8) ≠ 37; decide⟩
  | lld v => exact ⟨rfl, by show (108 : UInt8) ≠ 37; decide⟩
  | llu v => exact ⟨rfl, by show (108 : UInt8) ≠ 37; decide⟩
  | llx uppercase v => exact ⟨rfl, by show (108 : UInt8) ≠ 37; decide⟩

theorem head_chars {ps : List Piece} (h : ∀ p ∈ ps.head?, p.isChar = false) :
    ∀ c ∈ (chars ps).head?, c = 37 := by
  cases ps with
  | nil => exact nofun
  | cons p ps =>
    have hp := h p rfl
    intro c hc
    cases p with
    | char c h => cases hp
    | percent => exact (Option.some.inj hc).symm
    | _ => exact (Option.some.inj hc).symm

theorem length_chars_pos (p : Piece) : 0 < p.chars.length := by
  cases p <;> exact Nat.succ_pos _

theorem Piece.of_printed {p : Piece} {text : List UInt8} (h : p.printed = .ok text) :
    p.Supported ∧ text = p.render := by
  unfold Piece.printed at h
  split_ifs at h with hp
  exact ⟨hp, (Except.ok.inj h).symm⟩

/-- What is put out is right if each piece is supported, and nothing is put out otherwise. -/
theorem of_printed : ∀ {ps : List Piece} {text : List UInt8}, printed ps = .ok text →
    (∀ p ∈ ps, p.Supported) ∧ text = render ps := by
  intro ps
  induction ps with
  | nil =>
    intro text h
    exact ⟨nofun, (Except.ok.inj h).symm⟩
  | cons p ps ih =>
    intro text h
    obtain ⟨first, hfirst, h⟩ := exists_of_bind_eq_ok h
    obtain ⟨rest, hrest, h⟩ := exists_of_bind_eq_ok h
    obtain ⟨hp, rfl⟩ := Piece.of_printed hfirst
    obtain ⟨hps, rfl⟩ := ih hrest
    exact ⟨List.forall_mem_cons.2 ⟨hp, hps⟩, (Except.ok.inj h).symm⟩

theorem printed_eq_render_iff (ps : List Piece) :
    printed ps = .ok (render ps) ↔ ∀ p ∈ ps, p.Supported := by
  refine ⟨fun h => (of_printed h).1, fun h => ?_⟩
  induction ps with
  | nil => rfl
  | cons p ps ih =>
    obtain ⟨hp, hps⟩ := List.forall_mem_cons.1 h
    rw [printed, Piece.printed, if_pos hp, ok_bind, ih hps]
    rfl

theorem maxrem_eq {written : Nat} (h : written < intMax) :
    (((intMax : Int) - written) % 2 ^ 64).toNat = intMax - written := by
  unfold intMax at *
  omega

theorem text_eq {p : Piece} (hp : p.isText = true) :
    p.args = [] ∧ p.printed = .ok p.render ∧ p.render.length = 1 := by
  cases p with
  | char c h => exact ⟨rfl, if_pos trivial, rfl⟩
  | percent => exact ⟨rfl, if_pos trivial, rfl⟩
  | _ => cases hp

theorem turn_text {p : Piece} (hp : p.isText = true) (maxrem : Nat) (rest : List UInt8)
    (params : List Arg) (out : List UInt8) :
    first (p.chars ++ rest) ≠ 0 ∧ turn maxrem (p.chars ++ rest) params out =
      .ok (literal maxrem (p.chars ++ rest) params out) := by
  cases p with
  | char c h => exact ⟨h.1, if_pos (.inl h.2)⟩
  | percent =>
    have hfirst : (37 : UInt8) ≠ 0 := by decide
    exact ⟨hfirst, if_pos (.inr rfl)⟩
  | _ => cases hp

theorem turn_directive {p : Piece} (hp : p.isText = false) (maxrem : Nat) (rest : List UInt8)
    (params : List Arg) (out : List UInt8) :
    first (p.chars ++ rest) ≠ 0 ∧ turn maxrem (p.chars ++ rest) params out =
      directive maxrem (p.chars ++ rest) params out := by
  obtain ⟨hfirst, hsecond⟩ := first_directive hp rest
  refine ⟨by rw [hfirst]; decide, if_neg ?_⟩
  rintro (h | h)
  · exact h hfirst
  · exact hsecond h

theorem printfLoop_succ {fuel written : Nat} {format rest : List UInt8} {params params' : List Arg}
    {out text : List UInt8} (hfirst : first format ≠ 0) (hlt : written + text.length < intMax)
    (hturn : turn (intMax - written) format params out =
      .ok (.next rest params' (out ++ text) text.length)) :
    printfLoop (fuel + 1) format params out written =
      printfLoop fuel rest params' (out ++ text) (written + text.length : Nat) := by
  have hcount : signedOf 32 ((written : Int) + text.length) =
      .ok (written + text.length : Nat) := by
    unfold intMax at hlt
    exact signedOf_eq (by omega) (by omega)
  rw [printfLoop, if_neg hfirst, maxrem_eq (by omega), hturn, ok_bind]
  dsimp only
  rw [hcount, ok_bind]

theorem exists_run (ps : List Piece) : ∃ run rest, ps = run ++ rest ∧
    (∀ q ∈ run, q.isChar = true) ∧ ∀ q ∈ rest.head?, q.isChar = false := by
  refine ⟨ps.takeWhile Piece.isChar, ps.dropWhile Piece.isChar,
    List.takeWhile_append_dropWhile.symm, fun q hq => List.mem_takeWhile_imp hq, ?_⟩
  intro q hq
  have hhead := List.head?_dropWhile_not Piece.isChar ps
  rw [hq] at hhead
  simpa using hhead

theorem printfLoop_text {fuel written : Nat} {p : Piece} {run rest : List Piece} {out : List UInt8}
    (hp : p.isText = true) (hrun : ∀ q ∈ run, q.isChar = true)
    (hrest : ∀ q ∈ rest.head?, q.isChar = false)
    (hlt : written + (p.render ++ render run).length < intMax) :
    printfLoop (fuel + 1) (chars (p :: (run ++ rest))) (args (p :: (run ++ rest))) out written =
      printfLoop fuel (chars rest) (args rest) (out ++ (p.render ++ render run))
        (written + (p.render ++ render run).length : Nat) := by
  obtain ⟨hchars, hargs, hplain, -⟩ := chars_of_isChar hrun
  obtain ⟨hpargs, -, hone⟩ := text_eq hp
  obtain ⟨hfirst, hturn⟩ :=
    turn_text hp (intMax - written) (render run ++ chars rest) (args rest) out
  have hformat : chars (p :: (run ++ rest)) = p.chars ++ (render run ++ chars rest) := by
    rw [← hchars]
    simp [chars]
  have hparams : args (p :: (run ++ rest)) = args rest := by
    simpa [args, hpargs] using hargs
  have hroom : 1 + (render run).length ≤ intMax - written := by
    rw [List.length_append, hone] at hlt
    omega
  rw [hchars] at hplain
  rw [literal_eq hp hplain (head_chars hrest) hroom] at hturn
  rw [hformat, hparams, printfLoop_succ hfirst hlt hturn]

theorem printed_text {p : Piece} {run : List Piece} (hp : p.isText = true)
    (hrun : ∀ q ∈ run, q.isChar = true) (rest : List Piece) :
    printed (p :: (run ++ rest)) = (do
      let text ← printed rest
      return p.render ++ (render run ++ text)) := by
  obtain ⟨-, -, -, hprinted⟩ := chars_of_isChar hrun
  obtain ⟨-, hprender, -⟩ := text_eq hp
  rw [printed, hprender, ok_bind, hprinted]
  cases printed rest with
  | error e => rfl
  | ok text => rfl

/-- The loop puts out what is printed for the pieces, and counts it. -/
theorem printfLoop_eq : ∀ (fuel : Nat) (ps : List Piece) (out : List UInt8) (written : Nat),
    (chars ps).length < fuel → written + (render ps).length < intMax →
      printfLoop fuel (chars ps) (args ps) out written = (do
        let text ← printed ps
        return (((written + text.length : Nat) : Int), out ++ text)) := by
  intro fuel
  induction fuel with
  | zero =>
    intro ps out written hfuel
    exact absurd hfuel (Nat.not_lt_zero _)
  | succ fuel ih =>
    intro ps out written hfuel hlt
    cases ps with
    | nil =>
      show Except.ok ((written : Int), out) = Except.ok (((written + 0 : Nat) : Int), out ++ [])
      rw [Nat.add_zero, List.append_nil]
    | cons p ps =>
      cases hp : p.isText with
      | true =>
        obtain ⟨run, rest, rfl, hrun, hrest⟩ := exists_run ps
        have hlength : (render (p :: (run ++ rest))).length =
            (p.render ++ render run).length + (render rest).length := by
          simp [render, Nat.add_assoc]
        have hpchars := length_chars_pos p
        have hshort : (chars rest).length < (chars (p :: (run ++ rest))).length := by
          simp only [chars, List.flatMap_cons, List.flatMap_append, List.length_append]
          omega
        rw [hlength] at hlt
        rw [printfLoop_text hp hrun hrest (by omega), ih rest _ _ (by omega) (by omega),
          printed_text hp hrun]
        cases printed rest with
        | error e => rfl
        | ok text => simp [Nat.add_assoc]
      | false =>
        have hrender : (render (p :: ps)).length = p.render.length + (render ps).length :=
          List.length_append
        rw [hrender] at hlt
        obtain ⟨hfirst, hturn⟩ :=
          turn_directive hp (intMax - written) (chars ps) (p.args ++ args ps) out
        rw [directive_eq hp (by omega) (by unfold intMax at hlt; omega)] at hturn
        have hformat : chars (p :: ps) = p.chars ++ chars ps := rfl
        have hparams : args (p :: ps) = p.args ++ args ps := rfl
        rw [hformat, hparams, printed]
        cases hprinted : p.printed with
        | error e =>
          rw [hprinted] at hturn
          rw [printfLoop, if_neg hfirst, maxrem_eq (by omega), hturn]
          rfl
        | ok text =>
          have hle := congrArg List.length (Piece.of_printed hprinted).2
          have hpchars := length_chars_pos p
          rw [hformat, List.length_append] at hfuel
          rw [hprinted] at hturn
          rw [printfLoop_succ hfirst (by omega) hturn,
            ih ps _ _ (by omega) (by omega), ok_bind]
          cases printed ps with
          | error e => rfl
          | ok rest => simp [Nat.add_assoc]

/-- A format whose rendering is shorter than `INT_MAX` is rendered, and its length returned,
exactly if no signed number is the least of its type and no width exceeds the buffer. -/
theorem printf_renders_iff (ps : List Piece) (hlength : (render ps).length < intMax) :
    printf (chars ps) (args ps) = .ok ((render ps).length, render ps) ↔
      ∀ p ∈ ps, p.Supported := by
  have hrun : printf (chars ps) (args ps) = (do
      let text ← printed ps
      return (((0 + text.length : Nat) : Int), [] ++ text)) :=
    printfLoop_eq _ ps [] 0 (Nat.lt_succ_self _) (by omega)
  rw [hrun, ← printed_eq_render_iff]
  constructor
  · intro h
    obtain ⟨text, htext, -⟩ := exists_of_bind_eq_ok h
    rw [htext, (of_printed htext).2]
  · intro h
    rw [h, ok_bind, Nat.zero_add, List.nil_append]
    rfl

/-- `printf("%d%%", -7)` -/
theorem printf_renders_seven :
    printf [37, 100, 37, 37] [.int (-7)] = .ok (3, [45, 55, 37]) :=
  (printf_renders_iff [.d (-7), .percent] (by decide)).2 (by decide)

/-- The padding of `printf("%033x", 0)` goes on behind the buffer, and the negation of the least
`long long` does not fit. -/
theorem printf_least_number :
    ¬ (∀ ps : List Piece, (render ps).length < intMax →
        printf (chars ps) (args ps) = .ok ((render ps).length, render ps)) ∧
      printf [37, 48, 51, 51, 120] [.uint 0] = .error .outOfBounds ∧
      printf [37, 108, 108, 100] [.longlong Int64.minValue] = .error .overflow := by
  have hwide : printf [37, 48, 51, 51, 120] [.uint 0] = .error .outOfBounds := by decide
  refine ⟨fun h => ?_, hwide, by decide⟩
  have hright := h [.padded false [3, 3] 0] (by decide)
  exact nomatch hwide.symm.trans hright

end X86Kernel.Printf
