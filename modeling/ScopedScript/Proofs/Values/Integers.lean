import Mathlib.Data.Int.ModEq
import Mathlib.Tactic.NormNum
import ScopedScript.Machine.Operators

/-!
# Integer arithmetic and copies of a text

Integers are residues modulo `2 ^ 64`, taken between `-2 ^ 63` and `2 ^ 63 - 1`; `Int.bmod` picks
that residue. An operator is compared with the operation on integers of any size: squaring modulo
`2 ^ 64` computes the power of every exponent that a word holds, and the shifts multiply and divide
by a power of two.
-/

namespace ScopedScript

namespace OperandKind

theorem static_cases {kind : OperandKind} (h : kind ≠ .dynamic) :
    kind = .int ∨ kind = .float ∨ kind = .string := by
  cases kind <;> simp at h ⊢

end OperandKind

namespace Operator

/-- The operator gives this result on two values that are in no box, whatever static kind they are
known to have. On boxes around them, however many, it gives the result boxed. -/
def Computes (m : Module) (op : ArithOp) (a b : Value) (result : Except FaultCause Value) : Prop :=
  (∀ kind, kind ≠ .dynamic → arith m op kind a b = result) ∧
    ∀ a' b' : Value, a'.unboxed = a → b'.unboxed = b →
      arith m op .dynamic a' b' = result.map Value.boxed

/-- An operator that is defined on its operands computes what it is defined as. -/
theorem computes_of_apply (m : Module) {op : ArithOp} {a b : Value}
    {result : Except FaultCause Value} (h : apply op a b = result.map some) :
    Computes m op a b result := by
  constructor
  · intro kind hkind
    obtain rfl | rfl | rfl := OperandKind.static_cases hkind <;>
      cases result <;> simp [arith, h, bind, Except.bind, Except.map, pure, Except.pure]
  · rintro a' b' rfl rfl
    cases result <;> simp [arith, h, bind, Except.bind, Except.map, pure, Except.pure]

theorem apply_ints (op : ArithOp) (x y : Int64) :
    apply op (.int x) (.int y) = ((onInts op x y).map Value.int).map some := by
  simp only [apply]
  cases onInts op x y <;> rfl

theorem computes_ints (m : Module) (op : ArithOp) (x y : Int64) :
    Computes m op (.int x) (.int y) ((onInts op x y).map Value.int) :=
  computes_of_apply m (apply_ints op x y)

/-! ### Powers -/

/-- Integers that differ by a multiple of `2 ^ 64` have the same residue. -/
theorem toInt_eq_bmod {x : Int64} {n : Int} (h : x.toInt ≡ n [ZMOD 2 ^ 64]) :
    x.toInt = n.bmod (2 ^ 64) := by
  have residue : x.toInt = x.toInt.bmod (2 ^ 64) := (Int64.toInt_bmod x).symm
  rw [residue, ← Int.emod_bmod x.toInt, ← Int.emod_bmod n]
  exact congrArg (Int.bmod · (2 ^ 64)) h

theorem toInt_mul_modEq (x y : Int64) : (x * y).toInt ≡ x.toInt * y.toInt [ZMOD 2 ^ 64] := by
  rw [Int64.toInt_mul]
  exact Int.bmod_emod

/-- One squaring step halves the exponent, so that as many steps as the exponent has binary digits
compute the power. -/
theorem power_modEq (base : Int64) (exponent digits : Nat) (h : exponent < 2 ^ digits) :
    (power base exponent digits).toInt ≡ base.toInt ^ exponent [ZMOD 2 ^ 64] := by
  induction digits generalizing base exponent with
  | zero =>
    obtain rfl : exponent = 0 := by simpa using h
    simp [power]
  | succ digits ih =>
    have half : exponent / 2 < 2 ^ digits := by rw [Nat.pow_succ] at h; omega
    have square : (power (base * base) (exponent / 2) digits).toInt ≡
        base.toInt ^ (2 * (exponent / 2)) [ZMOD 2 ^ 64] :=
      calc _ ≡ (base * base).toInt ^ (exponent / 2) [ZMOD 2 ^ 64] := ih _ _ half
        _ ≡ (base.toInt * base.toInt) ^ (exponent / 2) [ZMOD 2 ^ 64] :=
          (toInt_mul_modEq base base).pow _
        _ = base.toInt ^ (2 * (exponent / 2)) := by rw [pow_mul, pow_two]
    simp only [power]
    split
    next odd =>
      have split : exponent = 2 * (exponent / 2) + 1 := by omega
      calc _ ≡ base.toInt * (power (base * base) (exponent / 2) digits).toInt [ZMOD 2 ^ 64] :=
            toInt_mul_modEq _ _
        _ ≡ base.toInt * base.toInt ^ (2 * (exponent / 2)) [ZMOD 2 ^ 64] := square.mul_left _
        _ = base.toInt ^ exponent := by conv_rhs => rw [split, pow_succ, mul_comm]
    next even =>
      have split : exponent = 2 * (exponent / 2) := by omega
      rw [split]
      simpa [← split] using square

theorem toInt_toNat_lt (y : Int64) : y.toInt.toNat < 2 ^ 64 := by
  have := y.toInt_lt
  omega

theorem toInt_power (x y : Int64) :
    (power x y.toInt.toNat 64).toInt = (x.toInt ^ y.toInt.toNat).bmod (2 ^ 64) :=
  toInt_eq_bmod (power_modEq x _ 64 (toInt_toNat_lt y))

/-! ### Quotients and shifts -/

theorem quotient_remainder (x y : Int64) :
    x.toInt = ((x / y).toInt * y.toInt + (x % y).toInt).bmod (2 ^ 64) := by
  refine toInt_eq_bmod ?_
  have quotient : (x / y).toInt ≡ x.toInt.tdiv y.toInt [ZMOD 2 ^ 64] := by
    rw [Int64.toInt_div]
    exact Int.bmod_emod
  calc x.toInt = x.toInt.tdiv y.toInt * y.toInt + x.toInt.tmod y.toInt := by
        rw [mul_comm, Int.mul_tdiv_add_tmod]
    _ ≡ (x / y).toInt * y.toInt + (x % y).toInt [ZMOD 2 ^ 64] := by
        rw [Int64.toInt_mod]
        exact (quotient.symm.mul_right _).add_right _

theorem toNat_eq_toInt {w : Nat} {b : BitVec w} (h : 0 ≤ b.toInt) : (b.toNat : Int) = b.toInt := by
  refine (BitVec.toInt_eq_toNat_of_msb ?_).symm
  simpa [BitVec.msb_eq_toInt] using h

/-- An amount in range is not reduced before the shift. -/
theorem smod_of_lt {y : Int64} (lower : 0 ≤ y.toInt) (upper : y.toInt < 64) :
    (y.toBitVec.smod 64).toNat = y.toInt.toNat := by
  have amount : (y.toBitVec.smod 64).toInt = y.toInt := by
    rw [BitVec.toInt_smod]
    exact Int.fmod_eq_of_lt lower upper
  have exact := toNat_eq_toInt (amount ▸ lower)
  omega

theorem toInt_shiftLeft {x y : Int64} (lower : 0 ≤ y.toInt) (upper : y.toInt < 64) :
    (x <<< y).toInt = (x.toInt * 2 ^ y.toInt.toNat).bmod (2 ^ 64) := by
  refine toInt_eq_bmod ?_
  rw [← Int64.toInt_toBitVec, Int64.toBitVec_shiftLeft, BitVec.shiftLeft_eq',
    smod_of_lt lower upper, BitVec.toInt_shiftLeft, Nat.shiftLeft_eq]
  calc _ ≡ (x.toBitVec.toNat : Int) * 2 ^ y.toInt.toNat [ZMOD 2 ^ 64] := by
        push_cast
        exact Int.bmod_emod
    _ ≡ x.toInt * 2 ^ y.toInt.toNat [ZMOD 2 ^ 64] := by
        refine Int.ModEq.mul_right _ ?_
        rw [← Int64.toInt_toBitVec, BitVec.toInt_eq_toNat_bmod]
        exact Int.bmod_emod.symm

/-- Division by a power of two, rounded down. -/
theorem toInt_shiftRight {x y : Int64} (lower : 0 ≤ y.toInt) (upper : y.toInt < 64) :
    (x >>> y).toInt = x.toInt / 2 ^ y.toInt.toNat := by
  rw [← Int64.toInt_toBitVec, Int64.toBitVec_shiftRight, BitVec.sshiftRight',
    BitVec.toInt_sshiftRight, smod_of_lt lower upper, Int.shiftRight_eq_div_pow,
    Int64.toInt_toBitVec]
  push_cast
  rfl

/-! ### Copies -/

theorem repeat_append (s : String) (n : Nat) :
    Nat.repeat (· ++ s) n "" = String.join (List.replicate n s) := by
  induction n with
  | zero => rfl
  | succ n ih =>
    rw [Nat.repeat, ih, List.replicate_succ', String.join_append]
    simp [String.join]

theorem join_replicate_empty (n : Nat) : String.join (List.replicate n "") = "" := by
  induction n with
  | zero => rfl
  | succ n ih => simpa [List.replicate_succ, String.join] using ih

/-- The copies have as many bytes as the product says that is held against the limit. -/
theorem utf8ByteSize_join_replicate (s : String) (n : Nat) :
    (String.join (List.replicate n s)).utf8ByteSize = s.utf8ByteSize * n := by
  induction n with
  | zero => rfl
  | succ n ih =>
    rw [List.replicate_succ, String.join_cons, String.utf8ByteSize_append, ih, Nat.mul_succ,
      Nat.add_comm]

theorem repeated_eq (s : String) (n : Int64) :
    repeated s n =
      if s.utf8ByteSize * n.toInt.toNat ≤ 2 ^ 30
      then .ok (String.join (List.replicate n.toInt.toNat s))
      else .error (.textTooLong (s.utf8ByteSize * n.toInt.toNat)) := by
  have limit : maxTextBytes = 2 ^ 30 := rfl
  simp only [repeated, limit]
  by_cases short : s.utf8ByteSize * n.toInt.toNat ≤ 2 ^ 30
  · rw [if_neg (by omega), if_pos short]
    split
    next empty =>
      obtain rfl : s = "" := String.isEmpty_iff.mp empty
      rw [join_replicate_empty]
      rfl
    next => rw [repeat_append]; rfl
  · rw [if_pos (by omega), if_neg short]
    rfl

theorem apply_copies (s : String) (n : Int64) :
    apply .mul (.string s) (.int n) = ((repeated s n).map Value.string).map some := by
  simp only [apply]
  cases repeated s n <;> rfl

/-! ### What the operators compute -/

variable (m : Module)

theorem computes_div (x y : Int64) :
    Computes m .div (.int x) (.int y)
      (if y = 0 then .error .divisionByZero else .ok (.int (x / y))) := by
  convert computes_ints m .div x y using 1
  simp only [onInts]
  split <;> rfl

theorem computes_mod (x y : Int64) :
    Computes m .mod (.int x) (.int y)
      (if y = 0 then .error .divisionByZero else .ok (.int (x % y))) := by
  convert computes_ints m .mod x y using 1
  simp only [onInts]
  split <;> rfl

theorem computes_pow (x y : Int64) :
    Computes m .pow (.int x) (.int y)
      (if y.toInt < 0 then .error (.negativeExponent y)
        else .ok (.int (power x y.toInt.toNat 64))) := by
  convert computes_ints m .pow x y using 1
  simp only [onInts, Int64.lt_iff_toInt_lt, Int64.toInt_zero]
  split <;> rfl

theorem outside_iff (y : Int64) : y < 0 ∨ 64 ≤ y ↔ ¬(0 ≤ y.toInt ∧ y.toInt < 64) := by
  have bound : (64 : Int64).toInt = 64 := rfl
  rw [Int64.lt_iff_toInt_lt, Int64.le_iff_toInt_le, Int64.toInt_zero, bound]
  omega

theorem computes_shl (x y : Int64) :
    Computes m .shl (.int x) (.int y)
      (if 0 ≤ y.toInt ∧ y.toInt < 64 then .ok (.int (x <<< y))
        else .error (.shiftOutOfRange y)) := by
  convert computes_ints m .shl x y using 1
  simp only [onInts, outside_iff, ite_not]
  split <;> rfl

theorem computes_shr (x y : Int64) :
    Computes m .shr (.int x) (.int y)
      (if 0 ≤ y.toInt ∧ y.toInt < 64 then .ok (.int (x >>> y))
        else .error (.shiftOutOfRange y)) := by
  convert computes_ints m .shr x y using 1
  simp only [onInts, outside_iff, ite_not]
  split <;> rfl

theorem computes_copies (s : String) (n : Int64) :
    Computes m .mul (.string s) (.int n)
      (if s.utf8ByteSize * n.toInt.toNat ≤ 2 ^ 30
        then .ok (.string (String.join (List.replicate n.toInt.toNat s)))
        else .error (.textTooLong (s.utf8ByteSize * n.toInt.toNat))) := by
  convert computes_of_apply m (apply_copies s n) using 1
  rw [repeated_eq]
  split <;> rfl

/-- A count of copies times the bytes of a text that is held in memory fits in 128 bits. -/
theorem product_lt (s : String) (n : Int64) (h : s.utf8ByteSize < 2 ^ 64) :
    s.utf8ByteSize * n.toInt.toNat < 2 ^ 128 :=
  calc _ < 2 ^ 64 * 2 ^ 64 := Nat.mul_lt_mul'' h (toInt_toNat_lt n)
    _ = 2 ^ 128 := by norm_num

/-- Sums, differences, products and powers are the exact ones modulo `2 ^ 64`, and so are the
quotient, cut off toward zero, with its remainder, and the shifts, the right one rounding down. A
divisor of zero, a negative exponent and a shift by fewer than 0 or more than 63 bits are the only
operands refused. A text times an integer is that many copies of it, none for a negative one,
unless their bytes are more than `2 ^ 30`; the fault then tells how many there would be. -/
theorem integer_arithmetic_exact :
    (∀ x y : Int64,
      (∃ r, Computes m .add (.int x) (.int y) (.ok (.int r)) ∧
        r.toInt = (x.toInt + y.toInt).bmod (2 ^ 64)) ∧
      (∃ r, Computes m .sub (.int x) (.int y) (.ok (.int r)) ∧
        r.toInt = (x.toInt - y.toInt).bmod (2 ^ 64)) ∧
      (∃ r, Computes m .mul (.int x) (.int y) (.ok (.int r)) ∧
        r.toInt = (x.toInt * y.toInt).bmod (2 ^ 64)) ∧
      (∃ q r,
        Computes m .div (.int x) (.int y) (if y = 0 then .error .divisionByZero else .ok (.int q)) ∧
        Computes m .mod (.int x) (.int y) (if y = 0 then .error .divisionByZero else .ok (.int r)) ∧
        q.toInt = (x.toInt.tdiv y.toInt).bmod (2 ^ 64) ∧ r.toInt = x.toInt.tmod y.toInt ∧
        x.toInt = (q.toInt * y.toInt + r.toInt).bmod (2 ^ 64)) ∧
      (∃ r,
        Computes m .pow (.int x) (.int y)
          (if y.toInt < 0 then .error (.negativeExponent y) else .ok (.int r)) ∧
        (0 ≤ y.toInt → r.toInt = (x.toInt ^ y.toInt.toNat).bmod (2 ^ 64))) ∧
      (∃ l r,
        Computes m .shl (.int x) (.int y)
          (if 0 ≤ y.toInt ∧ y.toInt < 64 then .ok (.int l) else .error (.shiftOutOfRange y)) ∧
        Computes m .shr (.int x) (.int y)
          (if 0 ≤ y.toInt ∧ y.toInt < 64 then .ok (.int r) else .error (.shiftOutOfRange y)) ∧
        (0 ≤ y.toInt ∧ y.toInt < 64 →
          l.toInt = (x.toInt * 2 ^ y.toInt.toNat).bmod (2 ^ 64) ∧
          r.toInt = x.toInt / 2 ^ y.toInt.toNat))) ∧
    (∀ (s : String) (n : Int64), ∃ copies : Nat, (copies : Int) = max n.toInt 0 ∧
      Computes m .mul (.string s) (.int n)
        (if s.utf8ByteSize * copies ≤ 2 ^ 30
          then .ok (.string (String.join (List.replicate copies s)))
          else .error (.textTooLong (s.utf8ByteSize * copies))) ∧
      (String.join (List.replicate copies s)).utf8ByteSize = s.utf8ByteSize * copies ∧
      (s.utf8ByteSize < 2 ^ 64 → s.utf8ByteSize * copies < 2 ^ 128)) := by
  refine ⟨fun x y => ⟨?sum, ?difference, ?product, ?quotient, ?power, ?shifts⟩, fun s n => ?copies⟩
  case sum => exact ⟨x + y, computes_ints m .add x y, Int64.toInt_add x y⟩
  case difference => exact ⟨x - y, computes_ints m .sub x y, Int64.toInt_sub x y⟩
  case product => exact ⟨x * y, computes_ints m .mul x y, Int64.toInt_mul x y⟩
  case quotient =>
    exact ⟨x / y, x % y, computes_div m x y, computes_mod m x y, Int64.toInt_div x y,
      Int64.toInt_mod x y, quotient_remainder x y⟩
  case power => exact ⟨_, computes_pow m x y, fun _ => toInt_power x y⟩
  case shifts =>
    exact ⟨x <<< y, x >>> y, computes_shl m x y, computes_shr m x y,
      fun h => ⟨toInt_shiftLeft h.1 h.2, toInt_shiftRight h.1 h.2⟩⟩
  case copies =>
    exact ⟨n.toInt.toNat, Int.toNat_eq_max n.toInt, computes_copies m s n,
      utf8ByteSize_join_replicate s _, product_lt s n⟩

end Operator

end ScopedScript
