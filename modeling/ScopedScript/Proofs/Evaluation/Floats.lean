import Mathlib

/-!
# Equal floats

Floats that are equal are the same, but for the two zeros. So where one constant stands for all
literals that are equal to it, a program without a negative zero has each of its literals among the
constants.
-/

namespace ScopedScript

open Float.Model (Format UnpackedFloat)
open Float.Model.UnpackedFloat

variable {b b' : BitVec Format.binary64.numBits}

/-- The bits of a float are its sign, its exponent and its mantissa. -/
theorem Float.bits_eq (hs : unpackSign b = unpackSign b')
    (he : unpackExponent b = unpackExponent b')
    (hm : unpackMantissa b = unpackMantissa b') : b = b' := by
  have hs := congrArg BitVec.toNat hs
  have he := congrArg BitVec.toNat he
  have hm := congrArg BitVec.toNat hm
  simp only [unpackSign, unpackExponent, unpackMantissa, BitVec.toNat_cast, BitVec.extractLsb_toNat,
    Nat.shiftRight_eq_div_pow] at hs he hm
  have hlt : b.toNat < 2 ^ 64 := b.isLt
  have hlt' : b'.toNat < 2 ^ 64 := b'.isLt
  apply BitVec.eq_of_toNat_eq
  omega

theorem Float.sign_injective {s s' : BitVec 1} (h : Sign.ofBitVec s = Sign.ofBitVec s') :
    s = s' := by
  have hbit : ∀ s : BitVec 1, s = 0#1 ∨ s = 1#1 := by decide
  rcases hbit s with rfl | rfl <;> rcases hbit s' with rfl | rfl
  · rfl
  · cases h
  · cases h
  · rfl

theorem Float.toNat_one_append (m : BitVec 52) : (1#1 ++ m).toNat = 2 ^ 52 + m.toNat := by
  rw [BitVec.toNat_append, ← Nat.shiftLeft_add_eq_or_of_lt m.isLt]
  rfl

/-- Unpacking loses nothing but what a NaN carries. -/
theorem Float.unpack_injective
    (h : UnpackedFloat.unpack .binary64 b = UnpackedFloat.unpack .binary64 b')
    (hn : UnpackedFloat.unpack .binary64 b ≠ .notANumber) : b = b' := by
  have hm : (unpackMantissa b).toNat < 2 ^ 52 := (unpackMantissa b).isLt
  have hm' : (unpackMantissa b').toNat < 2 ^ 52 := (unpackMantissa b').isLt
  have happ := toNat_one_append (unpackMantissa b)
  have happ' := toNat_one_append (unpackMantissa b')
  unfold UnpackedFloat.unpack at h hn
  dsimp only at h hn
  -- subnormal numbers have smaller mantissas than normal ones
  split_ifs at h hn
  · exact bits_eq (sign_injective (infinity.inj h))
      (‹unpackExponent b = -1#11›.trans ‹unpackExponent b' = -1#11›.symm)
      (‹unpackMantissa b = 0#52›.trans ‹unpackMantissa b' = 0#52›.symm)
  · exact absurd rfl hn
  · exact bits_eq (sign_injective (zero.inj h))
      (‹unpackExponent b = 0#11›.trans ‹unpackExponent b' = 0#11›.symm)
      (‹unpackMantissa b = 0#52›.trans ‹unpackMantissa b' = 0#52›.symm)
  · obtain ⟨hsign, hmantissa, -⟩ := finite.inj h
    exact bits_eq (sign_injective hsign)
      (‹unpackExponent b = 0#11›.trans ‹unpackExponent b' = 0#11›.symm)
      (BitVec.eq_of_toNat_eq hmantissa)
  · have hmantissa := (finite.inj h).2.1
    omega
  · have hmantissa := (finite.inj h).2.1
    omega
  · obtain ⟨hsign, hmantissa, hexponent⟩ := finite.inj h
    exact bits_eq (sign_injective hsign) (BitVec.eq_of_toNat_eq (by omega))
      (BitVec.eq_of_toNat_eq (by omega))

theorem Float.magnitude_eq {m m' : Nat} {e e' : Int}
    (h : (compare e e').then (compare m m') = .eq) : m = m' ∧ e = e' := by
  rw [Ordering.then_eq_eq, Std.compare_eq_iff_eq, Std.compare_eq_iff_eq] at h
  exact h.symm

/-- Numbers that compare as equal are the same or both zero. -/
theorem Float.compare_eq {u v : UnpackedFloat} (h : u.compare v = some .eq) :
    u = v ∨ ∃ s s', u = .zero s ∧ v = .zero s' := by
  cases u with
  | notANumber => cases h
  | infinity s =>
    cases v with
    | infinity s' => cases s <;> cases s' <;> first | exact .inl rfl | cases h
    | _ => cases s <;> cases h
  | zero s =>
    cases v with
    | zero s' => exact .inr ⟨s, s', rfl, rfl⟩
    | notANumber => cases h
    | infinity s' | finite s' m e hm => cases s' <;> cases h
  | finite s m e hm =>
    cases v with
    | finite s' m' e' hm' =>
      cases s <;> cases s'
      · obtain ⟨rfl, rfl⟩ := magnitude_eq (Ordering.swap_eq_eq.1 (Option.some.inj h))
        exact .inl rfl
      · cases h
      · cases h
      · obtain ⟨rfl, rfl⟩ := magnitude_eq (Option.some.inj h)
        exact .inl rfl
    | notANumber => cases h
    | infinity s' => cases s' <;> cases s <;> cases h
    | zero s' => cases s <;> cases h

theorem Float.eq_of_unpack {x y : Float} (h : x.toModel.unpack = y.toModel.unpack)
    (hn : x.toModel.unpack ≠ .notANumber) : x = y := by
  obtain ⟨⟨a, ha⟩⟩ := x
  obtain ⟨⟨c, hc⟩⟩ := y
  obtain rfl : a = c := UInt64.toBitVec_inj.1 (unpack_injective h hn)
  rfl

theorem Float.eq_negZero {x : Float} (h : x.toModel.unpack = .zero .negative) : x = -0.0 := by
  have hzero : (-0.0 : Float).toModel.unpack = .zero .negative := rfl
  exact eq_of_unpack (h.trans hzero.symm) (by rw [h]; exact nofun)

/-- Floats that are equal and no negative zeros are the same. -/
theorem Float.eq_of_beq {x y : Float} (h : (x == y) = true) (hx : x ≠ -0.0)
    (hy : y ≠ -0.0) : x = y := by
  have hcompare : x.toModel.unpack.compare y.toModel.unpack = some .eq := beq_iff_eq.1 h
  rcases compare_eq hcompare with hsame | ⟨s, s', hxs, hys⟩
  · refine eq_of_unpack hsame fun hn => ?_
    rw [hn] at hcompare
    cases hcompare
  · cases s with
    | negative => exact absurd (eq_negZero hxs) hx
    | positive =>
      cases s' with
      | negative => exact absurd (eq_negZero hys) hy
      | positive => exact eq_of_unpack (hxs.trans hys.symm) (by rw [hxs]; exact nofun)

theorem Float.eq_posZero {x : Float} (h : x.toModel.unpack = .zero .positive) : x = 0.0 := by
  have hzero : (0.0 : Float).toModel.unpack = .zero .positive := rfl
  exact eq_of_unpack (h.trans hzero.symm) (by rw [h]; exact nofun)

/-- Equal floats are the same or the two zeros. -/
theorem Float.eq_or_zeros {x y : Float} (h : (x == y) = true) :
    x = y ∨ x = 0.0 ∧ y = -0.0 ∨ x = -0.0 ∧ y = 0.0 := by
  have hcompare : x.toModel.unpack.compare y.toModel.unpack = some .eq := beq_iff_eq.1 h
  rcases compare_eq hcompare with hsame | ⟨s, s', hx, hy⟩
  · refine .inl (eq_of_unpack hsame fun hn => ?_)
    rw [hn] at hcompare
    cases hcompare
  · cases s <;> cases s'
    · exact .inl ((eq_negZero hx).trans (eq_negZero hy).symm)
    · exact .inr (.inr ⟨eq_negZero hx, eq_posZero hy⟩)
    · exact .inr (.inl ⟨eq_posZero hx, eq_negZero hy⟩)
    · exact .inl ((eq_posZero hx).trans (eq_posZero hy).symm)

theorem Float.compare_self (u : UnpackedFloat) : u.compare u = some .eq ↔ u.isNaN = false := by
  cases u with
  | notANumber => exact ⟨nofun, nofun⟩
  | infinity s => cases s <;> exact ⟨fun _ => rfl, fun _ => rfl⟩
  | zero s => exact ⟨fun _ => rfl, fun _ => rfl⟩
  | finite s m e hm => cases s <;> simp [UnpackedFloat.compare, UnpackedFloat.isNaN]

/-- A float is equal to itself unless it is NaN. -/
theorem Float.beq_self_iff (x : Float) : (x == x) = true ↔ x.isNaN = false := by
  change (x.toModel.unpack.compare x.toModel.unpack == some .eq) = true ↔ _
  rw [beq_iff_eq]
  exact compare_self _

end ScopedScript
