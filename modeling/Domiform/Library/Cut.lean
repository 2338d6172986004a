import Mathlib.Tactic

/-! Floats cut to bytes. A float that is not above a bound is cut to no more than the bound is, and a
float that is no number, or negative, is cut to zero. -/
namespace Library
open Float.Model UnpackedFloat

theorem mantissa_shiftRight (em : ExtendedMantissa) (n : ℕ) :
    (em >>> n).mantissa = em.mantissa/2^n := by
  change (n.repeat ExtendedMantissa.shiftRightOne em).mantissa = _
  induction n with
  | zero => simp [Nat.repeat]
  | succ n ih =>
    rw [Nat.repeat,ExtendedMantissa.shiftRightOne,ih,Nat.div_div_eq_div_mul,pow_succ]

/-- Without a whole part beyond the mantissa, cutting drops the bits behind the point. -/
theorem roundToInt_of_nonpos (m : ℕ) {e : ℤ} (he : e ≤ 0) :
    roundToInt .positive m e = (m/2^(-e).toNat : ℕ) := by
  have h0 : e.toNat = 0 := Int.toNat_of_nonpos he
  simp [roundToInt,decreaseExponent,shiftToExponent,h0,mantissa_shiftRight,Sign.apply,
    ExtendedMantissa.ofMantissaAndAccuracy]

theorem mantissa_lt {b : BitVec 64} {s : Sign} {m : ℕ} {e : ℤ} {h : 0 < m}
    (hu : UnpackedFloat.unpack Format.binary64 b = .finite s m e h) : m < 2^53 := by
  unfold UnpackedFloat.unpack at hu
  dsimp only at hu
  by_cases hmax : @unpackExponent Format.binary64 b = -1#_
  · rw [if_pos hmax] at hu
    by_cases hzero : @unpackMantissa Format.binary64 b = 0#_
    · rw [if_pos hzero] at hu
      cases hu
    · rw [if_neg hzero] at hu
      cases hu
  · rw [if_neg hmax] at hu
    by_cases hmin : @unpackExponent Format.binary64 b = 0#_
    · rw [if_pos hmin] at hu
      by_cases hzero : @unpackMantissa Format.binary64 b = 0#_
      · rw [dif_pos hzero] at hu
        cases hu
      · rw [dif_neg hzero] at hu
        cases hu
        have := (@unpackMantissa Format.binary64 b).isLt
        omega
    · rw [if_neg hmin] at hu
      cases hu
      exact BitVec.isLt _

theorem toInt_finite (low high : ℤ) (s : Sign) (m : ℕ) (e : ℤ) (h : 0 < m) :
    (UnpackedFloat.finite s m e h).toInt low high = roundToInt s m e := rfl

theorem toNat_ofNatClamp_le (n : ℕ) : (UInt8.ofNatClamp n).toNat ≤ n := by
  unfold UInt8.ofNatClamp
  split_ifs with h
  · exact le_rfl
  · exact Nat.le_of_lt (not_lt.mp h)

/-- What is not above a normal number without a whole part beyond its mantissa is cut to at most
what that number is cut to. -/
theorem toUInt8_le {x y : Float} {m : ℕ} {e : ℤ} {h : 0 < m}
    (hy : y.toModel.unpack = .finite .positive m e h) (normal : 2^52 ≤ m) (he : e ≤ 0)
    (hx : ¬y < x) : x.toUInt8.toNat ≤ m/2^(-e).toNat := by
  apply (toNat_ofNatClamp_le _).trans
  have hlt : y.toModel.unpack.compare x.toModel.unpack ≠ some .lt := by
    intro hc
    have hlt : y.toModel < x.toModel := by
      change y.toModel.unpack.lt x.toModel.unpack = true
      rw [UnpackedFloat.lt,hc]
      rfl
    exact hx (decide_eq_true hlt)
  rw [hy] at hlt
  cases hu : x.toModel.unpack with
  | notANumber | zero => exact Nat.zero_le _
  | infinity s =>
    cases s with
    | positive =>
      rw [hu] at hlt
      exact absurd rfl hlt
    | negative => exact Nat.zero_le _
  | finite s m' e' h' =>
    cases s with
    | negative =>
      have hneg : roundToInt .negative m' e' ≤ 0 := neg_nonpos.mpr (Int.natCast_nonneg _)
      rw [toInt_finite,Int.toNat_of_nonpos hneg]
      exact Nat.zero_le _
    | positive =>
      have hm := mantissa_lt hu
      rw [hu] at hlt
      change some ((compare e e').then (compare m m')) ≠ some .lt at hlt
      have hle : e' < e ∨ e' = e ∧ m' ≤ m := by
        rcases lt_trichotomy e' e with hlt' | rfl | hgt
        · exact .inl hlt'
        · refine .inr ⟨rfl,not_lt.mp fun hm' => hlt ?_⟩
          simp [Nat.compare_eq_lt.mpr hm']
        · refine absurd ?_ hlt
          simp [compare_lt_iff_lt.mpr hgt]
      have he' : e' ≤ 0 := by omega
      rw [toInt_finite,roundToInt_of_nonpos m' he',Int.toNat_natCast]
      rcases hle with hlt' | ⟨rfl,hm'⟩
      · -- one bit more behind the point outweighs any mantissa
        have hk : (-e).toNat+1 ≤ (-e').toNat := by omega
        calc m'/2^(-e').toNat ≤ m'/2^((-e).toNat+1) :=
              Nat.div_le_div_left (Nat.pow_le_pow_right (by omega) hk) (by positivity)
          _ = m'/2/2^(-e).toNat := by rw [pow_succ',Nat.div_div_eq_div_mul]
          _ ≤ m/2^(-e).toNat := Nat.div_le_div_right (by omega)
      · exact Nat.div_le_div_right hm'

end Library
