import Mathlib.Algebra.Order.Ring.Nat
import CodeGraph.Json.Decode

/-!
# Doubles that are read are finite

A numeral gives a finite double or none. Its digits are a word, and the word is multiplied by a power
of ten, where an infinite product is refused, or divided by one. A product of finite doubles is never
a NaN (`isNaN_mul`), and a quotient by ten or more stays below the largest double (`isFinite_div`):
what is rounded has a bit less before the point than the dividend, and rounding adds at most one
(`isFinite_round`).

* `double?_isFinite`: a numeral gives a finite double.
* `isFinite_ofInt`: so does an integer of a document.
-/

namespace CodeGraph.Json

open Float.Model Float.Model.UnpackedFloat

/-! ## Rounding -/

theorem mantissa_shiftRight (em : ExtendedMantissa) (k : Nat) :
    (em >>> k).mantissa = em.mantissa / 2 ^ k := by
  induction k with
  | zero => exact (Nat.div_one _).symm
  | succ k ih =>
    have hstep : (em >>> (k + 1)).mantissa = (em >>> k).mantissa / 2 := rfl
    rw [hstep, ih, Nat.div_div_eq_div_mul, Nat.pow_succ]

theorem roundedMantissa_bounds (em : ExtendedMantissa) :
    em.mantissa ≤ em.roundedMantissa ∧ em.roundedMantissa ≤ em.mantissa + 1 := by
  obtain ⟨m, r, s⟩ := em
  cases r <;> cases s
  all_goals simp only [ExtendedMantissa.roundedMantissa, ExtendedMantissa.accuracy,
    Accuracy.roundToNearestEven]
  all_goals omega

theorem mantissa_ofMantissaAndAccuracy (m : Nat) (a : Accuracy) :
    (ExtendedMantissa.ofMantissaAndAccuracy m a).mantissa = m := by
  rcases a with _ | o
  · rfl
  · cases o <;> rfl

/-- The exponent of the last bit that is kept of a mantissa. -/
def lastExponent (m : Nat) (e : Int) : Int :=
  max ((m.log2 : Int) + e - 52) (-1074)

theorem targetExponent_eq (m : Nat) (e : Int) :
    Format.binary64.targetExponent (totalExponent m e) = lastExponent m e := by
  have hbits : Format.binary64.mantissaBits = 53 := rfl
  simp only [Format.targetExponent, totalExponent, Format.minExponent, hbits, lastExponent]
  omega

/-- What a mantissa is rounded to: a bit is dropped once more if all were set. -/
def carried (s : Sign) (r : Nat) (e : Int) : UnpackedFloat :=
  if h : r = 0 then .zero s
  else if r < 2 ^ 53 then .finite s r e (Nat.pos_of_ne_zero h)
  else .finite s (2 ^ 52) (e + 1) (by decide)

theorem carried_cases (s : Sign) (r : Nat) (e : Int) :
    carried s r e = .zero s ∨ ∃ m e' hm, carried s r e = .finite s m e' hm ∧ e' ≤ e + 1 := by
  by_cases hzero : r = 0
  · exact .inl (dif_pos hzero)
  by_cases hr : r < 2 ^ 53
  · exact .inr ⟨_, _, _, (dif_neg hzero).trans (if_pos hr), by omega⟩
  · exact .inr ⟨_, _, _, (dif_neg hzero).trans (if_neg hr), Int.le_refl _⟩

theorem shiftToTargetExponent_eq (m : Nat) (e : Int) (a : Accuracy) :
    (shiftToTargetExponent Format.binary64 m e a).1.mantissa =
        m / 2 ^ (lastExponent m e - e).toNat ∧
      (shiftToTargetExponent Format.binary64 m e a).2 = e + (lastExponent m e - e).toNat := by
  rw [shiftToTargetExponent, targetExponent_eq, shiftToExponent, mantissa_shiftRight,
    mantissa_ofMantissaAndAccuracy]
  exact ⟨rfl, rfl⟩

theorem round_eq_carried (s : Sign) (m : Nat) (e : Int) (a : Accuracy) :
    ∃ k r : Nat, e + k = max e (lastExponent m e) ∧ m / 2 ^ k ≤ r ∧ r ≤ m / 2 ^ k + 1 ∧
      r ≤ 2 ^ 53 ∧ roundWithAccuracy Format.binary64 s m e a = carried s r (e + k) := by
  obtain ⟨hmantissa, hexponent⟩ := shiftToTargetExponent_eq m e a
  have hlast : (m.log2 : Int) + e - 52 ≤ lastExponent m e ∧ -1074 ≤ lastExponent m e :=
    ⟨Int.le_max_left .., Int.le_max_right ..⟩
  rcases hfirst : shiftToTargetExponent Format.binary64 m e a with ⟨em, e₁⟩
  rw [hfirst] at hmantissa hexponent
  generalize hk : (lastExponent m e - e).toNat = k at hmantissa hexponent
  obtain rfl : e₁ = e + k := hexponent
  obtain ⟨hlow, hhigh⟩ := roundedMantissa_bounds em
  rw [show em.mantissa = m / 2 ^ k from hmantissa] at hlow hhigh
  have hfew : m / 2 ^ k < 2 ^ 53 := by
    rw [Nat.div_lt_iff_lt_mul (Nat.two_pow_pos k), ← Nat.pow_add]
    exact Nat.lt_of_lt_of_le Nat.lt_log2_self (Nat.pow_le_pow_right (by decide) (by omega))
  refine ⟨k, em.roundedMantissa, by omega, hlow, hhigh, by omega, ?_⟩
  -- The second shift drops a bit only if rounding has made one more.
  obtain ⟨hmantissa₂, hexponent₂⟩ := shiftToTargetExponent_eq em.roundedMantissa (e + k) .exact
  rw [roundWithAccuracy, hfirst]
  dsimp only
  rcases Nat.lt_or_ge em.roundedMantissa (2 ^ 53) with hr | hr
  · have hlog : em.roundedMantissa.log2 ≤ 52 := by
      rcases Nat.eq_zero_or_pos em.roundedMantissa with hzero | hpos
      · rw [hzero]
        decide
      · have hlog := (Nat.log2_lt (Nat.ne_of_gt hpos)).2 hr
        omega
    have hnone : (lastExponent em.roundedMantissa (e + k) - (e + k)).toNat = 0 := by
      rw [lastExponent]
      omega
    rw [hnone] at hmantissa₂ hexponent₂
    simp only [Nat.pow_zero, Nat.div_one] at hmantissa₂
    by_cases hzero : em.roundedMantissa = 0
    · rw [dif_pos (hmantissa₂.trans hzero), carried, dif_pos hzero]
    · rw [dif_neg fun h => hzero (hmantissa₂.symm.trans h), carried, dif_neg hzero, if_pos hr]
      exact (UnpackedFloat.finite.injEq ..).mpr
        ⟨rfl, hmantissa₂, hexponent₂.trans (Int.add_zero _)⟩
  · have hr : em.roundedMantissa = 2 ^ 53 := by omega
    have hone : (lastExponent em.roundedMantissa (e + k) - (e + k)).toNat = 1 := by
      rw [lastExponent, hr, Nat.log2_two_pow]
      omega
    rw [hone] at hmantissa₂ hexponent₂
    have hhalf : em.roundedMantissa / 2 ^ 1 = 2 ^ 52 := by omega
    rw [hhalf] at hmantissa₂
    rw [dif_neg (by omega), carried, dif_neg (by omega), if_neg (by omega)]
    exact (UnpackedFloat.finite.injEq ..).mpr ⟨rfl, hmantissa₂, hexponent₂⟩

/-! ## Packing -/

theorem pack_finite (s : Sign) (m : Nat) (e : Int) (hm : 0 < m) :
    UnpackedFloat.pack Format.binary64 (.finite s m e hm) =
      if 2 ^ 11 ≤ (e + 1023 + 52).toNat + 1 then packedInfinity Format.binary64 s
      else if m.log2 + 1 = 53 then
        packComponents Format.binary64 s (BitVec.ofNat 11 (e + 1023 + 52).toNat) (BitVec.ofNat 52 m)
      else packComponents Format.binary64 s 0#11 (BitVec.ofNat 52 m) := rfl

/-- A mantissa of 53 bits has the first of them. -/
theorem le_toNat_lead (b : BitVec 52) : 2 ^ 52 ≤ (1#1 ++ b).toNat := by
  rw [BitVec.toNat_append]
  exact Nat.left_le_or

theorem unpack_binary64 (b : BitVec Format.binary64.numBits) :
    UnpackedFloat.unpack Format.binary64 b =
      if unpackExponent b = -1#11 then
        if unpackMantissa b = 0#52 then .infinity (Sign.ofBitVec (unpackSign b)) else .notANumber
      else if unpackExponent b = 0#11 then
        if h : unpackMantissa b = 0#52 then .zero (Sign.ofBitVec (unpackSign b))
        else .finite (Sign.ofBitVec (unpackSign b)) (unpackMantissa b).toNat
          ((unpackExponent b).toNat - 1075 + 1)
          ((BitVec.toNat_pos _).2 ((BitVec.pos_iff_ne_zero _).2 h))
      else .finite (Sign.ofBitVec (unpackSign b)) (1#1 ++ unpackMantissa b).toNat
        ((unpackExponent b).toNat - 1075)
        (Nat.lt_of_lt_of_le (by decide) (le_toNat_lead (unpackMantissa b))) := rfl

/-- With an exponent of ones a double is infinite or no number, else it is finite and not too large. -/
theorem unpack_cases (b : BitVec Format.binary64.numBits) :
    (@unpackExponent Format.binary64 b = -1#11 ∧
      (UnpackedFloat.unpack Format.binary64 b).isFinite = false) ∨
    (∃ s, UnpackedFloat.unpack Format.binary64 b = .zero s) ∨
    ∃ s m e hm, UnpackedFloat.unpack Format.binary64 b = .finite s m e hm ∧ m < 2 ^ 53 ∧
      e ≤ 971 := by
  rw [unpack_binary64]
  by_cases htop : @unpackExponent Format.binary64 b = -1#11
  · rw [if_pos htop]
    by_cases hmantissa : @unpackMantissa Format.binary64 b = 0#52
    · exact .inl ⟨htop, congrArg UnpackedFloat.isFinite (if_pos hmantissa)⟩
    · exact .inl ⟨htop, congrArg UnpackedFloat.isFinite (if_neg hmantissa)⟩
  rw [if_neg htop]
  by_cases hzero : @unpackExponent Format.binary64 b = 0#11
  · rw [if_pos hzero]
    by_cases hmantissa : @unpackMantissa Format.binary64 b = 0#52
    · exact .inr (.inl ⟨_, dif_pos hmantissa⟩)
    · refine .inr (.inr ⟨_, _, _, _, dif_neg hmantissa, ?_, ?_⟩)
      · exact Nat.lt_trans (BitVec.isLt _) (by decide)
      · rw [hzero]
        decide
  · refine .inr (.inr ⟨_, _, _, _, if_neg hzero, BitVec.isLt _, ?_⟩)
    rw [BitVec.neg_one_eq_allOnes, ← BitVec.toNat_inj, BitVec.toNat_allOnes] at htop
    have hlt : (@unpackExponent Format.binary64 b).toNat < 2048 := BitVec.isLt _
    have hones : 2 ^ Format.binary64.exponentBits - 1 = 2047 := by decide
    omega

theorem isFinite_unpack {b : BitVec Format.binary64.numBits}
    (h : @unpackExponent Format.binary64 b ≠ -1#11) :
    (UnpackedFloat.unpack Format.binary64 b).isFinite = true := by
  rcases unpack_cases b with ⟨htop, -⟩ | ⟨s, hzero⟩ | ⟨s, m, e, hm, hunpack, -⟩
  · exact absurd htop h
  · rw [hzero]
    rfl
  · rw [hunpack]
    rfl

theorem isFinite_pack_zero (s : Sign) : (Float.Model.pack (.zero s)).isFinite = true := by
  cases s <;> decide

theorem isFinite_pack_finite (s : Sign) {m : Nat} {e : Int} (hm : 0 < m) (he : e ≤ 971) :
    (Float.Model.pack (.finite s m e hm)).isFinite = true := by
  refine isFinite_unpack ?_
  change unpackExponent (UnpackedFloat.pack Format.binary64 (.finite s m e hm)) ≠ _
  rw [pack_finite, if_neg (by omega)]
  split
  · rw [unpackExponent_packComponents, BitVec.neg_one_eq_allOnes, ne_eq, ← BitVec.toNat_inj]
    simp only [BitVec.toNat_ofNat, BitVec.toNat_allOnes]
    omega
  · rw [unpackExponent_packComponents]
    decide

theorem pack_finite_of_lt (s : Sign) {m : Nat} {e : Int} (hm : 0 < m) (he : 971 < e) :
    Float.Model.pack (.finite s m e hm) = Float.Model.pack (.infinity s) := by
  rw [Float.Model.pack, Float.Model.pack]
  congr 2
  rw [pack_finite, if_pos (by omega)]
  rfl

theorem isNaN_eq (x : Float.Model) : x.isNaN = (!x.isFinite && !x.isInf) := by
  rw [Float.Model.isNaN, Float.Model.isFinite, Float.Model.isInf]
  cases x.unpack <;> rfl

theorem isNaN_pack {f : UnpackedFloat} (hf : f.isNaN = false) :
    (Float.Model.pack f).isNaN = false := by
  rcases f with s | _ | s | ⟨s, m, e, hm⟩
  · cases s <;> decide
  · cases hf
  · cases s <;> decide
  · by_cases he : e ≤ 971
    · rw [isNaN_eq, isFinite_pack_finite s hm he]
      rfl
    · rw [pack_finite_of_lt s hm (by omega)]
      cases s <;> decide

theorem isFinite_pack_carried (s : Sign) {r : Nat} {e : Int} (he : e ≤ 970) :
    (Float.Model.pack (carried s r e)).isFinite = true := by
  rcases carried_cases s r e with hzero | ⟨m, e', hm, hcarried, he'⟩
  · rw [hzero]
    exact isFinite_pack_zero s
  · rw [hcarried]
    exact isFinite_pack_finite s hm (by omega)

/-- What is below `2 ^ 1023` is rounded to a finite double. -/
theorem isFinite_round (s : Sign) {m : Nat} {e : Int} (a : Accuracy)
    (hm : (m.log2 : Int) + e ≤ 1022) (he : e ≤ 970) :
    (Float.Model.pack (roundWithAccuracy Format.binary64 s m e a)).isFinite = true := by
  obtain ⟨k, r, hk, -, -, -, hround⟩ := round_eq_carried s m e a
  rw [hround]
  refine isFinite_pack_carried s ?_
  rw [hk, lastExponent]
  omega

theorem isNaN_round (s : Sign) (m : Nat) (e : Int) (a : Accuracy) :
    (roundWithAccuracy Format.binary64 s m e a).isNaN = false := by
  obtain ⟨k, r, -, -, -, -, hround⟩ := round_eq_carried s m e a
  rcases carried_cases s r (e + k) with hzero | ⟨m', e', hm, hcarried, -⟩
  · rw [hround, hzero]
    rfl
  · rw [hround, hcarried]
    rfl

/-! ## Unpacking -/

/-- How large the parts of a finite double are. -/
theorem unpack_bounds {x : Float.Model} {s : Sign} {m : Nat} {e : Int} {hm : 0 < m}
    (h : x.unpack = .finite s m e hm) : m.log2 ≤ 52 ∧ e ≤ 971 := by
  change UnpackedFloat.unpack Format.binary64 x.toBits.toBitVec = _ at h
  rcases unpack_cases x.toBits.toBitVec with ⟨-, hinfinite⟩ | ⟨s', hzero⟩ |
    ⟨s', m', e', hm', hunpack, hlt, he⟩
  · rw [h] at hinfinite
    cases hinfinite
  · cases h.symm.trans hzero
  · cases h.symm.trans hunpack
    have hlog := (Nat.log2_lt (Nat.ne_of_gt hm)).2 hlt
    exact ⟨by omega, he⟩

/-- A mantissa of 53 bits is unpacked with the exponent it is packed with. -/
theorem unpack_pack_normal (s : Sign) {m : Nat} {e : Int} (hm : 0 < m) (hlog : m.log2 = 52)
    (hlow : -1074 ≤ e) (hhigh : e ≤ 971) :
    ∃ s' m' hm', (Float.Model.pack (.finite s m e hm)).unpack = .finite s' m' e hm' ∧
      m'.log2 = 52 := by
  change ∃ s' m' hm', UnpackedFloat.unpack Format.binary64
    (UnpackedFloat.pack Format.binary64 (.finite s m e hm)) = _ ∧ _
  rw [pack_finite, if_neg (by omega), if_pos (by omega)]
  generalize hbiased : (e + 1023 + 52).toNat = biased
  have hnat : (BitVec.ofNat 11 biased).toNat = biased := by
    rw [BitVec.toNat_ofNat, Nat.mod_eq_of_lt (by omega)]
  have htop : BitVec.ofNat 11 biased ≠ -1#_ := by
    intro h
    have h : biased = 2047 := hnat.symm.trans (congrArg BitVec.toNat h)
    omega
  have hzero : BitVec.ofNat 11 biased ≠ 0#_ := by
    intro h
    have h : biased = 0 := hnat.symm.trans (congrArg BitVec.toNat h)
    omega
  rw [unpack_binary64, unpackExponent_packComponents, unpackMantissa_packComponents, if_neg htop,
    if_neg hzero]
  have hexponent : ((BitVec.ofNat 11 biased).toNat : Int) - 1075 = e := by
    rw [hnat]
    omega
  have hlead := le_toNat_lead (BitVec.ofNat 52 m)
  refine ⟨_, (1#1 ++ BitVec.ofNat 52 m).toNat, Nat.lt_of_lt_of_le (by decide) hlead,
    congrArg (fun e => UnpackedFloat.finite _ _ e _) hexponent, ?_⟩
  refine (Nat.log2_eq_iff (Nat.ne_of_gt (Nat.lt_of_lt_of_le (by decide) hlead))).2 ⟨hlead, ?_⟩
  exact BitVec.isLt _

theorem log2_shiftLeft {m : Nat} (hm : 0 < m) (k : Nat) : (m <<< k).log2 = m.log2 + k := by
  induction k with
  | zero => rfl
  | succ k ih =>
    have hpos : m <<< k ≠ 0 := Nat.ne_of_gt (Nat.shiftLeft_pos_iff.2 hm)
    rw [Nat.shiftLeft_succ, Nat.log2_two_mul hpos, ih, Nat.add_assoc]

/-- What is rounded to 53 bits keeps its size, or is next to the next power of two. -/
theorem exists_unpack_round (s : Sign) {m : Nat} {e : Int} (hm : 52 ≤ m.log2)
    (hlow : -1022 ≤ (m.log2 : Int) + e) (hhigh : (m.log2 : Int) + e ≤ 1022) :
    ∃ s' m' e' hm', (Float.Model.pack
        (roundWithAccuracy Format.binary64 s m e .exact)).unpack = .finite s' m' e' hm' ∧
      m'.log2 = 52 ∧ (m.log2 : Int) + e ≤ m'.log2 + e' ∧
      (m'.log2 : Int) + e' ≤ m.log2 + e + 1 := by
  obtain ⟨k, r, hk, hfloor, -, hr, hround⟩ := round_eq_carried s m e .exact
  rw [lastExponent] at hk
  have hm0 : m ≠ 0 := by
    rintro rfl
    rw [Nat.log2_zero] at hm
    omega
  have hlead : 2 ^ 52 ≤ r := by
    refine Nat.le_trans ((Nat.le_div_iff_mul_le (Nat.two_pow_pos k)).2 ?_) hfloor
    rw [← Nat.pow_add]
    exact Nat.le_trans (Nat.pow_le_pow_right (by decide) (by omega)) (Nat.log2_self_le hm0)
  have hr0 : r ≠ 0 := Nat.ne_of_gt (Nat.lt_of_lt_of_le (by decide) hlead)
  rw [hround, carried, dif_neg hr0]
  by_cases hsmall : r < 2 ^ 53
  · rw [if_pos hsmall]
    have hlog : r.log2 = 52 := (Nat.log2_eq_iff hr0).2 ⟨hlead, hsmall⟩
    obtain ⟨s', m', hm', hunpack, hlog'⟩ :=
      unpack_pack_normal s (Nat.pos_of_ne_zero hr0) hlog (by omega : -1074 ≤ e + k) (by omega)
    exact ⟨s', m', _, hm', hunpack, hlog', by omega, by omega⟩
  · rw [if_neg hsmall]
    obtain ⟨s', m', hm', hunpack, hlog'⟩ :=
      unpack_pack_normal s (by decide) (Nat.log2_two_pow (n := 52))
        (by omega : -1074 ≤ e + k + 1) (by omega)
    exact ⟨s', m', _, hm', hunpack, hlog', by omega, by omega⟩

/-! ## Arithmetic -/

theorem isNaN_mul {x y : Float} (hx : x.isFinite = true) (hy : y.isFinite = true) :
    (x * y).isNaN = false := by
  have hmul : ∀ f g : UnpackedFloat, f.isFinite = true → g.isFinite = true →
      (UnpackedFloat.mul Format.binary64 f g).isNaN = false := by
    intro f g hf hg
    cases f with
    | infinity | notANumber => cases hf
    | zero s =>
      cases g with
      | infinity | notANumber => cases hg
      | zero s' | finite s' m e hm => rfl
    | finite s m e hm =>
      cases g with
      | infinity | notANumber => cases hg
      | zero s' => rfl
      | finite s' m' e' hm' => exact isNaN_round ..
  exact isNaN_pack (hmul _ _ hx hy)

theorem log2_shiftLeft_div (m k : Nat) {n : Nat} (hn : 0 < n) :
    (m <<< k / n).log2 + n.log2 ≤ m.log2 + k ∨ m <<< k / n = 0 := by
  rcases Nat.eq_zero_or_pos (m <<< k / n) with hzero | hpos
  · exact .inr hzero
  · left
    have htop : m <<< k < 2 ^ (m.log2 + k + 1) := by
      rw [Nat.shiftLeft_eq, Nat.add_right_comm, Nat.pow_add]
      exact Nat.mul_lt_mul_of_pos_right Nat.lt_log2_self (Nat.two_pow_pos k)
    have hlow := Nat.log2_self_le (Nat.ne_of_gt hn)
    have hle : n.log2 ≤ m.log2 + k := by
      have hlt : 2 ^ n.log2 < 2 ^ (m.log2 + k + 1) :=
        Nat.lt_of_le_of_lt (Nat.le_trans hlow (Nat.le_of_not_lt fun hlt =>
          Nat.ne_of_gt hpos (Nat.div_eq_of_lt hlt))) htop
      have := (Nat.pow_lt_pow_iff_right (by decide)).1 hlt
      omega
    have hquotient : m <<< k / n < 2 ^ (m.log2 + k + 1 - n.log2) := by
      rw [Nat.div_lt_iff_lt_mul hn]
      refine Nat.lt_of_lt_of_le htop ?_
      rw [show m.log2 + k + 1 = m.log2 + k + 1 - n.log2 + n.log2 by omega, Nat.pow_add,
        Nat.add_sub_cancel]
      exact Nat.mul_le_mul_left _ hlow
    have hlog := (Nat.log2_lt (Nat.ne_of_gt hpos)).2 hquotient
    omega

/-- Whether a number is finite and two or more in size. -/
def isLarge : UnpackedFloat → Bool
  | .finite _ m e _ => 1 ≤ (m.log2 : Int) + e
  | _ => false

theorem exists_of_isLarge {f : UnpackedFloat} (h : isLarge f = true) :
    ∃ s m e hm, f = .finite s m e hm ∧ 1 ≤ (m.log2 : Int) + e := by
  cases f with
  | infinity | notANumber | zero => cases h
  | finite s m e hm => exact ⟨s, m, e, hm, rfl, of_decide_eq_true h⟩

/-- A quotient by two or more is finite. -/
theorem isFinite_div {x y : Float} (hx : x.isFinite = true) (hy : isLarge y.toModel.unpack = true) :
    (x / y).isFinite = true := by
  change (Float.Model.pack
    (UnpackedFloat.div Format.binary64 x.toModel.unpack y.toModel.unpack)).isFinite = true
  obtain ⟨s, m, e, hm, hunpack, hlarge⟩ := exists_of_isLarge hy
  have hx : x.toModel.unpack.isFinite = true := hx
  rw [hunpack]
  rcases hunpack' : x.toModel.unpack with s' | _ | s' | ⟨s', m', e', hm'⟩
  · rw [hunpack'] at hx
    cases hx
  · rw [hunpack'] at hx
    cases hx
  · exact isFinite_pack_zero _
  · obtain ⟨hlog, he'⟩ := unpack_bounds hunpack'
    have htarget : Format.binary64.targetExponent (totalExponent m' e' - totalExponent m e) =
        max ((m'.log2 : Int) + e' - (m.log2 + e) - 53) (-1074) := by
      have hbits : Format.binary64.mantissaBits = 53 := rfl
      simp only [Format.targetExponent, totalExponent, Format.minExponent, hbits]
      omega
    change (Float.Model.pack (roundWithAccuracy Format.binary64 (s' / s)
      (divCore Format.binary64 m' e' m e).1 (divCore Format.binary64 m' e' m e).2.1
      (divCore Format.binary64 m' e' m e).2.2)).isFinite = true
    rw [divCore, htarget]
    dsimp only
    generalize ht : min (e' - e) (max ((m'.log2 : Int) + e' - (m.log2 + e) - 53) (-1074)) = t
    refine isFinite_round _ _ ?_ (by omega)
    rcases log2_shiftLeft_div m' (e' - e - t).toNat hm with hlog' | hzero
    · omega
    · rw [hzero, Nat.log2_zero]
      omega

theorem isFinite_neg {x : Float} (hx : x.isFinite = true) : (-x).isFinite = true := by
  change (Float.Model.pack x.toModel.unpack.neg).isFinite = true
  have hx : x.toModel.unpack.isFinite = true := hx
  rcases hunpack : x.toModel.unpack with s | _ | s | ⟨s, m, e, hm⟩
  · rw [hunpack] at hx
    cases hx
  · rw [hunpack] at hx
    cases hx
  · exact isFinite_pack_zero _
  · exact isFinite_pack_finite _ hm (unpack_bounds hunpack).2

/-! ## Words and integers -/

theorem isFinite_pack_ofInt {i : Int} (hi : i.natAbs ≤ 2 ^ 64) :
    (Float.Model.pack (UnpackedFloat.ofInt Format.binary64 i)).isFinite = true := by
  have hround : ∀ (s : Sign) (n : Nat), 0 < n → n ≤ 2 ^ 64 →
      (Float.Model.pack (UnpackedFloat.round Format.binary64 s n 0)).isFinite = true := by
    intro s n hpos hn
    have hlog : n.log2 ≤ 64 := by
      have hlog := (Nat.log2_lt (Nat.ne_of_gt hpos)).2
        (Nat.lt_of_le_of_lt hn (by decide : 2 ^ 64 < 2 ^ 65))
      omega
    simp only [UnpackedFloat.round, decreaseExponent, targetExponent_eq]
    refine isFinite_round s _ ?_ (by omega)
    rw [log2_shiftLeft hpos, lastExponent]
    omega
  simp only [UnpackedFloat.ofInt, UnpackedFloat.normalize]
  split
  · next hneg => exact hround _ _ (by have := Int.compare_eq_lt.1 hneg; omega) (by omega)
  · exact isFinite_pack_zero _
  · next hpos => exact hround _ _ (by have := Int.compare_eq_gt.1 hpos; omega) (by omega)

theorem isFinite_ofWord (n : UInt64) : n.toFloat.isFinite = true := by
  have hn := n.toNat_lt
  exact isFinite_pack_ofInt (i := n.toNat) (by omega)

/-- A number below `2 ^ 53` is a double that is no larger. -/
theorem exists_unpack_ofNat {n : Nat} (hpos : 0 < n) (hn : n < 2 ^ 53) :
    ∃ s m e hm, (Float.Model.pack (UnpackedFloat.ofNat Format.binary64 n)).unpack =
      .finite s m e hm ∧ m.log2 = 52 ∧ (m.log2 : Int) + e ≤ 53 := by
  have hlog := (Nat.log2_lt (Nat.ne_of_gt hpos)).2 hn
  have hround : UnpackedFloat.ofNat Format.binary64 n = roundWithAccuracy Format.binary64 .positive
      (n <<< (52 - n.log2)) (0 - (52 - n.log2 : Nat)) .exact := by
    have hshift : (0 - lastExponent n 0).toNat = 52 - n.log2 := by
      rw [lastExponent]
      omega
    simp only [UnpackedFloat.ofNat, UnpackedFloat.ofInt, UnpackedFloat.normalize,
      Int.compare_eq_gt.2 (Int.natCast_pos.2 hpos), UnpackedFloat.round, decreaseExponent,
      targetExponent_eq, Int.toNat_natCast, hshift]
  have hlog' := log2_shiftLeft hpos (52 - n.log2)
  obtain ⟨s, m, e, hm, hunpack, hbits, -, hle⟩ := exists_unpack_round .positive
    (m := n <<< (52 - n.log2)) (e := 0 - (52 - n.log2 : Nat)) (by omega) (by omega) (by omega)
  rw [hround]
  exact ⟨s, m, e, hm, hunpack, hbits, by omega⟩

/-- How a number with a power of ten is made. -/
theorem ofScientific_eq {m n : Nat} (hm : 0 < m) (hn : n ≤ 2048) :
    UnpackedFloat.ofScientific Format.binary64 m (Int.ofNat n) =
      roundWithAccuracy Format.binary64 .positive (m <<< 53 * 10 ^ n) (-53) .exact := by
  have hlarge : ¬ Int.ofNat n > 2 ^ Format.binary64.exponentBits := by
    change ¬ (n : Int) > 2048
    omega
  have hsmall : ¬ Int.ofNat n < -(2 ^ Format.binary64.exponentBits + m.log2) := by
    change ¬ (n : Int) < -(2048 + m.log2)
    omega
  rw [UnpackedFloat.ofScientific, dif_neg (Nat.ne_of_gt hm), if_neg hlarge, if_neg hsmall,
    if_pos (show 0 ≤ Int.ofNat n from Int.natCast_nonneg n)]
  rfl

theorem isFinite_ofNat {n : Nat} (hn : n ≤ 2 ^ 64) : (Float.ofNat n).isFinite = true := by
  change (Float.ofScientific n false 0).isFinite = true
  rw [Float.ofScientific]
  split
  · next hsmall =>
    rcases Nat.eq_zero_or_pos n with rfl | hpos
    · have hzero : ((0 : Nat).toUInt64.toFloat *
          getElem Float.exactlyRepresentablePowersOfTen 0 (by decide)).isFinite = true := by decide
      exact hzero
    obtain ⟨s, m, e, hm, hunpack, hbits, hle⟩ := exists_unpack_ofNat hpos hsmall.1
    have hone : (getElem Float.exactlyRepresentablePowersOfTen 0 (by decide)).toModel.unpack =
        .finite .positive (2 ^ 52) (-52) (by decide) := by rfl
    have hword : n.toUInt64.toFloat.toModel.unpack = .finite s m e hm := by
      have hnat : n.toUInt64.toNat = n := Nat.mod_eq_of_lt (by omega)
      rw [← hunpack]
      change (Float.Model.pack (UnpackedFloat.ofNat Format.binary64 n.toUInt64.toNat)).unpack = _
      rw [hnat]
    change (Float.Model.pack (UnpackedFloat.mul Format.binary64 n.toUInt64.toFloat.toModel.unpack
      (getElem Float.exactlyRepresentablePowersOfTen 0 (by decide)).toModel.unpack)).isFinite = true
    rw [hone, hword]
    have hlog : (m * 2 ^ 52).log2 = m.log2 + 52 := by
      rw [← Nat.shiftLeft_eq, log2_shiftLeft hm]
    refine isFinite_round _ _ ?_ (by omega)
    omega
  · next hlarge =>
    have hpos : 0 < n := by omega
    change (Float.Model.pack (UnpackedFloat.ofScientific Format.binary64 n
      (Int.ofNat 0))).isFinite = true
    rw [ofScientific_eq hpos (by omega), Nat.pow_zero, Nat.mul_one]
    refine isFinite_round _ _ ?_ (by omega)
    have hlog := (Nat.log2_lt (Nat.ne_of_gt hpos)).2
      (Nat.lt_of_le_of_lt hn (by decide : 2 ^ 64 < 2 ^ 65))
    rw [log2_shiftLeft hpos]
    omega

theorem isFinite_ofInt (i : Integer) : (Float.ofInt i.val).isFinite = true := by
  have hlower := i.lower
  have hupper := i.upper
  rcases hi : i.val with n | n
  · have hn : (n : Int) < 18446744073709551616 := by rwa [hi] at hupper
    exact isFinite_ofNat (by omega)
  · have hn : -9223372036854775808 ≤ Int.negSucc n := by rwa [hi] at hlower
    exact isFinite_neg (isFinite_ofNat (by omega))

/-! ## Powers of ten -/

theorem isLarge_power {n : Nat} (hpos : 0 < n) (hn : n ≤ 308) :
    isLarge (Numeral.power n).toModel.unpack = true := by
  have hsmall : ∀ n < 23, 0 < n → isLarge (Numeral.power n).toModel.unpack = true := by
    decide +kernel
  by_cases hn' : n < 23
  · exact hsmall n hn' hpos
  by_cases htop : n = 308
  · rw [htop]
    decide +kernel
  -- A power of ten up to here has less than 1023 bits.
  have hlog : (1 <<< 53 * 10 ^ n).log2 = 53 + (10 ^ n).log2 := by
    rw [Nat.one_shiftLeft, Nat.mul_comm, ← Nat.shiftLeft_eq,
      log2_shiftLeft (Nat.pow_pos (by decide)), Nat.add_comm]
  have hhigh : (10 ^ n).log2 < 1022 := by
    refine (Nat.log2_lt (Nat.ne_of_gt (Nat.pow_pos (by decide)))).2 ?_
    exact Nat.lt_of_le_of_lt (Nat.pow_le_pow_right (by decide) (by omega : n ≤ 307))
      (by decide +kernel)
  have hlow : 3 ≤ (10 ^ n).log2 := by
    refine (Nat.le_log2 (Nat.ne_of_gt (Nat.pow_pos (by decide)))).2 ?_
    exact Nat.le_trans (by decide : 2 ^ 3 ≤ 10 ^ 1) (Nat.pow_le_pow_right (by decide) hpos)
  have hpower : (Numeral.power n).toModel = Float.Model.pack
      (roundWithAccuracy Format.binary64 .positive (1 <<< 53 * 10 ^ n) (-53) .exact) := by
    rw [Numeral.power, Float.ofScientific, dif_neg (by omega)]
    exact congrArg Float.Model.pack (ofScientific_eq (by decide) (by omega))
  obtain ⟨s, m, e, hm, hunpack, hbits, hle, -⟩ := exists_unpack_round .positive
    (m := 1 <<< 53 * 10 ^ n) (e := -53) (by omega) (by omega) (by omega)
  rw [hpower, hunpack]
  exact decide_eq_true (by omega)

theorem isFinite_power {n : Nat} (hn : n ≤ 308) : (Numeral.power n).isFinite = true := by
  rcases Nat.eq_zero_or_pos n with rfl | hpos
  · decide
  · obtain ⟨s, m, e, hm, hunpack, -⟩ := exists_of_isLarge (isLarge_power hpos hn)
    change (Numeral.power n).toModel.unpack.isFinite = true
    rw [hunpack]
    rfl

/-! ## Numerals -/

theorem isFinite_scale {fuel : Nat} {x y : Float} {e : Int} (hx : x.isFinite = true)
    (h : Numeral.scale fuel x e = some y) : y.isFinite = true := by
  induction fuel generalizing x e with
  | zero =>
    cases h
    exact hx
  | succ fuel ih =>
    simp only [Numeral.scale] at h
    split at h
    · next he =>
      split at h
      · split at h
        · cases h
        · next hinf =>
          cases h
          have hnan := isNaN_eq (x * Numeral.power e.natAbs).toModel
          have hnot : (x * Numeral.power e.natAbs).toModel.isNaN = false :=
            isNaN_mul hx (isFinite_power he)
          have hinf : (x * Numeral.power e.natAbs).toModel.isInf = false :=
            Bool.eq_false_iff.2 hinf
          rw [hnot, hinf] at hnan
          change (x * Numeral.power e.natAbs).toModel.isFinite = true
          simpa using hnan
      · cases h
        exact isFinite_div hx (isLarge_power (by omega) he)
    · split at h
      · cases h
        exact hx
      split at h
      · cases h
      · have hpower := isLarge_power (n := 308) (by decide) (by decide)
        exact ih (isFinite_div hx hpower) h

theorem double?_isFinite {n : Numeral} {x : Float} (h : n.double? = some x) :
    x.isFinite = true := by
  simp only [Numeral.double?, Option.map_eq_some_iff] at h
  obtain ⟨y, hy, rfl⟩ := h
  have hfinite : y.isFinite = true := by
    split at hy
    · exact isFinite_scale (isFinite_ofWord _) hy
    · split at hy
      · exact isFinite_scale (isFinite_ofWord _) hy
      · split at hy
        · cases hy
        · cases hy
          decide
  split
  · exact isFinite_neg hfinite
  · exact hfinite

end CodeGraph.Json
