import Mathlib
import ReactiveMarkup.Json.Basic

/-!
# Doubles by their parts

What a double is, is known from its packed fields. An integer of at most 53 bits is a double without
rounding: its mantissa, shifted to 53 bits, is all there is to round.

Main definitions: `Number.ofFields`, `Number.Normal`, `Number.isExactInteger`.
Main results: `Number.beq_self`, `Number.ofInt_toInt`.
-/
namespace ReactiveMarkup.Number

open Float.Model UnpackedFloat

/-! ## Equality -/

/-- A number equals itself, and only what is not a number does not. -/
theorem beq_self (x : Number) : (x == x) = !x.isNaN := by
  rw [Bool.eq_iff_iff]
  simp

theorem isNaN_of_isFinite {x : Number} (h : x.isFinite = true) : x.isNaN = false := by
  change UnpackedFloat.isFinite x.toModel.unpack = true at h
  change UnpackedFloat.isNaN x.toModel.unpack = false
  cases hx : x.toModel.unpack with
  | notANumber =>
    rw [hx] at h
    cases h
  | _ => rfl

/-! ## Packed fields -/

/-- The number that a sign, an exponent and a mantissa stand for, as they are packed. -/
def ofFields (s : BitVec 1) (e : BitVec 11) (m : BitVec 52) : UnpackedFloat :=
  if e = -1#11 then if m = 0#52 then .infinity (.ofBitVec s) else .notANumber
  else if e = 0#11 then
    if h : m = 0#52 then .zero (.ofBitVec s)
    else .finite (.ofBitVec s) m.toNat (-1074) (by
      rw [BitVec.toNat_eq] at h
      exact Nat.pos_of_ne_zero h)
  else .finite (.ofBitVec s) (2 ^ 52 + m.toNat) (e.toNat - 1075) (by omega)

theorem toNat_one_append (m : BitVec 52) : (1#1 ++ m).toNat = 2 ^ 52 + m.toNat := by
  rw [BitVec.toNat_append, ← Nat.shiftLeft_add_eq_or_of_lt m.isLt]
  rfl

theorem unpack_eq (b : BitVec Format.binary64.numBits) :
    UnpackedFloat.unpack _ b = ofFields (unpackSign b) (unpackExponent b) (unpackMantissa b) := by
  rw [UnpackedFloat.unpack, ofFields]
  split
  · rfl
  · split
    · rename_i h
      simp only [h]
      split <;> rfl
    · simp only [toNat_one_append]
      rfl

theorem toNat_unpackMantissa (b : BitVec Format.binary64.numBits) :
    (unpackMantissa b).toNat = b.toNat % Nat.pow 2 52 := by
  rw [unpackMantissa, BitVec.toNat_cast, BitVec.extractLsb_toNat]
  rfl

theorem toNat_unpackExponent (b : BitVec Format.binary64.numBits) :
    (unpackExponent b).toNat = b.toNat / Nat.pow 2 52 % 2048 := by
  rw [unpackExponent, BitVec.toNat_cast, BitVec.extractLsb_toNat, Nat.shiftRight_eq_div_pow]
  rfl

theorem toNat_unpackSign (b : BitVec Format.binary64.numBits) :
    (unpackSign b).toNat = b.toNat / Nat.pow 2 63 := by
  rw [unpackSign, BitVec.toNat_cast, BitVec.extractLsb_toNat, Nat.shiftRight_eq_div_pow]
  refine Nat.mod_eq_of_lt ?_
  rw [Nat.div_lt_iff_lt_mul (by decide)]
  exact b.isLt

theorem ofBitVec_beq_negative (s : BitVec 1) : (Sign.ofBitVec s == .negative) = (s.toNat == 1) := by
  revert s
  decide

/-- The sign, mantissa and exponent of what is finite. -/
def parts? : UnpackedFloat → Option Binary
  | .finite s m e _ => some ⟨s == .negative, m, e⟩
  | .zero s => some ⟨s == .negative, 0, -1074⟩
  | .infinity _ | .notANumber => none

theorem parts?_ofFields (s : BitVec 1) (e : BitVec 11) (m : BitVec 52) :
    parts? (ofFields s e m) =
      if e.toNat = 2047 then none
      else if e.toNat = 0 then some ⟨s.toNat == 1, m.toNat, -1074⟩
      else some ⟨s.toNat == 1, 2 ^ 52 + m.toNat, e.toNat - 1075⟩ := by
  have hones : e = -1#11 ↔ e.toNat = 2047 := BitVec.toNat_eq
  have hzero : e = 0#11 ↔ e.toNat = 0 := BitVec.toNat_eq
  simp only [ofFields, hones, hzero, ← ofBitVec_beq_negative]
  split
  · split <;> rfl
  · split
    · split
      · rename_i h
        rw [h]
        rfl
      · rfl
    · rfl

/-- Taking a number apart by its bits gives the parts that arithmetic goes by. -/
theorem binary?_eq (x : Number) : binary? x = parts? x.toModel.unpack := by
  let b : BitVec Format.binary64.numBits := x.toModel.toBits.toBitVec
  change _ = parts? (UnpackedFloat.unpack _ b)
  rw [unpack_eq, parts?_ofFields, toNat_unpackMantissa, toNat_unpackExponent, toNat_unpackSign]
  rfl

/-! ## Mantissas of 53 bits -/

/-- A mantissa of 53 bits, with an exponent that a double can have. -/
structure Normal (m : Nat) (e : Int) : Prop where
  low : 2 ^ 52 ≤ m
  high : m < 2 ^ 53
  least : -1074 ≤ e
  greatest : e ≤ 971

variable {x : Number} {s : Sign} {m n j k : Nat} {e : Int} {hm : 0 < m}

theorem normal_of_ofFields {a : BitVec 1} {b : BitVec 11} {c : BitVec 52}
    (h : ofFields a b c = .finite s m e hm) : Normal m e ∨ m < 2 ^ 52 ∧ e = -1074 := by
  have hb := b.isLt
  have hc := c.isLt
  rw [ofFields] at h
  split at h
  · split at h <;> cases h
  rename_i hones
  split at h
  · split at h <;> cases h
    exact .inr ⟨hc, rfl⟩
  rename_i hzero
  cases h
  rw [BitVec.toNat_eq] at hones hzero
  change b.toNat ≠ 2047 at hones
  change b.toNat ≠ 0 at hzero
  exact .inl ⟨by omega, by omega, by omega, by omega⟩

/-- A finite number has a mantissa of 53 bits, or the least exponent. -/
theorem normal_or_subnormal (h : x.toModel.unpack = .finite s m e hm) :
    Normal m e ∨ m < 2 ^ 52 ∧ e = -1074 :=
  normal_of_ofFields ((unpack_eq x.toModel.toBits.toBitVec).symm.trans h)

theorem log2_mul_two_pow (hn : n ≠ 0) (k : Nat) : (n * 2 ^ k).log2 = n.log2 + k := by
  have hk : 0 < 2 ^ k := Nat.two_pow_pos k
  rw [Nat.log2_eq_iff (Nat.mul_ne_zero hn (Nat.ne_of_gt hk)), Nat.add_right_comm, Nat.pow_add,
    Nat.pow_add]
  exact ⟨Nat.mul_le_mul_right _ (Nat.log2_self_le hn),
    Nat.mul_lt_mul_of_pos_right Nat.lt_log2_self hk⟩

/-- Shifting out zeros leaves nothing to round. -/
theorem shiftRight_mul_two_pow (m k : Nat) :
    (ExtendedMantissa.mk (m * 2 ^ k) false false) >>> k = ⟨m, false, false⟩ := by
  induction k generalizing m with
  | zero =>
    rw [Nat.pow_zero, Nat.mul_one]
    rfl
  | succ k ih =>
    have h := ih (m * 2)
    rw [Nat.mul_assoc, ← Nat.pow_succ'] at h
    change ((ExtendedMantissa.mk (m * 2 ^ (k + 1)) false false) >>> k).shiftRightOne = _
    rw [h, ExtendedMantissa.shiftRightOne, Nat.mul_div_cancel _ (by decide), Nat.mul_mod_left]
    rfl

namespace Normal

theorem pos (h : Normal m e) : 0 < m := Nat.lt_of_lt_of_le (by decide) h.low

theorem log2 (h : Normal m e) : m.log2 = 52 :=
  (Nat.log2_eq_iff (Nat.ne_of_gt h.pos)).2 ⟨h.low, h.high⟩

theorem unpack_pack (h : Normal m e) : (pack (.finite s m e hm)).unpack = .finite s m e hm := by
  have hlog := h.log2
  obtain ⟨hlow, hhigh, hleast, hgreatest⟩ := h
  have hpack : UnpackedFloat.pack .binary64 (.finite s m e hm) =
      packComponents .binary64 s (BitVec.ofNat 11 (e + 1075).toNat) (BitVec.ofNat 52 m) := by
    have hbiased : (e + Format.binary64.exponentBias + (52 : Nat)).toNat = (e + 1075).toNat :=
      congrArg Int.toNat (Int.add_assoc ..)
    rw [UnpackedFloat.pack, hlog]
    dsimp only
    rw [hbiased, if_neg (by omega)]
    exact if_pos rfl
  have hexponent : (BitVec.ofNat 11 (e + 1075).toNat).toNat = (e + 1075).toNat :=
    Nat.mod_eq_of_lt (by omega)
  have hmantissa : 2 ^ 52 + (BitVec.ofNat 52 m).toNat = m := by
    rw [BitVec.toNat_ofNat]
    omega
  have hones : BitVec.ofNat 11 (e + 1075).toNat ≠ -1#11 := by
    rw [ne_eq, BitVec.toNat_eq, hexponent]
    change _ ≠ 2047
    omega
  have hzero : BitVec.ofNat 11 (e + 1075).toNat ≠ 0#11 := by
    rw [ne_eq, BitVec.toNat_eq, hexponent]
    change _ ≠ 0
    omega
  change UnpackedFloat.unpack _ (UnpackedFloat.pack .binary64 _) = _
  rw [hpack, unpack_eq, unpackSign_packComponents, unpackExponent_packComponents,
    unpackMantissa_packComponents, ofFields, Sign.ofBitVec_toBitVec, if_neg hones, if_neg hzero]
  simp only [hexponent, hmantissa]
  congr 1
  omega

theorem shiftToTargetExponent (h : Normal m (e + k)) :
    shiftToTargetExponent .binary64 (m * 2 ^ k) e .exact = (⟨m, false, false⟩, e + k) := by
  have hleast := h.least
  have htarget : Format.binary64.targetExponent (totalExponent (m * 2 ^ k) e) = e + k := by
    rw [totalExponent, log2_mul_two_pow (Nat.ne_of_gt h.pos), h.log2]
    change max (((52 + k : Nat) : Int) + 1 + e - 53) (-1074) = _
    omega
  rw [UnpackedFloat.shiftToTargetExponent, htarget, shiftToExponent,
    show (e + k - e).toNat = k by omega]
  exact congrArg (·, e + (k : Int)) (shiftRight_mul_two_pow m k)

/-- Rounding undoes a shift that brought in zeros only. -/
theorem roundWithAccuracy (h : Normal m (e + k)) :
    roundWithAccuracy .binary64 s (m * 2 ^ k) e .exact = .finite s m (e + k) h.pos := by
  have hagain := shiftToTargetExponent (m := m) (k := 0) (e := e + k) (by simpa using h)
  rw [Nat.pow_zero, Nat.mul_one, Int.natCast_zero, Int.add_zero] at hagain
  rw [UnpackedFloat.roundWithAccuracy, h.shiftToTargetExponent]
  dsimp only [ExtendedMantissa.roundedMantissa, ExtendedMantissa.accuracy,
    Accuracy.roundToNearestEven]
  simp only [hagain]
  exact dif_neg (Nat.ne_of_gt h.pos)

end Normal

/-! ## Integers -/

section Integers

variable (h : Normal (n * 2 ^ j) (-j))

include h

theorem Normal.round_integer :
    UnpackedFloat.round .binary64 s n 0 = .finite s (n * 2 ^ j) (-j) h.pos := by
  have hn : n ≠ 0 := Nat.ne_of_gt (Nat.pos_of_mul_pos_right h.pos)
  have hlog := h.log2
  have hleast := h.least
  rw [log2_mul_two_pow hn] at hlog
  have htarget : Format.binary64.targetExponent (totalExponent n 0) = -j := by
    change max ((n.log2 : Int) + 1 + 0 - 53) (-1074) = _
    omega
  have hdecrease : decreaseExponent n 0 (-j) = (n * 2 ^ j, -(j : Int)) := by
    rw [decreaseExponent, show (0 - -(j : Int)).toNat = j by omega, Nat.shiftLeft_eq, Int.zero_sub]
  have hround := Normal.roundWithAccuracy (s := s) (m := n * 2 ^ j) (k := 0) (e := -(j : Int))
    (by simpa using h)
  rw [Nat.pow_zero, Nat.mul_one] at hround
  rw [UnpackedFloat.round, htarget, hdecrease]
  exact hround.trans (by simp)

theorem Normal.unpack_toFloat :
    n.toUInt64.toFloat.toModel.unpack = .finite .positive (n * 2 ^ j) (-j) h.pos := by
  have hn : 0 < n := Nat.pos_of_mul_pos_right h.pos
  have hlt : n < 2 ^ 53 :=
    Nat.lt_of_le_of_lt (Nat.le_mul_of_pos_right n (Nat.two_pow_pos j)) h.high
  have hword : n.toUInt64.toNat = n := Nat.mod_eq_of_lt (by omega)
  change (pack (UnpackedFloat.ofNat .binary64 n.toUInt64.toNat)).unpack = _
  rw [hword, UnpackedFloat.ofNat, UnpackedFloat.ofInt, UnpackedFloat.normalize,
    Int.compare_eq_gt.2 (by omega)]
  dsimp only
  rw [Int.toNat_natCast, h.round_integer, h.unpack_pack]

omit h in
theorem unpack_one : (Float.ofBits 0x3FF0000000000000).toModel.unpack =
    .finite .positive (2 ^ 52) (-52) (by decide) := by
  with_unfolding_all rfl

/-- An integer literal is a word times one, and both are exact. -/
theorem Normal.unpack_ofNat :
    (ofNat n).toModel.unpack = .finite .positive (n * 2 ^ j) (-j) h.pos := by
  have hlt : n < 2 ^ 53 :=
    Nat.lt_of_le_of_lt (Nat.le_mul_of_pos_right n (Nat.two_pow_pos j)) h.high
  have hmul : ofNat n = n.toUInt64.toFloat * Float.ofBits 0x3FF0000000000000 := by
    change Float.ofScientific n false 0 = _
    rw [Float.ofScientific, dif_pos ⟨hlt, by decide⟩]
    rfl
  have hexponent : -(j : Int) + -52 + (52 : Nat) = -j := by omega
  have hround := Normal.roundWithAccuracy (s := .positive) (m := n * 2 ^ j) (k := 52)
    (e := -j + -52) (by rwa [hexponent])
  simp only [hexponent] at hround
  rw [hmul]
  change (pack (UnpackedFloat.mul _ n.toUInt64.toFloat.toModel.unpack
    (Float.ofBits 0x3FF0000000000000).toModel.unpack)).unpack = _
  rw [h.unpack_toFloat, unpack_one, UnpackedFloat.mul]
  exact (congrArg (fun a => (pack a).unpack) hround).trans h.unpack_pack

theorem Normal.unpack_ofInt (s : Sign) :
    (ofInt (s.apply n)).toModel.unpack = .finite s (n * 2 ^ j) (-j) h.pos := by
  have hn : 0 < n := Nat.pos_of_mul_pos_right h.pos
  cases s with
  | positive =>
    rw [Sign.apply, ofInt, if_neg (by omega)]
    exact h.unpack_ofNat
  | negative =>
    rw [Sign.apply, ofInt, if_pos (by omega), Int.natAbs_neg]
    change (pack (ofNat n).toModel.unpack.neg).unpack = _
    rw [h.unpack_ofNat]
    exact h.unpack_pack

theorem Normal.toInt_eq (hx : x.toModel.unpack = .finite s (n * 2 ^ j) (-j) h.pos) :
    x.toInt = s.apply n := by
  have hlt : n < 2 ^ 53 :=
    Nat.lt_of_le_of_lt (Nat.le_mul_of_pos_right n (Nat.two_pow_pos j)) h.high
  have hwhole : (Binary.mk (s == .negative) (n * 2 ^ j) (-j)).whole = n := by
    have hj : (-(-(j : Int))).toNat = j := by omega
    have hzero : (-(j : Int)).toNat = 0 := by omega
    change n * 2 ^ j * 2 ^ (-(j : Int)).toNat / 2 ^ (-(-(j : Int))).toNat = n
    rw [hj, hzero, Nat.pow_zero, Nat.mul_one, Nat.mul_div_cancel _ (Nat.two_pow_pos j)]
  have hlimit : Int.pow 2 63 = 9223372036854775808 := rfl
  rw [toInt, binary?_eq, hx, parts?]
  dsimp only
  rw [hwhole, hlimit]
  cases s with
  | negative =>
    change max _ _ = -(n : Int)
    omega
  | positive =>
    change min _ _ = (n : Int)
    omega

end Integers

theorem toInt_of_zero (h : x.toModel.unpack = .zero s) : x.toInt = 0 := by
  have hwhole (negative : Bool) (e : Int) : (Binary.mk negative 0 e).whole = 0 := by
    rw [Binary.whole, Binary.numerator, Nat.zero_mul, Nat.zero_div]
  rw [toInt, binary?_eq, h, parts?]
  dsimp only
  rw [hwhole]
  cases s <;> rfl

theorem unpack_ofInt_zero : (ofInt 0).toModel.unpack = .zero .positive := by
  with_unfolding_all rfl

/-! ## Integers that doubles hold exactly -/

/-- Whether a number is an integer of at most 53 bits. -/
def isExactInteger (x : Number) : Bool := x.isWhole && x.abs < 9007199254740992.0

theorem unpack_limit : (9007199254740992.0 : Number).toModel.unpack =
    .finite .positive (2 ^ 52) 1 (by decide) := by
  with_unfolding_all rfl

theorem lt_iff (x y : Number) : x < y ↔ x.toModel.unpack.lt y.toModel.unpack = true := by
  change decide (x.toModel.unpack.lt y.toModel.unpack = true) = true ↔ _
  rw [decide_eq_true_iff]

theorem exponent_of_abs_lt (hx : x.toModel.unpack = .finite s m e hm) (h : Normal m e)
    (hlt : x.abs < 9007199254740992.0) : e ≤ 0 := by
  rw [lt_iff, unpack_limit] at hlt
  change (pack x.toModel.unpack.abs).unpack.lt _ = true at hlt
  rw [hx, UnpackedFloat.abs, h.unpack_pack] at hlt
  replace hlt : (compare e 1).then (compare m (2 ^ 52)) = .lt := by
    simpa [UnpackedFloat.lt, UnpackedFloat.compare] using hlt
  have hlow := h.low
  rcases Ordering.then_eq_lt.1 hlt with he | ⟨-, hm⟩
  · have := Int.compare_eq_lt.1 he
    omega
  · have := Nat.compare_eq_lt.1 hm
    omega

/-- Such an integer is zero, or its mantissa is the integer shifted to 53 bits. -/
theorem isExactInteger_cases (h : x.isExactInteger = true) :
    (∃ s, x.toModel.unpack = .zero s) ∨
      ∃ s n j, ∃ h : Normal (n * 2 ^ j) (-(j : Nat)),
        x.toModel.unpack = .finite s (n * 2 ^ j) (-j) h.pos := by
  rw [isExactInteger, Bool.and_eq_true, decide_eq_true_iff] at h
  obtain ⟨hwhole, hlt⟩ := h
  rw [isWhole, binary?_eq] at hwhole
  cases hx : x.toModel.unpack with
  | zero s => exact .inl ⟨s, rfl⟩
  | infinity | notANumber =>
    rw [hx] at hwhole
    cases hwhole
  | finite s m e hm =>
    rw [hx] at hwhole
    replace hwhole : 2 ^ (-e).toNat ∣ m * 2 ^ e.toNat :=
      Nat.dvd_of_mod_eq_zero (beq_iff_eq.1 hwhole)
    have he : e ≤ 0 := by
      rcases normal_or_subnormal hx with hnormal | ⟨-, rfl⟩
      · exact exponent_of_abs_lt hx hnormal hlt
      · decide
    rw [Int.toNat_of_nonpos he, Nat.pow_zero, Nat.mul_one] at hwhole
    rcases normal_or_subnormal hx with hnormal | ⟨hsmall, rfl⟩
    · obtain ⟨j, rfl⟩ := Int.exists_eq_neg_ofNat he
      rw [show (-(-(j : Int))).toNat = j by omega] at hwhole
      obtain ⟨n, rfl⟩ := hwhole
      simp only [Nat.mul_comm (2 ^ j) n] at hnormal ⊢
      exact .inr ⟨s, n, j, hnormal, rfl⟩
    · have hle := Nat.le_of_dvd hm hwhole
      have hpow : 2 ^ 52 ≤ 2 ^ (-(-1074 : Int)).toNat :=
        Nat.pow_le_pow_right (by decide) (by decide)
      omega

theorem isExactInteger_ofInt_zero : (ofInt 0).isExactInteger = true := by decide +kernel

/-- An integer of at most 53 bits survives the way to an integer and back, up to the sign of
zero. -/
theorem ofInt_toInt (h : x.isExactInteger = true) :
    (ofInt x.toInt == x) = true ∧ (ofInt x.toInt).isExactInteger = true ∧
      (ofInt x.toInt).toInt = x.toInt := by
  rcases isExactInteger_cases h with ⟨s, hx⟩ | ⟨s, n, j, hn, hx⟩
  · rw [toInt_of_zero hx]
    refine ⟨?_, isExactInteger_ofInt_zero, toInt_of_zero unpack_ofInt_zero⟩
    change UnpackedFloat.beq _ _ = true
    rw [unpack_ofInt_zero, hx]
    rfl
  · have hunpack : (ofInt x.toInt).toModel.unpack = x.toModel.unpack := by
      rw [hn.toInt_eq hx, hn.unpack_ofInt, hx]
    refine ⟨?_, ?_, (hn.toInt_eq (hunpack.trans hx)).trans (hn.toInt_eq hx).symm⟩
    · have hself : (x == x) = true := by
        rw [beq_self]
        change (!UnpackedFloat.isNaN x.toModel.unpack) = true
        rw [hx]
        rfl
      change UnpackedFloat.beq _ x.toModel.unpack = true
      rw [hunpack]
      exact hself
    · have hbinary : binary? (ofInt x.toInt) = binary? x := by
        rw [binary?_eq, binary?_eq, hunpack]
      have habs : (ofInt x.toInt).abs = x.abs := by
        change Float.ofModel (pack (ofInt x.toInt).toModel.unpack.abs) = _
        rw [hunpack]
        rfl
      rw [isExactInteger, isWhole, hbinary, habs]
      exact h

end ReactiveMarkup.Number
