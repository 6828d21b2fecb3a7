import Mathlib.Tactic.Ring
import TypeSchema.Proofs.Number.Finite

/-!
# The shortest digits read back

The reals around a number that round to it reach half a unit of its last place to both sides, or a
quarter to the lower side where the numbers below are twice as dense. A decimal in between is
rounded to the number. A grid of seventeen digits is so fine that one of the two neighbours of the
number lies in between, so the search for digits never fails, and what it finds reads back.
-/

namespace TypeSchema.Binary64

variable {x : Binary64} {num den : Nat}

/-! ### Rounding to a number -/

theorem roundDiv_eq {k : Nat} (hlow : 2 * (k * den) ≤ 2 * num + den)
    (hhigh : 2 * num ≤ 2 * (k * den) + den)
    (hodd : k % 2 = 1 → 2 * (k * den) < 2 * num + den ∧ 2 * num < 2 * (k * den) + den)
    (hden : 0 < den) : roundDiv num den = k := by
  have hdivision := Nat.div_add_mod num den
  have hremainder := Nat.mod_lt num hden
  rw [roundDiv]
  generalize num / den = quotient at hdivision ⊢
  generalize num % den = remainder at hdivision hremainder ⊢
  rw [Nat.mul_comm] at hdivision
  have hlower : quotient ≤ k := by
    by_contra h
    have hle : (k + 1) * den ≤ quotient * den := Nat.mul_le_mul_right den (by omega)
    rw [Nat.succ_mul] at hle
    omega
  have hupper : k ≤ quotient + 1 := by
    by_contra h
    have hle : (quotient + 2) * den ≤ k * den := Nat.mul_le_mul_right den (by omega)
    rw [Nat.add_mul] at hle
    omega
  -- The quotient is rounded down, or up to `k`; halfway between, `k` is even.
  obtain rfl | rfl : k = quotient ∨ k = quotient + 1 := by omega
  · split_ifs <;> omega
  · rw [Nat.succ_mul quotient] at hlow hhigh hodd
    split_ifs <;> omega

/-- The power of two that the last place of a number stands for, in units of `2 ^ -1074`. -/
def shift (x : Binary64) : Nat := max (x.magnitude / 2 ^ 52) 1 - 1

theorem exponent_eq (x : Binary64) : x.exponent = x.shift - 1074 := by
  rw [exponent, shift, Nat.pow_eq]
  omega

theorem magnitude_eq (x : Binary64) : x.magnitude = x.shift * 2 ^ 52 + x.significand := by
  rw [shift, significand, Nat.pow_eq]
  split_ifs <;> omega

theorem significand_pos (hx : x.isZero = false) : 0 < x.significand := by
  have hmagnitude : x.magnitude ≠ 0 := of_decide_eq_false hx
  rw [significand, Nat.pow_eq]
  split_ifs <;> omega

theorem significand_lt (x : Binary64) : x.significand < 2 ^ 53 := by
  rw [significand, Nat.pow_eq]
  split_ifs <;> omega

theorem shift_eq_zero_or (x : Binary64) : x.shift = 0 ∨ 2 ^ 52 ≤ x.significand := by
  rw [shift, significand, Nat.pow_eq]
  split_ifs <;> omega

theorem ofMagnitude_magnitude (x : Binary64) : ofMagnitude x.isNegative x.magnitude = x := by
  obtain ⟨bits⟩ := x
  rw [ofMagnitude, isNegative, Binary64.magnitude, Nat.pow_eq]
  have hbits : bits.toNat < 2 ^ 64 := bits.toNat_lt
  have hsum : bits.toNat % 2 ^ 63 + (if decide (2 ^ 63 ≤ bits.toNat) then 2 ^ 63 else 0) =
      bits.toNat := by
    split_ifs with h <;> simp only [decide_eq_true_eq] at h <;> omega
  rw [hsum, UInt64.ofNat_toNat]

/-- How far the reals that round to a number reach below it, in quarters of its last place. -/
def below (x : Binary64) : Nat := if x.significand = 2 ^ 52 ∧ x.shift ≠ 0 then 1 else 2

theorem below_eq (x : Binary64) :
    x.below = 2 ∨ x.below = 1 ∧ x.significand = 2 ^ 52 ∧ x.shift ≠ 0 := by
  rw [below]
  split_ifs with hpower
  · exact .inr ⟨rfl, hpower⟩
  · exact .inl rfl

theorem sub_below_mul (hx : x.isZero = false) (unit : Nat) :
    (4 * x.significand - x.below) * unit + x.below * unit = 4 * (x.significand * unit) := by
  have hpos := significand_pos hx
  obtain hbelow | ⟨hbelow, -⟩ := x.below_eq <;>
    rw [← Nat.add_mul, Nat.sub_add_cancel (by omega), Nat.mul_assoc]

theorem add_two_mul (x : Binary64) (unit : Nat) :
    (4 * x.significand + 2) * unit = 4 * (x.significand * unit) + 2 * unit := by
  rw [Nat.add_mul, Nat.mul_assoc]

/-- A ratio lies where the reals round to the number. It does not lie at the end if the significand
is odd. -/
structure Attracts (x : Binary64) (num den : Nat) : Prop where
  low : 4 * (x.significand * (den * 2 ^ x.shift)) ≤
    4 * (num * 2 ^ 1074) + x.below * (den * 2 ^ x.shift)
  high : 4 * (num * 2 ^ 1074) ≤
    4 * (x.significand * (den * 2 ^ x.shift)) + 2 * (den * 2 ^ x.shift)
  odd : x.significand % 2 = 1 →
    4 * (x.significand * (den * 2 ^ x.shift)) <
        4 * (num * 2 ^ 1074) + x.below * (den * 2 ^ x.shift) ∧
      4 * (num * 2 ^ 1074) < 4 * (x.significand * (den * 2 ^ x.shift)) + 2 * (den * 2 ^ x.shift)

section Rounding

variable {p : Nat} (h : x.Attracts num den)

include h

theorem Attracts.low_le : 4 * (x.significand * (den * 2 ^ x.shift)) ≤
    4 * (num * 2 ^ 1074) + 2 * (den * 2 ^ x.shift) := by
  have hlow := h.low
  obtain hbelow | ⟨hbelow, -⟩ := x.below_eq <;> rw [hbelow] at hlow <;> omega

theorem Attracts.num_ne_zero (hx : x.isZero = false) (hden : 0 < den) : num ≠ 0 := by
  rintro rfl
  have hunit : 0 < den * 2 ^ x.shift := Nat.mul_pos hden (Nat.two_pow_pos _)
  have hpos := Nat.mul_le_mul_right (den * 2 ^ x.shift) (significand_pos hx)
  have hlow := h.low_le
  rw [Nat.succ_mul] at hpos
  omega

/-- A ratio with the unit of the number is rounded to the significand. -/
theorem Attracts.roundDiv_eq_significand (hden : 0 < den) :
    roundDiv (num * 2 ^ 1074) (den * 2 ^ x.shift) = x.significand := by
  have hunit : 0 < den * 2 ^ x.shift := Nat.mul_pos hden (Nat.two_pow_pos _)
  have hlow := h.low_le
  obtain ⟨-, hhigh, hodd⟩ := h
  refine roundDiv_eq (by omega) (by omega) (fun hsignificand => ?_) hunit
  obtain ⟨hlower, hupper⟩ := hodd hsignificand
  obtain hbelow | ⟨-, hpower, -⟩ := x.below_eq
  · rw [hbelow] at hlower
    omega
  · omega

/-- A ratio with a smaller unit lies just below a power of two and is rounded up to it. -/
theorem Attracts.rounds_up (hden : 0 < den) (hless : p < x.shift)
    (hshort : num * 2 ^ 1074 < den * 2 ^ (p + 53)) :
    x.shift = p + 1 ∧ x.significand = 2 ^ 52 ∧
      roundDiv (num * 2 ^ 1074) (den * 2 ^ p) = 2 ^ 53 := by
  have hunit : 0 < den * 2 ^ p := Nat.mul_pos hden (Nat.two_pow_pos _)
  have hlarge := x.shift_eq_zero_or.resolve_left (by omega)
  have hnear {k : Nat} (hk : p + 53 ≤ x.shift + k) :
      num * 2 ^ 1074 < 2 ^ k * (den * 2 ^ x.shift) :=
    calc num * 2 ^ 1074 < den * 2 ^ (p + 53) := hshort
      _ ≤ den * 2 ^ (x.shift + k) := Nat.mul_le_mul_left den (Nat.pow_le_pow_right (by decide) hk)
      _ = 2 ^ k * (den * 2 ^ x.shift) := by
        rw [Nat.pow_add]
        ring
  have hlow := h.low
  have hlow_le := h.low_le
  generalize num * 2 ^ 1074 = ratio at hnear hlow hlow_le ⊢
  have hpower : x.significand = 2 ^ 52 := by
    have hless := hnear (k := 52) (by omega)
    by_contra hne
    have hstep : (2 ^ 52 + 1) * (den * 2 ^ x.shift) ≤ x.significand * (den * 2 ^ x.shift) :=
      Nat.mul_le_mul_right _ (by omega)
    omega
  rw [hpower] at hlow hlow_le
  have hnext : x.shift = p + 1 := by
    by_contra hne
    have hless := hnear (k := 51) (by omega)
    omega
  have hbelow : x.below = 1 := if_pos ⟨hpower, by omega⟩
  have hdouble : den * 2 ^ x.shift = 2 * (den * 2 ^ p) := by
    rw [hnext, Nat.pow_succ]
    ring
  have hless := hnear (k := 52) (by omega)
  rw [hbelow, hdouble] at hlow
  rw [hdouble] at hless
  exact ⟨hnext, hpower, roundDiv_eq (by omega) (by omega) (fun h => absurd h (by decide)) hunit⟩

/-- No ratio that is rounded to the number has a larger unit. -/
theorem Attracts.unit_le (hden : 0 < den) (hlong : p = 0 ∨ den * 2 ^ (p + 52) ≤ num * 2 ^ 1074) :
    p ≤ x.shift := by
  by_contra hmore
  have hunit : 0 < den * 2 ^ x.shift := Nat.mul_pos hden (Nat.two_pow_pos _)
  have hfar : 2 ^ 53 * (den * 2 ^ x.shift) ≤ num * 2 ^ 1074 :=
    calc 2 ^ 53 * (den * 2 ^ x.shift) = den * 2 ^ (x.shift + 53) := by
          rw [Nat.pow_add]
          ring
      _ ≤ den * 2 ^ (p + 52) :=
          Nat.mul_le_mul_left den (Nat.pow_le_pow_right (by decide) (by omega))
      _ ≤ num * 2 ^ 1074 := hlong.resolve_left (by omega)
  have hsignificand : x.significand * (den * 2 ^ x.shift) ≤ (2 ^ 53 - 1) * (den * 2 ^ x.shift) :=
    Nat.mul_le_mul_right _ (Nat.le_pred_of_lt x.significand_lt)
  have hhigh := h.high
  generalize num * 2 ^ 1074 = ratio at hfar hhigh
  omega

theorem Attracts.rounds (hden : 0 < den) (unit : HasUnit (num * 2 ^ 1074) den p) :
    p * 2 ^ 52 + roundDiv (num * 2 ^ 1074) (den * 2 ^ p) = x.magnitude := by
  rw [magnitude_eq]
  obtain hless | rfl := (h.unit_le hden unit.long).lt_or_eq
  · obtain ⟨hnext, hpower, hround⟩ := h.rounds_up hden hless unit.short
    rw [hround, hpower, hnext]
    omega
  · rw [h.roundDiv_eq_significand hden]

theorem ofRatio_of_attracts (hx : x.isZero = false) (hden : 0 < den) (finite : x.isFinite) :
    ofRatio x.isNegative num den = x := by
  obtain ⟨p, hunit, heq⟩ := ofRatio_eq (h.num_ne_zero hx hden) hden.ne' x.isNegative
  have hfinite : x.magnitude < infiniteMagnitude := of_decide_eq_true finite
  rw [heq, h.rounds hden hunit, Nat.min_eq_left hfinite.le, ofMagnitude_magnitude]

end Rounding

/-! ### Decimals -/

/-- A ratio is what the given digits stand for with their last one at the given decimal place. -/
def IsDecimalRatio (digits : Nat) (place : Int) (num den : Nat) : Prop :=
  num * 10 ^ (-place).toNat = digits * 10 ^ place.toNat * den

theorem reads_scale {a b a' b' c c' : Nat} (hc : 0 < c) (hc' : 0 < c') (ha : a * c = a' * c')
    (hb : b * c = b' * c') : (a ≤ b ↔ a' ≤ b') ∧ (a < b ↔ a' < b') := by
  constructor
  · rw [← Nat.mul_le_mul_right_iff hc, ha, hb, Nat.mul_le_mul_right_iff hc']
  · rw [← Nat.mul_lt_mul_right hc, ha, hb, Nat.mul_lt_mul_right hc']

theorem gridAt_unit (x : Binary64) (place : Int) :
    (x.gridAt place).unit = 2 ^ x.exponent.toNat * 10 ^ (-place).toNat := rfl

theorem gridAt_step (x : Binary64) (place : Int) :
    (x.gridAt place).step = 2 ^ (-x.exponent).toNat * 10 ^ place.toNat := rfl

theorem reads_eq (x : Binary64) (place : Int) (digits : Nat) :
    x.reads place digits =
      let low := (4 * x.significand - x.below) * (x.gridAt place).unit
      let high := (4 * x.significand + 2) * (x.gridAt place).unit
      let point := 4 * digits * (x.gridAt place).step
      if x.significand % 2 = 0 then decide (low ≤ point) && decide (point ≤ high)
      else decide (low < point) && decide (point < high) := by
  have hplace : x.exponent = -1074 ↔ x.shift = 0 := by
    rw [exponent_eq]
    omega
  have hbelow : (if x.significand = Nat.pow 2 52 ∧ x.exponent ≠ -1074 then 1 else 2) = x.below := by
    simp only [below, Nat.pow_eq, ne_eq, hplace]
  unfold reads
  dsimp only
  rw [hbelow]

/-- Zero does not round to a positive number. -/
theorem reads_zero (hx : x.isZero = false) (place : Int) : x.reads place 0 = false := by
  have hpos := significand_pos hx
  have hfar : 0 < 4 * x.significand - x.below := by
    rw [below]
    split_ifs <;> omega
  have hunit : 0 < (x.gridAt place).unit :=
    Nat.mul_pos (Nat.two_pow_pos _) (Nat.pow_pos (by decide))
  have hlow : 0 < (4 * x.significand - x.below) * (x.gridAt place).unit := Nat.mul_pos hfar hunit
  rw [reads_eq, Nat.mul_zero, Nat.zero_mul]
  dsimp only
  rw [decide_eq_false (Nat.not_le.mpr hlow), decide_eq_false (Nat.not_lt_zero _), Bool.false_and,
    Bool.false_and, ite_self]

/-- A grid point that reads as the number is a ratio that the number attracts. -/
theorem attracts_of_reads {place : Int} {digits : Nat} (hx : x.isZero = false) (hden : 0 < den)
    (ratio : IsDecimalRatio digits place num den) (h : x.reads place digits) :
    x.Attracts num den := by
  have hexponent := x.exponent_eq
  obtain ⟨rest, hrest⟩ : ∃ rest, (-x.exponent).toNat + rest = 1074 :=
    ⟨1074 - (-x.exponent).toNat, by omega⟩
  have hc : 0 < den * 2 ^ rest := Nat.mul_pos hden (Nat.two_pow_pos _)
  have hc' : 0 < 10 ^ (-place).toNat := Nat.pow_pos (by decide)
  have hunit : (x.gridAt place).unit * (den * 2 ^ rest) =
      den * 2 ^ x.shift * 10 ^ (-place).toNat := by
    have hshift : x.shift = x.exponent.toNat + rest := by omega
    rw [gridAt_unit, hshift, Nat.pow_add]
    ring
  have hpoint : 4 * digits * (x.gridAt place).step * (den * 2 ^ rest) =
      4 * (num * 2 ^ 1074) * 10 ^ (-place).toNat := by
    have hratio : num * 10 ^ (-place).toNat = digits * 10 ^ place.toNat * den := ratio
    calc 4 * digits * (x.gridAt place).step * (den * 2 ^ rest)
        = 4 * (digits * 10 ^ place.toNat * den) * (2 ^ (-x.exponent).toNat * 2 ^ rest) := by
          rw [gridAt_step]
          ring
      _ = 4 * (num * 2 ^ 1074) * 10 ^ (-place).toNat := by
          rw [← hratio, ← hrest, Nat.pow_add]
          ring
  have hend (k : Nat) : k * (x.gridAt place).unit * (den * 2 ^ rest) =
      k * (den * 2 ^ x.shift) * 10 ^ (-place).toNat := by
    rw [Nat.mul_assoc, hunit, ← Nat.mul_assoc]
  have hlow := reads_scale hc hc' (hend (4 * x.significand - x.below)) hpoint
  have hhigh := reads_scale hc hc' hpoint (hend (4 * x.significand + 2))
  rw [add_two_mul x (den * _)] at hhigh
  have hbelow := sub_below_mul hx (den * 2 ^ x.shift)
  rw [reads_eq] at h
  dsimp only at h
  split_ifs at h with heven
  · rw [Bool.and_eq_true, decide_eq_true_eq, decide_eq_true_eq, hlow.1, hhigh.1] at h
    have hlower := Nat.add_le_add_right h.1 (x.below * (den * 2 ^ x.shift))
    rw [hbelow] at hlower
    exact ⟨hlower, h.2, fun hodd => by rw [heven] at hodd; cases hodd⟩
  · rw [Bool.and_eq_true, decide_eq_true_eq, decide_eq_true_eq, hlow.2, hhigh.2] at h
    have hlower := Nat.add_lt_add_right h.1 (x.below * (den * 2 ^ x.shift))
    rw [hbelow] at hlower
    exact ⟨hlower.le, h.2.le, fun _ => ⟨hlower, h.2⟩⟩

theorem two_pow_lt {i j k : Nat} (h : i < 3 * j + k) : 2 ^ i < 10 ^ j * 2 ^ k :=
  calc 2 ^ i < 2 ^ (3 * j + k) := Nat.pow_lt_pow_right (by decide) h
    _ = 8 ^ j * 2 ^ k := by rw [Nat.pow_add, Nat.pow_mul]
    _ ≤ 10 ^ j * 2 ^ k := Nat.mul_le_mul_right _ (Nat.pow_le_pow_left (by decide) j)

section Decimal

variable {digits count : Nat} {place : Int}

/-- What a number attracts is neither so large nor so small that its place alone decides. -/
theorem Attracts.place_bounds (hx : x.isZero = false) (hdigits : 10 ^ (count - 1) ≤ digits)
    (hmost : digits < 10 ^ count)
    (h : x.Attracts (digits * 10 ^ place.toNat) (10 ^ (-place).toNat))
    (finite : x.isFinite) : count + place ≤ 400 ∧ -400 ≤ count + place := by
  have hshift : x.shift ≤ 2045 := by
    have hmagnitude : x.magnitude < 2047 * 2 ^ 52 := of_decide_eq_true finite
    rw [shift]
    omega
  have hscale : 0 < 10 ^ (-place).toNat := Nat.pow_pos (by decide)
  have hleast := Nat.mul_le_mul_right (10 ^ (-place).toNat * 2 ^ x.shift) (significand_pos hx)
  have hgreatest : x.significand * (10 ^ (-place).toNat * 2 ^ x.shift) ≤
      (2 ^ 53 - 1) * (10 ^ (-place).toNat * 2 ^ x.shift) :=
    Nat.mul_le_mul_right _ (Nat.le_pred_of_lt x.significand_lt)
  have hlow := h.low_le
  have hhigh := h.high
  obtain ⟨far, hfar⟩ : ∃ far, far = 400 := ⟨_, rfl⟩
  obtain ⟨least, hleast'⟩ : ∃ least, least = 1074 := ⟨_, rfl⟩
  rw [← hleast'] at hlow hhigh
  constructor
  · by_contra hlarge
    have hmany : 10 ^ far * 10 ^ (-place).toNat ≤ digits * 10 ^ place.toNat :=
      calc 10 ^ far * 10 ^ (-place).toNat = 10 ^ (far + (-place).toNat) := (Nat.pow_add _ _ _).symm
        _ ≤ 10 ^ (count - 1 + place.toNat) := Nat.pow_le_pow_right (by decide) (by omega)
        _ = 10 ^ (count - 1) * 10 ^ place.toNat := Nat.pow_add _ _ _
        _ ≤ digits * 10 ^ place.toNat := Nat.mul_le_mul_right _ hdigits
    have hfew : 10 ^ far * 2 ^ least * 10 ^ (-place).toNat ≤
        2 ^ (53 + x.shift) * 10 ^ (-place).toNat :=
      calc 10 ^ far * 2 ^ least * 10 ^ (-place).toNat
          = 10 ^ far * 10 ^ (-place).toNat * 2 ^ least := Nat.mul_right_comm _ _ _
        _ ≤ digits * 10 ^ place.toNat * 2 ^ least := Nat.mul_le_mul_right _ hmany
        _ ≤ 2 ^ 53 * (10 ^ (-place).toNat * 2 ^ x.shift) := by
          generalize digits * 10 ^ place.toNat * 2 ^ least = ratio at hlow hhigh ⊢
          omega
        _ = 2 ^ (53 + x.shift) * 10 ^ (-place).toNat := by
          rw [Nat.pow_add]
          ring
    have hcancel := Nat.le_of_mul_le_mul_right hfew hscale
    exact absurd hcancel (Nat.not_le.mpr (two_pow_lt (by omega)))
  · by_contra hsmall
    have hscale' : 10 ^ count * 10 ^ far ≤ 10 ^ (-place).toNat := by
      rw [← Nat.pow_add]
      exact Nat.pow_le_pow_right (by decide) (by omega)
    have hplace : place.toNat = 0 := by omega
    rw [hplace, Nat.pow_zero, Nat.mul_one] at hlow
    have hnear : 10 ^ (-place).toNat ≤ 10 ^ (-place).toNat * 2 ^ x.shift :=
      Nat.le_mul_of_pos_right _ (Nat.two_pow_pos _)
    have hfew : 10 ^ count * 10 ^ far < 10 ^ count * 2 ^ (least + 1) := by
      have hpower := Nat.mul_lt_mul_of_pos_right hmost (Nat.two_pow_pos least)
      rw [Nat.pow_succ, ← Nat.mul_assoc]
      generalize digits * 2 ^ least = ratio at hlow hpower
      generalize 10 ^ count * 2 ^ least = bound at hpower ⊢
      omega
    have hcancel := Nat.lt_of_mul_lt_mul_left hfew
    have hfar' : 2 ^ (least + 1) < 10 ^ far * 2 ^ 0 := two_pow_lt (by omega)
    omega

/-- Digits that the number attracts are rounded to it. -/
theorem ofDecimal_of_attracts (hx : x.isZero = false) (hleast : 10 ^ (count - 1) ≤ digits)
    (hmost : digits < 10 ^ count)
    (h : x.Attracts (digits * 10 ^ place.toNat) (10 ^ (-place).toNat)) (finite : x.isFinite) :
    ofDecimal x.isNegative digits count place = x := by
  have hden : 0 < 10 ^ (-place).toNat := Nat.pow_pos (by decide)
  have hdigits : digits ≠ 0 := (Nat.lt_of_lt_of_le (Nat.pow_pos (by decide)) hleast).ne'
  obtain ⟨hlarge, hsmall⟩ := h.place_bounds hx hleast hmost finite
  rw [ofDecimal, if_neg hdigits, if_neg (by omega), if_neg (by omega)]
  exact ofRatio_of_attracts h hx hden finite

end Decimal

/-! ### Seventeen digits -/

theorem reads_of_neighbour? {place : Int} {digits : Nat} (h : x.neighbour? place = some digits) :
    x.reads place digits := by
  unfold neighbour? at h
  dsimp only at h
  split at h
  · cases h
  · next hlower _ =>
      obtain rfl := Option.some.inj h
      exact hlower
  · next _ hupper =>
      obtain rfl := Option.some.inj h
      exact hupper
  · next hlower hupper =>
      split_ifs at h
      all_goals
        obtain rfl := Option.some.inj h
        first | exact hlower | exact hupper

theorem isSome_neighbour? {place : Int}
    (h : x.reads place (x.significand * (x.gridAt place).unit / (x.gridAt place).step) ∨
      x.reads place (x.significand * (x.gridAt place).unit / (x.gridAt place).step + 1)) :
    (x.neighbour? place).isSome := by
  unfold neighbour?
  dsimp only
  split
  · next hlower hupper => simp [hlower, hupper] at h
  · rfl
  · rfl
  · split_ifs <;> rfl

/-- Where the grid is fine enough, the nearer neighbour reads as the number. -/
theorem reads_neighbour (hx : x.isZero = false) {place : Int}
    (fine : 10 ^ 16 * (x.gridAt place).step ≤ x.significand * (x.gridAt place).unit) :
    x.reads place (x.significand * (x.gridAt place).unit / (x.gridAt place).step) ∨
      x.reads place (x.significand * (x.gridAt place).unit / (x.gridAt place).step + 1) := by
  have hpos := significand_pos hx
  have hlt := x.significand_lt
  have hstep : 0 < (x.gridAt place).step := by
    rw [gridAt_step]
    exact Nat.mul_pos (Nat.two_pow_pos _) (Nat.pow_pos (by decide))
  have hdivision := Nat.div_add_mod (x.significand * (x.gridAt place).unit) (x.gridAt place).step
  have hremainder := Nat.mod_lt (x.significand * (x.gridAt place).unit) hstep
  have hreads {digits : Nat}
      (hlow : (4 * x.significand - x.below) * (x.gridAt place).unit <
        4 * digits * (x.gridAt place).step)
      (hhigh : 4 * digits * (x.gridAt place).step <
        (4 * x.significand + 2) * (x.gridAt place).unit) : x.reads place digits := by
    rw [reads_eq]
    dsimp only
    split_ifs <;> simp [hlow, hhigh, hlow.le, hhigh.le]
  have hlow := sub_below_mul hx (x.gridAt place).unit
  have hpoint (digits : Nat) : 4 * digits * (x.gridAt place).step =
      4 * ((x.gridAt place).step * digits) := by
    rw [Nat.mul_assoc, Nat.mul_comm digits]
  rw [add_two_mul] at hreads
  simp only [hpoint] at hreads
  generalize (x.gridAt place).unit = unit at fine hdivision hremainder hreads hlow ⊢
  generalize (x.gridAt place).step = step at fine hdivision hremainder hreads hstep ⊢
  generalize x.significand * unit / step = lower at hdivision ⊢
  generalize x.significand * unit % step = rest at hdivision hremainder
  have hunit : step < unit := by
    by_contra hcoarse
    have hle : x.significand * unit ≤ 2 ^ 53 * step := Nat.mul_le_mul hlt.le (by omega)
    omega
  have hnear : 2 * step < x.below * unit := by
    obtain hbelow | ⟨hbelow, hpower, -⟩ := x.below_eq
    · rw [hbelow]
      omega
    · rw [hpower] at fine
      rw [hbelow]
      omega
  by_cases hhalf : 2 * rest < step
  · exact .inl (hreads (by omega) (by omega))
  · have hnext : step * (lower + 1) = step * lower + step := Nat.mul_succ step lower
    exact .inr (hreads (by omega) (by omega))

theorem estimates_low : ∀ n < 1024, 10 ^ (n * 30103 / 100000) ≤ 2 ^ n := by decide +kernel

theorem estimates_high : ∀ n < 1075, 2 ^ n ≤ 10 ^ ((n * 30103 + 99999) / 100000) := by
  decide +kernel

/-- The decimal logarithm of a power of two is not overestimated. -/
theorem ten_pow_le_two_pow {e : Int} (hleast : -1075 < e) (hmost : e < 1024) :
    10 ^ (Int.fdiv (e * 30103) 100000).toNat * 2 ^ (-e).toNat ≤
      2 ^ e.toNat * 10 ^ (-Int.fdiv (e * 30103) 100000).toNat := by
  rw [Int.fdiv_eq_ediv_of_nonneg _ (by decide)]
  by_cases he : 0 ≤ e
  · obtain ⟨n, rfl⟩ := Int.eq_ofNat_of_zero_le he
    have hplace : (n * 30103 / 100000 : Int).toNat = n * 30103 / 100000 := by omega
    have hneg : (-(n * 30103 / 100000 : Int)).toNat = 0 := by omega
    have hpower : (-(n : Int)).toNat = 0 := by omega
    rw [hplace, hneg, hpower, Int.toNat_natCast, Nat.pow_zero, Nat.mul_one, Nat.pow_zero,
      Nat.mul_one]
    exact estimates_low n (by omega)
  · obtain ⟨n, rfl⟩ : ∃ n : Nat, e = -n := ⟨e.natAbs, by omega⟩
    have hplace : (-(n : Int) * 30103 / 100000).toNat = 0 := by omega
    have hneg : (-(-(n : Int) * 30103 / 100000)).toNat = (n * 30103 + 99999) / 100000 := by omega
    have hpower : (-(n : Int)).toNat = 0 := by omega
    have hpower' : (- -(n : Int)).toNat = n := by omega
    rw [hplace, hneg, hpower, hpower', Nat.pow_zero, Nat.one_mul, Nat.pow_zero, Nat.one_mul]
    exact estimates_high n (by omega)

/-- The number is at least ten to its leading place. -/
theorem step_leadingPlace_le (hx : x.isZero = false) (finite : x.isFinite) :
    (x.gridAt x.leadingPlace).step ≤ x.significand * (x.gridAt x.leadingPlace).unit := by
  rw [leadingPlace]
  split_ifs with hnext
  · exact hnext
  have hpos := significand_pos hx
  have hlog : 2 ^ x.significand.log2 ≤ x.significand := Nat.log2_self_le hpos.ne'
  have hlt : x.significand.log2 < 53 := (Nat.log2_lt hpos.ne').mpr x.significand_lt
  have hexponent := x.exponent_eq
  have hshift : x.shift ≤ 2045 := by
    have hmagnitude : x.magnitude < 2047 * 2 ^ 52 := of_decide_eq_true finite
    rw [shift]
    omega
  generalize hbinary : (x.significand.log2 : Int) + x.exponent = binary
  have hten := ten_pow_le_two_pow (e := binary) (by omega) (by omega)
  generalize Int.fdiv (binary * 30103) 100000 = estimate at hten ⊢
  have hsum : (-x.exponent).toNat + binary.toNat =
      x.significand.log2 + x.exponent.toNat + (-binary).toNat := by omega
  rw [gridAt_step, gridAt_unit]
  refine Nat.le_of_mul_le_mul_right (c := 2 ^ (-binary).toNat) ?_ (Nat.two_pow_pos _)
  calc 2 ^ (-x.exponent).toNat * 10 ^ estimate.toNat * 2 ^ (-binary).toNat
      = 2 ^ (-x.exponent).toNat * (10 ^ estimate.toNat * 2 ^ (-binary).toNat) := Nat.mul_assoc _ _ _
    _ ≤ 2 ^ (-x.exponent).toNat * (2 ^ binary.toNat * 10 ^ (-estimate).toNat) :=
        Nat.mul_le_mul_left _ hten
    _ = 2 ^ ((-x.exponent).toNat + binary.toNat) * 10 ^ (-estimate).toNat := by
        rw [Nat.pow_add, Nat.mul_assoc]
    _ = 2 ^ x.significand.log2 *
          (2 ^ x.exponent.toNat * 10 ^ (-estimate).toNat * 2 ^ (-binary).toNat) := by
        rw [hsum, Nat.pow_add, Nat.pow_add]
        ring
    _ ≤ x.significand *
          (2 ^ x.exponent.toNat * 10 ^ (-estimate).toNat * 2 ^ (-binary).toNat) :=
        Nat.mul_le_mul_right _ hlog
    _ = x.significand * (2 ^ x.exponent.toNat * 10 ^ (-estimate).toNat) * 2 ^ (-binary).toNat := by
        ring

/-- Sixteen places below the leading one the grid is fine enough. -/
theorem fine_seventeenth {place : Int}
    (h : (x.gridAt place).step ≤ x.significand * (x.gridAt place).unit) :
    10 ^ 16 * (x.gridAt (place - 16)).step ≤ x.significand * (x.gridAt (place - 16)).unit := by
  have hsum : 16 + (place - 16).toNat + (-place).toNat = place.toNat + (-(place - 16)).toNat := by
    omega
  rw [gridAt_step, gridAt_unit] at h ⊢
  refine Nat.le_of_mul_le_mul_right (c := 10 ^ (-place).toNat) ?_ (Nat.pow_pos (by decide))
  calc 10 ^ 16 * (2 ^ (-x.exponent).toNat * 10 ^ (place - 16).toNat) * 10 ^ (-place).toNat
      = 2 ^ (-x.exponent).toNat * 10 ^ (16 + (place - 16).toNat + (-place).toNat) := by
        rw [Nat.pow_add, Nat.pow_add]
        ring
    _ = 2 ^ (-x.exponent).toNat * 10 ^ place.toNat * 10 ^ (-(place - 16)).toNat := by
        rw [hsum, Nat.pow_add, Nat.mul_assoc]
    _ ≤ x.significand * (2 ^ x.exponent.toNat * 10 ^ (-place).toNat) *
          10 ^ (-(place - 16)).toNat := Nat.mul_le_mul_right _ h
    _ = x.significand * (2 ^ x.exponent.toNat * 10 ^ (-(place - 16)).toNat) *
          10 ^ (-place).toNat := by ring

/-! ### The search -/

theorem reads_of_searchDigits {leading : Int} {fuel count : Nat} {d : Decimal}
    (h : x.searchDigits leading fuel count = some d) : x.reads d.place d.digits := by
  induction fuel generalizing count with
  | zero => cases h
  | succ fuel ih =>
      rw [searchDigits] at h
      split at h
      · next digits hdigits =>
          obtain rfl := Option.some.inj h
          exact reads_of_neighbour? hdigits
      · exact ih h

theorem isSome_searchDigits {leading : Int} {fuel count last : Nat} (hleast : count ≤ last)
    (hmost : last < count + fuel) (h : (x.neighbour? (leading - last + 1)).isSome) :
    (x.searchDigits leading fuel count).isSome := by
  induction fuel generalizing count with
  | zero => omega
  | succ fuel ih =>
      rw [searchDigits]
      split
      · rfl
      · next hnone =>
          refine ih ?_ (by omega)
          by_contra hlast
          obtain rfl : count = last := by omega
          rw [hnone] at h
          cases h

/-- The shortest digits read as the number: the search for them does not fail. -/
theorem reads_shortest (hx : x.isZero = false) (finite : x.isFinite) :
    x.reads x.shortest.place x.shortest.digits := by
  have hplace : x.leadingPlace - (17 : Nat) + 1 = x.leadingPlace - 16 := by omega
  have hfine := fine_seventeenth (step_leadingPlace_le hx finite)
  have hsome : (x.searchDigits x.leadingPlace 17 1).isSome := by
    have hlast : (x.neighbour? (x.leadingPlace - (17 : Nat) + 1)).isSome := by
      rw [hplace]
      exact isSome_neighbour? (reads_neighbour hx hfine)
    exact isSome_searchDigits (by decide) (by decide) hlast
  obtain ⟨d, hd⟩ := Option.isSome_iff_exists.mp hsome
  rw [shortest, hd]
  exact reads_of_searchDigits hd

end TypeSchema.Binary64
