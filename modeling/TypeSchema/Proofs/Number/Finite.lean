import Mathlib.Tactic.Linarith
import TypeSchema.Json.Grammar
import TypeSchema.Number.Literal
import TypeSchema.Proofs.Basic

/-!
# Arithmetic stays finite

A literal that is too large to be finite is refused, and nothing that is done to the value of a
literal afterwards makes it infinite: its sign can be changed, its complement is an integer, and
what comes after the largest finite number rounds back to it.

Ratios are measured in units of `2 ^ -1074`, the least positive number. A ratio is rounded to a
multiple of the unit times some power of two; the power is determined by the ratio, and it stays
that of the largest finite number as long as the ratio exceeds this number by no more than one.
-/

namespace TypeSchema

namespace Binary64

/-! ### Rounding -/

theorem roundDiv_le {num den k : Nat} (h : 2 * num < (2 * k + 1) * den) :
    roundDiv num den ≤ k := by
  have hden : 0 < den := Nat.pos_of_ne_zero fun hzero => by simp [hzero] at h
  have hdivision := Nat.div_add_mod num den
  have hquotient : num / den < k + 1 := by
    rw [Nat.div_lt_iff_lt_mul hden]
    nlinarith
  rw [roundDiv]
  -- Only a quotient of `k` could be rounded to more, and then the remainder is less than a half.
  obtain hlt | heq := Nat.lt_or_eq_of_le (Nat.le_of_lt_succ hquotient)
  · split_ifs <;> omega
  · have hremainder : 2 * (num % den) < den := by
      rw [heq] at hdivision
      nlinarith
    rw [if_pos hremainder]
    exact heq.le

theorem roundDiv_mul_right (num den : Nat) {c : Nat} (hc : 0 < c) :
    roundDiv (num * c) (den * c) = roundDiv num den := by
  have htwice : 2 * (num % den * c) = 2 * (num % den) * c := (Nat.mul_assoc _ _ _).symm
  rw [roundDiv, roundDiv, Nat.mul_div_mul_right _ _ hc, Nat.mul_mod_mul_right]
  simp only [htwice, Nat.mul_lt_mul_right hc]

/-- In multiples of `2 ^ p` the ratio has no more than 53 binary places, and no fewer unless `p` is
zero. -/
structure HasUnit (num den p : Nat) : Prop where
  short : num < den * 2 ^ (p + 53)
  long : p = 0 ∨ den * 2 ^ (p + 52) ≤ num

/-- An exponent is taken relative to the least one, which makes both parts naturals. -/
theorem scaleDown_mul (num den : Nat) {e : Int} {p : Nat} (he : e = p - 1074) :
    ∃ c, 0 < c ∧ (scaleDown num den e).1 * c = num * 2 ^ 1074 ∧
      (scaleDown num den e).2 * c = den * 2 ^ p := by
  refine ⟨2 ^ (1074 - (-e).toNat), Nat.two_pow_pos _, ?_, ?_⟩
  · rw [scaleDown, Nat.pow_eq, Nat.pow_eq, Nat.mul_assoc, ← Nat.pow_add]
    congr 2
    omega
  · rw [scaleDown, Nat.pow_eq, Nat.pow_eq, Nat.mul_assoc, ← Nat.pow_add]
    congr 2
    omega

theorem scaleDown_lt_iff (num den k : Nat) {e : Int} {p : Nat} (he : e = p - 1074) :
    (scaleDown num den e).1 < k * (scaleDown num den e).2 ↔
      num * 2 ^ 1074 < k * (den * 2 ^ p) := by
  obtain ⟨c, hc, hnum, hden⟩ := scaleDown_mul num den he
  rw [← hnum, ← hden, ← Nat.mul_assoc, Nat.mul_lt_mul_right hc]

section Estimate

variable {num den : Nat} (hnum : num ≠ 0) (hden : den ≠ 0)

include hden in
theorem mul_two_pow_lt {m k : Nat} (h : num.log2 + 1 + m ≤ den.log2 + k) :
    num * 2 ^ m < den * 2 ^ k :=
  calc num * 2 ^ m
      < 2 ^ (num.log2 + 1) * 2 ^ m :=
        Nat.mul_lt_mul_of_pos_right Nat.lt_log2_self (Nat.two_pow_pos _)
    _ = 2 ^ (num.log2 + 1 + m) := (Nat.pow_add _ _ _).symm
    _ ≤ 2 ^ (den.log2 + k) := Nat.pow_le_pow_right (by decide) h
    _ = 2 ^ den.log2 * 2 ^ k := Nat.pow_add _ _ _
    _ ≤ den * 2 ^ k := Nat.mul_le_mul_right _ (Nat.log2_self_le hden)

include hnum hden

/-- The exponent of a ratio fits it. It is estimated from the binary places of numerator and
denominator, and the estimate is too low by one at most. -/
theorem hasUnit_exponentOf :
    ∃ p : Nat, exponentOf num den = p - 1074 ∧ HasUnit (num * 2 ^ 1074) den p := by
  rw [exponentOf]
  by_cases hleast : (num.log2 : Int) - den.log2 - 53 < -1074
  · refine ⟨0, ?_, mul_two_pow_lt hden (by omega), .inl rfl⟩
    split_ifs <;> omega
  obtain ⟨p, hp⟩ : ∃ p : Nat, (num.log2 : Int) - den.log2 - 53 = p - 1074 :=
    ⟨(num.log2 - den.log2 - 53 + 1074 : Int).toNat, by omega⟩
  have hshift (k : Nat) : 2 ^ 53 * (den * 2 ^ k) = den * 2 ^ (k + 53) := by
    rw [Nat.mul_left_comm, ← Nat.pow_add, Nat.add_comm 53]
  rw [hp, Nat.pow_eq]
  simp only [scaleDown_lt_iff num den (2 ^ 53) rfl, hshift]
  by_cases hshort : num * 2 ^ 1074 < den * 2 ^ (p + 53)
  · refine ⟨p, ?_, hshort, .inr (mul_two_pow_lt hnum (by omega)).le⟩
    rw [if_pos hshort]
    omega
  · refine ⟨p + 1, ?_, mul_two_pow_lt hden (by omega), .inr (Nat.le_of_not_lt hshort)⟩
    rw [if_neg hshort]
    omega

/-- The magnitude of a rounded ratio. -/
theorem ofRatio_eq (negative : Bool) : ∃ p, HasUnit (num * 2 ^ 1074) den p ∧
    ofRatio negative num den = ofMagnitude negative
      (min (p * 2 ^ 52 + roundDiv (num * 2 ^ 1074) (den * 2 ^ p)) infiniteMagnitude) := by
  obtain ⟨p, hp, hunit⟩ := hasUnit_exponentOf hnum hden
  obtain ⟨c, hc, hc₁, hc₂⟩ := scaleDown_mul num den hp
  refine ⟨p, hunit, ?_⟩
  have hplace : (exponentOf num den + 1074).toNat = p := by omega
  rw [ofRatio, if_neg hnum, ← hc₁, ← hc₂, roundDiv_mul_right _ _ hc]
  dsimp only
  rw [hplace]
  rfl

end Estimate

/-! ### Finite numbers -/

theorem infiniteMagnitude_eq : infiniteMagnitude = 2047 * 2 ^ 52 := rfl

theorem magnitude_ofMagnitude (negative : Bool) {magnitude : Nat} (h : magnitude < 2 ^ 63) :
    (ofMagnitude negative magnitude).magnitude = magnitude := by
  rw [Binary64.magnitude, ofMagnitude, UInt64.toNat_ofNat', Nat.pow_eq]
  split_ifs <;> omega

theorem isFinite_ofMagnitude (negative : Bool) {magnitude : Nat}
    (h : magnitude < infiniteMagnitude) : (ofMagnitude negative magnitude).isFinite := by
  rw [infiniteMagnitude_eq] at h
  rw [isFinite, magnitude_ofMagnitude negative (by omega), infiniteMagnitude_eq]
  exact decide_eq_true h

theorem isNaN_ofMagnitude (negative : Bool) {magnitude : Nat}
    (h : magnitude ≤ infiniteMagnitude) : (ofMagnitude negative magnitude).isNaN = false := by
  have hlt : magnitude < 2 ^ 63 := by
    rw [infiniteMagnitude_eq] at h
    omega
  rw [isNaN, magnitude_ofMagnitude negative hlt]
  exact decide_eq_false (Nat.not_lt.mpr h)

theorem isNaN_ofRatio (negative : Bool) (num den : Nat) :
    (ofRatio negative num den).isNaN = false := by
  rw [ofRatio]
  split_ifs
  · exact isNaN_ofMagnitude negative (Nat.zero_le _)
  · exact isNaN_ofMagnitude negative (Nat.min_le_right _ _)

/-- Decimals are rounded to infinity at most. -/
theorem isNaN_ofDecimal (negative : Bool) (digits count : Nat) (e : Int) :
    (ofDecimal negative digits count e).isNaN = false := by
  rw [ofDecimal]
  split_ifs
  · exact isNaN_ofMagnitude negative (Nat.zero_le _)
  · exact isNaN_ofMagnitude negative (Nat.le_refl _)
  · exact isNaN_ofMagnitude negative (Nat.zero_le _)
  · exact isNaN_ofRatio negative _ _

theorem isFinite_neg {x : Binary64} (h : x.isFinite) : x.neg.isFinite :=
  isFinite_ofMagnitude _ (of_decide_eq_true h)

/-! ### The largest finite number -/

section Largest

variable {num den p m n : Nat} (hden : den ≠ 0) (hn : 1 < n)
  (h : num ≤ ((2 ^ 53 - 1) * 2 ^ n + 1) * den) (hunit : HasUnit (num * 2 ^ m) den p)

include hden hn h hunit

/-- A ratio that exceeds a number of 53 places by no more than one has its unit. -/
theorem HasUnit.le_add : p ≤ n + m := by
  by_contra hlarge
  have hpow : den * (2 ^ 53 * 2 ^ n) * 2 ^ m ≤ num * 2 ^ m :=
    calc den * (2 ^ 53 * 2 ^ n) * 2 ^ m
        = den * 2 ^ (53 + n + m) := by rw [Nat.pow_add, Nat.pow_add, Nat.mul_assoc]
      _ ≤ den * 2 ^ (p + 52) :=
          Nat.mul_le_mul_left _ (Nat.pow_le_pow_right (by decide) (by omega))
      _ ≤ num * 2 ^ m := hunit.long.resolve_left (by omega)
  have hcancel : den * (2 ^ 53 * 2 ^ n) ≤ den * ((2 ^ 53 - 1) * 2 ^ n + 1) := by
    rw [Nat.mul_comm den ((2 ^ 53 - 1) * 2 ^ n + 1)]
    exact (Nat.le_of_mul_le_mul_right hpow (Nat.two_pow_pos _)).trans h
  have hpowers := Nat.le_of_mul_le_mul_left hcancel (Nat.pos_of_ne_zero hden)
  have hone : 1 < 2 ^ n := Nat.one_lt_two_pow (by omega)
  omega

theorem HasUnit.round_lt :
    p * 2 ^ 52 + roundDiv (num * 2 ^ m) (den * 2 ^ p) < (n + m + 2) * 2 ^ 52 := by
  have hp := hunit.le_add hden hn h
  obtain hlt | rfl := Nat.lt_or_eq_of_le hp
  · have hround : roundDiv (num * 2 ^ m) (den * 2 ^ p) ≤ 2 ^ 53 := by
      refine roundDiv_le ?_
      have hshort := hunit.short
      rw [Nat.pow_add, ← Nat.mul_assoc] at hshort
      omega
    omega
  -- With the unit of the number itself, one is less than half of the unit.
  · have hround : roundDiv (num * 2 ^ m) (den * 2 ^ (n + m)) ≤ 2 ^ 53 - 1 := by
      have hpos : 0 < den * 2 ^ m := Nat.mul_pos (Nat.pos_of_ne_zero hden) (Nat.two_pow_pos m)
      have hunit : den * 2 ^ (n + m) = 2 ^ n * (den * 2 ^ m) := by
        rw [Nat.pow_add, Nat.mul_left_comm]
      have hfew : 2 < 2 ^ n :=
        Nat.lt_of_lt_of_le (by decide : 2 < 2 ^ 2) (Nat.pow_le_pow_right (by decide) hn)
      have hless : 2 * (den * 2 ^ m) < 2 ^ n * (den * 2 ^ m) :=
        Nat.mul_lt_mul_of_pos_right hfew hpos
      have hratio : num * 2 ^ m ≤ (2 ^ 53 - 1) * (2 ^ n * (den * 2 ^ m)) + den * 2 ^ m :=
        calc num * 2 ^ m ≤ ((2 ^ 53 - 1) * 2 ^ n + 1) * den * 2 ^ m := Nat.mul_le_mul_right _ h
          _ = (2 ^ 53 - 1) * (2 ^ n * (den * 2 ^ m)) + den * 2 ^ m := by
              rw [Nat.mul_assoc, Nat.succ_mul, Nat.mul_assoc]
      refine roundDiv_le ?_
      rw [hunit]
      omega
    omega

end Largest

/-- The exponent of the largest finite number, whose significand is `2 ^ 53 - 1`. -/
def topExponent : Nat := 971

theorem isFinite_ofRatio (negative : Bool) {num den : Nat} (hden : den ≠ 0)
    (h : num ≤ ((2 ^ 53 - 1) * 2 ^ topExponent + 1) * den) :
    (ofRatio negative num den).isFinite := by
  by_cases hnum : num = 0
  · rw [ofRatio, if_pos hnum]
    exact isFinite_ofMagnitude negative (by decide)
  · obtain ⟨p, hunit, heq⟩ := ofRatio_eq hnum hden negative
    have hfinite : p * 2 ^ 52 + roundDiv (num * 2 ^ 1074) (den * 2 ^ p) < infiniteMagnitude :=
      hunit.round_lt (n := topExponent) hden (by decide) h
    rw [heq, Nat.min_eq_left hfinite.le]
    exact isFinite_ofMagnitude negative hfinite

/-- A finite number is at most the largest one, and so is the numerator of its fraction. -/
theorem natAbs_numerator_le {x : Binary64} (h : x.isFinite) :
    x.numerator.natAbs ≤ (2 ^ 53 - 1) * 2 ^ topExponent := by
  have hmagnitude : x.magnitude < 2047 * 2 ^ 52 := of_decide_eq_true h
  have hsignificand : x.significand ≤ 2 ^ 53 - 1 := by
    rw [significand, Nat.pow_eq]
    split_ifs <;> omega
  have hexponent : x.exponent.toNat ≤ topExponent := by
    rw [exponent, Nat.pow_eq, topExponent]
    omega
  have habs : x.numerator.natAbs = x.significand * 2 ^ x.exponent.toNat := by
    rw [numerator, Nat.pow_eq]
    split_ifs <;> omega
  rw [habs]
  exact Nat.mul_le_mul hsignificand (Nat.pow_le_pow_right (by decide) hexponent)

theorem isFinite_succ {x : Binary64} (h : x.isFinite) : x.succ.isFinite := by
  have hden : x.denominator ≠ 0 := (Nat.pow_pos (by decide)).ne'
  have hsum : (x.numerator + x.denominator).natAbs ≤
      ((2 ^ 53 - 1) * 2 ^ topExponent + 1) * x.denominator :=
    calc (x.numerator + x.denominator).natAbs
        ≤ x.numerator.natAbs + x.denominator := by omega
      _ ≤ (2 ^ 53 - 1) * 2 ^ topExponent + x.denominator :=
          Nat.add_le_add_right (natAbs_numerator_le h) _
      _ ≤ (2 ^ 53 - 1) * 2 ^ topExponent * x.denominator + x.denominator :=
          Nat.add_le_add_right (Nat.le_mul_of_pos_right _ (Nat.pos_of_ne_zero hden)) _
      _ = ((2 ^ 53 - 1) * 2 ^ topExponent + 1) * x.denominator := by rw [Nat.succ_mul]
  rw [succ, if_pos h]
  exact isFinite_ofRatio _ hden hsum

end Binary64

namespace Number

variable {n m : Number}

theorem isFinite_succ (h : n.isFinite) : n.succ.isFinite := by
  cases n with
  | integer n => rfl
  | real x => exact Binary64.isFinite_succ h

theorem isFinite_neg (h : n.isFinite) : n.neg.isFinite := by
  cases n with
  | integer n => rfl
  | real x => exact Binary64.isFinite_neg h

theorem isFinite_of_complement? (h : n.complement? = some m) : m.isFinite := by
  cases n with
  | integer n =>
      cases h
      rfl
  | real x =>
      obtain ⟨n, -, rfl⟩ := Option.map_eq_some_iff.mp h
      rfl

end Number

namespace NumericLiteral

theorem isFinite_of_read {text : String} {n : Number} (h : read text = .ok n) : n.isFinite := by
  unfold read at h
  dsimp only at h
  split_ifs at h with hreal
  · obtain ⟨x, -, hx⟩ := except_bind_eq_ok_iff.mp h
    split_ifs at hx with hfinite
    obtain rfl := Except.ok.inj hx
    exact hfinite
  · obtain ⟨v, -, hv⟩ := except_bind_eq_ok_iff.mp h
    obtain rfl := Except.ok.inj hv
    rfl

theorem isFinite_of_toOption {text : String} {n : Number} (h : (read text).toOption = some n) :
    n.isFinite :=
  isFinite_of_read (except_toOption_eq_some_iff.mp h)

theorem isFinite_of_unary? {text : String} {n : Number} (h : unary? text = some n) :
    n.isFinite := by
  unfold unary? at h
  split at h
  · split_ifs at h
    split at h
    · obtain ⟨m, hm, rfl⟩ := Option.map_eq_some_iff.mp h
      exact Number.isFinite_neg (isFinite_of_toOption hm)
    · exact isFinite_of_toOption h
    · obtain ⟨m, -, hm⟩ := Option.bind_eq_some_iff.mp h
      exact Number.isFinite_of_complement? hm
    · cases h
  · cases h

end NumericLiteral

end TypeSchema
