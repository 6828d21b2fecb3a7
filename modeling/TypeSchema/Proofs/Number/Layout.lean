import TypeSchema.Json.Grammar
import TypeSchema.Json.Writer
import TypeSchema.Proofs.Number.Decimal
import TypeSchema.Proofs.Number.Shortest

/-!
# Finite numbers are set out as JSON numbers

Both layouts set a number out by figures: the shortest digits of the number, and zeros that only
move its place. The digits do not start with a zero, so the positional layout has no superfluous
zero in front of its point, and the scientific one a single digit. The figures stand for the decimal
that the digits are, and so they are read as the number.
-/

namespace TypeSchema

namespace Numeral

variable {base : Nat} {digits : List Nat}

theorem value_dropWhile (base : Nat) (digits : List Nat) :
    value base (digits.dropWhile (· = 0)) = value base digits := by
  induction digits with
  | nil => rfl
  | cons d rest ih =>
      by_cases hd : d = 0
      · have hzero : value base (0 :: rest) = value base rest :=
          value_leading_zeros base 1 rest
        rw [List.dropWhile_cons_of_pos (by simpa using hd), ih, hd, hzero]
      · rw [List.dropWhile_cons_of_neg (by simpa using hd)]

theorem pow_le_value (hne : digits ≠ []) (hleading : digits.head? ≠ some 0) :
    base ^ (digits.length - 1) ≤ value base digits := by
  obtain ⟨d, rest, rfl⟩ := List.exists_cons_of_ne_nil hne
  have hd : 0 < d := Nat.pos_of_ne_zero fun h => hleading (by rw [h]; rfl)
  have hvalue : value base (d :: rest) = d * base ^ rest.length + value base rest := by
    have h : value base ([d] ++ rest) = value base [d] * base ^ rest.length + value base rest :=
      value_append [d] rest
    simpa [value] using h
  rw [hvalue]
  exact Nat.le_add_right_of_le (Nat.le_mul_of_pos_left _ hd)

theorem head?_toDigits {n : Nat} (h : n ≠ 0) : (Nat.toDigits 10 n).head? ≠ some '0' := by
  induction n using Nat.strongRecOn with
  | ind n ih =>
      by_cases hn : n < 10
      · rw [Nat.toDigits_of_lt_base hn, List.head?_cons]
        exact (by decide : ∀ d < 10, d ≠ 0 → some (Nat.digitChar d) ≠ some '0') n hn h
      -- The digits in front of the last one are those of the quotient.
      · have hquotient : n / 10 ≠ 0 := by omega
        rw [Nat.toDigits_of_base_le (by decide) (by omega),
          List.head?_append_of_ne_nil _ Nat.toDigits_ne_nil]
        exact ih (n / 10) (Nat.div_lt_self (by omega) (by decide)) hquotient

/-- An integer is set out by figures before a point. -/
theorem exists_figures_toString (n : Int) :
    ∃ f : Figures, f.IsValid ∧ f.fraction = [] ∧ f.exponent = none ∧
      (toString n).toList = signChars (decide (n < 0)) ++ f.chars := by
  obtain ⟨digits, hdigits, hlt, -⟩ := exists_digits (by decide : 1 < 10) n.natAbs
  have hne : digits ≠ [] := by
    rintro rfl
    exact Nat.toDigits_ne_nil hdigits
  have hleading : digits.head? = some 0 → digits = [0] := by
    intro hhead
    have hzero : (Nat.toDigits 10 n.natAbs).head? = some '0' := by
      rw [hdigits, List.head?_map, hhead]
      rfl
    have habs : n.natAbs = 0 := by
      by_contra hn
      exact head?_toDigits hn hzero
    rw [habs] at hdigits
    obtain ⟨d, rfl, -⟩ := List.map_eq_singleton_iff.mp hdigits.symm
    rw [Option.some.inj hhead]
  have hall : ∀ d ∈ digits ++ [], d < 10 := (List.append_nil digits).symm ▸ hlt
  refine ⟨⟨digits, [], none⟩, .plain hall hne hleading, rfl, rfl, ?_⟩
  rw [toList_toString, hdigits]
  by_cases hn : n < 0
  · rw [if_pos hn, decide_eq_true hn, Figures.chars, Figures.fractionChars, if_pos rfl]
    simp [signChars, Figures.exponentChars]
  · rw [if_neg hn, decide_eq_false hn, Figures.chars, Figures.fractionChars, if_pos rfl]
    simp [signChars, Figures.exponentChars]

end Numeral

namespace Json

/-! ### Figures -/

section Figures

open Numeral

variable {f : Figures}

theorem areDigits_map {digits : List Nat} (hne : digits ≠ []) (hlt : ∀ d ∈ digits, d < 10) :
    AreDigits (digits.map Nat.digitChar) where
  nonempty := mt List.map_eq_nil_iff.mp hne
  digits := forall_digitChar hlt (by decide)

theorem isWhole_map (h : f.IsValid) : IsWhole (f.whole.map Nat.digitChar) where
  toAreDigits := areDigits_map h.whole_ne_nil h.whole_lt
  leading := by
    intro hhead
    obtain ⟨d, rest, hwhole⟩ := List.exists_cons_of_ne_nil h.whole_ne_nil
    have hfirst : Nat.digitChar d = '0' := by
      rw [hwhole] at hhead
      exact Option.some.inj hhead
    have hd : d = 0 := (by decide : ∀ d < 10, Nat.digitChar d = '0' → d = 0) d
      (h.whole_lt d (hwhole ▸ List.mem_cons_self)) hfirst
    rw [h.leading (by rw [hwhole, hd]; rfl)]
    rfl

theorem isFraction_fractionChars (h : f.IsValid) : IsFraction f.fractionChars := by
  rw [Figures.fractionChars]
  split_ifs with hnil
  · exact .none
  · exact .some (areDigits_map hnil h.fraction_lt)

theorem isExponent_exponentChars (h : f.IsValid) : IsExponent f.exponentChars := by
  rw [Figures.exponentChars]
  cases hexponent : f.exponent with
  | none => exact .none
  | some power =>
      obtain ⟨hne, hlt⟩ := h.exponent power hexponent
      have hsign : [if power.1 then '-' else '+'] = [] ∨ [if power.1 then '-' else '+'] = ['+'] ∨
          [if power.1 then '-' else '+'] = ['-'] := by
        split_ifs
        · exact .inr (.inr rfl)
        · exact .inr (.inl rfl)
      exact .some (.inl rfl) hsign (areDigits_map hne hlt)

theorem isNumber_chars (h : f.IsValid) (negative : Bool) :
    IsNumber (signChars negative ++ f.chars) := by
  have hsign : signChars negative = [] ∨ signChars negative = ['-'] := by
    cases negative
    · exact .inl rfl
    · exact .inr rfl
  have hnumber := IsNumber.mk hsign (isWhole_map h) (isFraction_fractionChars h)
    (isExponent_exponentChars h)
  rwa [List.append_assoc, List.append_assoc, ← List.append_assoc (f.whole.map _)] at hnumber

theorem isNumber_toString (n : Int) : IsNumber (toString n).toList := by
  obtain ⟨f, hf, -, -, hchars⟩ := exists_figures_toString n
  exact hchars ▸ isNumber_chars hf _

end Figures

end Json

namespace Binary64

open Json Numeral

variable {x : Binary64}

/-- The second decimal is the first one with zeros at its end, which belong to its digits. -/
def Decimal.Pads (d d' : Decimal) : Prop :=
  ∃ zeros : Nat, d'.digits = d.digits * 10 ^ zeros ∧ d'.place = d.place - zeros

theorem Decimal.strip_pads (fuel : Nat) (d : Decimal) : (d.strip fuel).Pads d := by
  induction fuel generalizing d with
  | zero => exact ⟨0, (Nat.mul_one _).symm, (Int.sub_zero _).symm⟩
  | succ fuel ih =>
      rw [Decimal.strip]
      split_ifs with hzero
      · obtain ⟨zeros, hdigits, hplace⟩ := ih ⟨d.digits / 10, d.place + 1⟩
        dsimp only at hdigits hplace
        refine ⟨zeros + 1, ?_, ?_⟩
        · rw [Nat.pow_succ, ← Nat.mul_assoc, ← hdigits]
          omega
        · omega
      · exact ⟨0, (Nat.mul_one _).symm, (Int.sub_zero _).symm⟩

theorem Decimal.Pads.digits_ne_zero {d d' : Decimal} (h : d.Pads d') (hd : d'.digits ≠ 0) :
    d.digits ≠ 0 := by
  obtain ⟨zeros, hdigits, -⟩ := h
  rintro hzero
  rw [hdigits, hzero, Nat.zero_mul] at hd
  exact hd rfl

/-- Zeros at the end change nothing about the number that a decimal reads as. -/
theorem attracts_of_pads (hx : x.isZero = false) {d d₁ d₂ : Decimal} (h₁ : d.Pads d₁)
    (h₂ : d.Pads d₂) (h : x.reads d₁.place d₁.digits) :
    x.Attracts (d₂.digits * 10 ^ d₂.place.toNat) (10 ^ (-d₂.place).toNat) := by
  obtain ⟨zeros₁, hdigits₁, hplace₁⟩ := h₁
  obtain ⟨zeros₂, hdigits₂, hplace₂⟩ := h₂
  refine attracts_of_reads hx (Nat.pow_pos (by decide)) ?_ h
  have hsum : zeros₂ + d₂.place.toNat + (-d₁.place).toNat =
      zeros₁ + d₁.place.toNat + (-d₂.place).toNat := by omega
  rw [IsDecimalRatio, hdigits₁, hdigits₂]
  calc d.digits * 10 ^ zeros₂ * 10 ^ d₂.place.toNat * 10 ^ (-d₁.place).toNat
      = d.digits * 10 ^ (zeros₂ + d₂.place.toNat + (-d₁.place).toNat) := by
        rw [Nat.pow_add, Nat.pow_add, Nat.mul_assoc, Nat.mul_assoc, Nat.mul_assoc]
    _ = d.digits * 10 ^ zeros₁ * 10 ^ d₁.place.toNat * 10 ^ (-d₂.place).toNat := by
        rw [hsum, Nat.pow_add, Nat.pow_add, Nat.mul_assoc, Nat.mul_assoc, Nat.mul_assoc]

/-- The decimal that figures stand for. -/
def decimalOf (f : Figures) : Decimal := ⟨value 10 f.digits, f.place⟩

/-- What figures are read as. -/
def ofFigures (negative : Bool) (f : Figures) : Binary64 :=
  ofDecimal negative (value 10 f.digits) (f.digits.dropWhile (· = 0)).length f.place

/-- Figures for a decimal that reads as the number are read as the number. -/
theorem ofFigures_eq (hx : x.isZero = false) (finite : x.isFinite) {f : Figures} (hf : f.IsValid)
    {d d' : Decimal} (hpads : d.Pads d') (hpads' : d.Pads (decimalOf f))
    (h : x.reads d'.place d'.digits) : ofFigures x.isNegative f = x := by
  have hattracts := attracts_of_pads hx hpads hpads' h
  have hvalue : value 10 (f.digits.dropWhile (· = 0)) = value 10 f.digits := value_dropWhile 10 _
  have hne : f.digits.dropWhile (· = 0) ≠ [] := by
    intro hnil
    rw [hnil] at hvalue
    have hnum := hattracts.num_ne_zero hx (Nat.pow_pos (by decide))
    exact hnum (by rw [decimalOf, ← hvalue]; exact Nat.zero_mul _)
  have hleading : (f.digits.dropWhile (· = 0)).head? ≠ some 0 := by
    intro hhead
    have h := List.head?_dropWhile_not (· = 0) f.digits
    rw [hhead] at h
    simp at h
  have hleast : 10 ^ ((f.digits.dropWhile (· = 0)).length - 1) ≤ value 10 f.digits :=
    hvalue ▸ pow_le_value hne hleading
  have hmost : value 10 f.digits < 10 ^ (f.digits.dropWhile (· = 0)).length := by
    rw [← hvalue]
    exact value_lt fun d hd => hf.lt d ((List.dropWhile_sublist _).subset hd)
  exact ofDecimal_of_attracts hx hleast hmost hattracts finite

theorem map_zeros (n : Nat) : (List.replicate n 0).map Nat.digitChar = zeros n :=
  List.map_replicate

theorem lt_of_mem_zeros {n : Nat} : ∀ d ∈ List.replicate n 0, d < 10 := by
  intro d hd
  rw [List.eq_of_mem_replicate hd]
  decide

section Layouts

variable {digits : List Nat} (hne : digits ≠ []) (hlt : ∀ d ∈ digits, d < 10)

include hne hlt

/-- The point stands behind the digits, between them or in front of them. -/
theorem exists_figures_positional (hleading : digits.head? ≠ some 0) (place : Int) :
    ∃ f : Figures, f.IsValid ∧ f.fraction ≠ [] ∧
      f.chars = positional (digits.map Nat.digitChar) place ∧
      Decimal.Pads ⟨value 10 digits, place⟩ (decimalOf f) := by
  rw [positional, List.length_map]
  by_cases hplace : 0 ≤ place
  · have hall : ∀ d ∈ digits ++ List.replicate place.toNat 0 ++ [0], d < 10 :=
      List.forall_mem_append.mpr ⟨List.forall_mem_append.mpr ⟨hlt, lt_of_mem_zeros⟩,
        List.forall_mem_singleton.mpr (by decide)⟩
    refine ⟨⟨digits ++ List.replicate place.toNat 0, [0], none⟩, .plain hall ?_ ?_,
      List.cons_ne_nil _ _, ?_, place.toNat + 1, ?_, ?_⟩
    · exact List.append_ne_nil_of_left_ne_nil hne _
    · rw [List.head?_append_of_ne_nil _ hne]
      exact fun h => absurd h hleading
    · rw [if_pos hplace, Figures.chars, Figures.fractionChars, if_neg (List.cons_ne_nil _ _),
        List.map_append, map_zeros, Figures.exponentChars]
      exact List.append_nil _
    · have hzeros : value 10 (List.replicate place.toNat 0 ++ [0]) = 0 := by
        rw [← List.replicate_succ', value_zeros]
      rw [decimalOf, Figures.digits, List.append_assoc, value_append, hzeros, Nat.add_zero,
        List.length_append, List.length_replicate, List.length_singleton]
    · simp [decimalOf, Figures.place]
      omega
  rw [if_neg hplace]
  dsimp only
  by_cases hfraction : (-place).toNat < digits.length
  · have hdrop : digits.drop (digits.length - (-place).toNat) ≠ [] := by
      rw [ne_eq, List.drop_eq_nil_iff]
      omega
    have htake : digits.take (digits.length - (-place).toNat) ≠ [] := by
      rw [ne_eq, List.take_eq_nil_iff]
      exact fun h => h.elim (by omega) hne
    refine ⟨⟨digits.take (digits.length - (-place).toNat),
      digits.drop (digits.length - (-place).toNat), none⟩, .plain ?_ htake ?_,
      hdrop, ?_, 0, ?_, ?_⟩
    · rwa [List.take_append_drop]
    · rw [List.head?_take, if_neg (by omega)]
      exact fun h => absurd h hleading
    · rw [if_pos hfraction, Figures.chars, Figures.fractionChars, if_neg hdrop, List.map_take,
        List.map_drop, Figures.exponentChars]
      exact List.append_nil _
    · rw [decimalOf, Figures.digits, List.take_append_drop]
      exact (Nat.mul_one _).symm
    · simp [decimalOf, Figures.place]
      omega
  · generalize hzeros : (-place).toNat - digits.length = leading
    have hall : ∀ d ∈ [0] ++ (List.replicate leading 0 ++ digits), d < 10 :=
      List.forall_mem_append.mpr ⟨List.forall_mem_singleton.mpr (by decide),
        List.forall_mem_append.mpr ⟨lt_of_mem_zeros, hlt⟩⟩
    have hnil := List.append_ne_nil_of_right_ne_nil (List.replicate leading 0) hne
    refine ⟨⟨[0], List.replicate leading 0 ++ digits, none⟩,
      .plain hall (List.cons_ne_nil _ _) (fun _ => rfl), hnil, ?_, 0, ?_, ?_⟩
    · rw [if_neg hfraction, Figures.chars, Figures.fractionChars, if_neg hnil, List.map_append,
        map_zeros, Figures.exponentChars]
      exact List.append_nil _
    · have hvalue : value 10 ([0] ++ (List.replicate leading 0 ++ digits)) = value 10 digits := by
        rw [← List.append_assoc, ← List.replicate_one, ← List.replicate_add, value_leading_zeros]
      rw [decimalOf, Figures.digits, hvalue, Nat.pow_zero, Nat.mul_one]
    · simp [decimalOf, Figures.place]
      omega

theorem exists_figures_scientific (exponentDigits : Nat) (place : Int) :
    ∃ f : Figures, f.IsValid ∧ f.exponent ≠ none ∧
      f.chars = scientific exponentDigits (digits.map Nat.digitChar)
        (place + digits.length - 1) ∧
      Decimal.Pads ⟨value 10 digits, place⟩ (decimalOf f) := by
  obtain ⟨first, rest, rfl⟩ := List.exists_cons_of_ne_nil hne
  generalize hexponent : place + (first :: rest).length - 1 = exponent
  obtain ⟨power, hpower, hpowerlt, hvalue⟩ := exists_digits (by decide : 1 < 10) exponent.natAbs
  have hall : ∀ d ∈ List.replicate (exponentDigits - power.length) 0 ++ power, d < 10 :=
    List.forall_mem_append.mpr ⟨lt_of_mem_zeros, hpowerlt⟩
  have hnil : power ≠ [] := by
    rintro rfl
    exact Nat.toDigits_ne_nil hpower
  refine ⟨⟨[first], rest, some (decide (exponent < 0),
    List.replicate (exponentDigits - power.length) 0 ++ power)⟩,
    ⟨hlt, List.cons_ne_nil _ _, ?_, ?_⟩, Option.some_ne_none _, ?_, 0, (Nat.mul_one _).symm, ?_⟩
  · intro hhead
    rw [Option.some.inj hhead]
  · intro power' hpower'
    obtain rfl := Option.some.inj hpower'
    exact ⟨List.append_ne_nil_of_right_ne_nil _ hnil, hall⟩
  · have hpoint : (if rest = [] then [] else '.' :: rest.map Nat.digitChar) =
        if (first :: rest).length ≤ 1 then [] else
          '.' :: ((first :: rest).map Nat.digitChar).drop 1 := by
      cases rest <;> rfl
    rw [scientific, hpower, List.length_map, List.length_map, ← hpoint, Figures.chars,
      Figures.fractionChars, Figures.exponentChars]
    simp [zeros]
  · have hsign : applySign (decide (exponent < 0))
        (value 10 (List.replicate (exponentDigits - power.length) 0 ++ power)) = exponent := by
      rw [value_leading_zeros, hvalue, applySign]
      split_ifs with hnegative <;> simp only [decide_eq_true_eq] at hnegative <;> omega
    have hlength : (first :: rest).length = rest.length + 1 := rfl
    change applySign _ _ - rest.length = place - (0 : Nat)
    rw [hsign]
    omega

end Layouts

/-- A finite number is set out by figures that are read as the number, and not as an integer. -/
theorem exists_figures_render (layout : Layout) (finite : x.isFinite) :
    ∃ f : Figures, f.IsValid ∧ (f.fraction ≠ [] ∨ f.exponent ≠ none) ∧
      (x.render layout).toList = signChars x.isNegative ++ f.chars ∧
      ofFigures x.isNegative f = x := by
  have hnan : x.isNaN = false := by
    have hfinite : x.magnitude < infiniteMagnitude := of_decide_eq_true finite
    exact decide_eq_false (by omega)
  have hsign : (if x.isNegative then "-" else "").toList = signChars x.isNegative := by
    cases x.isNegative <;> rfl
  rw [render, hnan, finite]
  simp only [Bool.false_eq_true, if_false, Bool.not_true]
  by_cases hx : x.isZero
  · have hmagnitude : x.magnitude = 0 := of_decide_eq_true hx
    have hzero : ofMagnitude x.isNegative 0 = x := hmagnitude ▸ x.ofMagnitude_magnitude
    refine ⟨⟨[0], [0], none⟩, .plain (by decide) (by decide) fun _ => rfl, .inl (by decide),
      ?_, hzero⟩
    rw [if_pos hx, String.toList_append, hsign]
    rfl
  rw [if_neg hx, String.toList_append, String.toList_ofList, hsign]
  rw [Bool.not_eq_true] at hx
  have hreads := reads_shortest hx finite
  have hpads := Decimal.strip_pads 17 x.shortest
  have hne : (Decimal.strip 17 x.shortest).digits ≠ 0 := by
    refine hpads.digits_ne_zero fun hzero => ?_
    rw [hzero, reads_zero hx] at hreads
    cases hreads
  generalize Decimal.strip 17 x.shortest = d at hpads hne ⊢
  obtain ⟨n, place⟩ := d
  dsimp only at hne ⊢
  obtain ⟨digits, hdigits, hlt, rfl⟩ := exists_digits (by decide : 1 < 10) n
  have hnil : digits ≠ [] := by
    rintro rfl
    exact Nat.toDigits_ne_nil hdigits
  have hleading : digits.head? ≠ some 0 := by
    intro hhead
    refine head?_toDigits hne ?_
    rw [hdigits, List.head?_map, hhead]
    rfl
  rw [hdigits, List.length_map]
  split_ifs
  · obtain ⟨f, hf, hfraction, hchars, hpads'⟩ := exists_figures_positional hnil hlt hleading place
    exact ⟨f, hf, .inl hfraction, by rw [hchars], ofFigures_eq hx finite hf hpads hpads' hreads⟩
  · obtain ⟨f, hf, hexponent, hchars, hpads'⟩ :=
      exists_figures_scientific hnil hlt layout.exponentDigits place
    exact ⟨f, hf, .inr hexponent, by rw [hchars], ofFigures_eq hx finite hf hpads hpads' hreads⟩

/-- A finite number is set out as a JSON number. -/
theorem isNumber_render (layout : Layout) (finite : x.isFinite) :
    IsNumber (x.render layout).toList := by
  obtain ⟨f, hf, -, hchars, -⟩ := exists_figures_render layout finite
  exact hchars ▸ isNumber_chars hf x.isNegative

/-- What a finite number is set out as is read as the number. -/
theorem decimal?_render (layout : Layout) (finite : x.isFinite) :
    decimal? (x.render layout).toList = some x := by
  obtain ⟨f, hf, -, hchars, hread⟩ := exists_figures_render layout finite
  rw [hchars, Figures.decimal?_chars hf]
  exact congrArg some hread

end Binary64

end TypeSchema
