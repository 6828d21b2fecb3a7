import Mathlib.Algebra.Group.Nat.Defs
import Mathlib.Data.List.Induction
import Mathlib.Data.List.TakeWhile
import TypeSchema.Number.Literal

/-!
# Numerals read back

The digits of a natural number in a base up to sixteen, as they are usually written, are read as
that number: every character is the digit of a value below the base, and appending a digit
multiplies by the base. Nothing in them is a blank, a sign or a letter that marks another kind of
numeral, so they are read alone as well as behind a sign, behind a base prefix and before the mark
of a literal of arbitrary size.
-/

namespace TypeSchema

theorem Number.isTooLong_integer_iff {n : Int} :
    (Number.integer n).isTooLong ↔ 10 ^ Number.digitLimit ≤ n.natAbs := by
  rw [isTooLong, decide_eq_true_iff, Nat.pow_eq]

namespace Numeral

variable {base : Nat} {digits : List Nat}

theorem value_append_singleton (digits : List Nat) (d : Nat) :
    value base (digits ++ [d]) = value base digits * base + d := by
  rw [value, value, List.foldl_append]
  rfl

theorem value_append (digits rest : List Nat) :
    value base (digits ++ rest) = value base digits * base ^ rest.length + value base rest := by
  induction rest using List.reverseRecOn with
  | nil => simp [value]
  | append_singleton rest d ih =>
      rw [← List.append_assoc, value_append_singleton, ih, value_append_singleton,
        List.length_append, List.length_singleton, Nat.pow_succ, Nat.add_mul, Nat.mul_assoc,
        Nat.add_assoc]

theorem value_zeros (base n : Nat) : value base (List.replicate n 0) = 0 := by
  induction n with
  | zero => rfl
  | succ n ih => rw [List.replicate_succ', value_append_singleton, ih, Nat.zero_mul]

theorem value_leading_zeros (base zeros : Nat) (digits : List Nat) :
    value base (List.replicate zeros 0 ++ digits) = value base digits := by
  rw [value_append, value_zeros, Nat.zero_mul, Nat.zero_add]

theorem value_lt (h : ∀ d ∈ digits, d < base) : value base digits < base ^ digits.length := by
  induction digits using List.reverseRecOn with
  | nil => exact Nat.one_pos
  | append_singleton digits d ih =>
      have hrest := ih fun e he => h e (List.mem_append_left _ he)
      have hlast : d < base := h d (by simp)
      rw [value_append_singleton, List.length_append, List.length_singleton, Nat.pow_succ]
      calc value base digits * base + d < value base digits * base + base := by omega
        _ = (value base digits + 1) * base := by rw [Nat.succ_mul]
        _ ≤ base ^ digits.length * base := Nat.mul_le_mul_right _ hrest

/-- The digits of a number, by their values. -/
theorem exists_digits (hbase : 1 < base) (n : Nat) :
    ∃ digits : List Nat, Nat.toDigits base n = digits.map Nat.digitChar ∧
      (∀ d ∈ digits, d < base) ∧ value base digits = n := by
  induction n using Nat.strongRecOn with
  | ind n ih =>
      by_cases hn : n < base
      · refine ⟨[n], Nat.toDigits_of_lt_base hn, by simpa using hn, ?_⟩
        simp [value]
      -- The last digit is the remainder, and the digits before it are those of the quotient.
      · have hlast : n % base < base := Nat.mod_lt n (by omega)
        obtain ⟨digits, hdigits, hlt, hvalue⟩ := ih (n / base) (Nat.div_lt_self (by omega) hbase)
        refine ⟨digits ++ [n % base], ?_, ?_, ?_⟩
        · rw [Nat.toDigits_of_base_le hbase (by omega), hdigits, List.map_append]
          rfl
        · intro d hd
          obtain hd | hd := List.mem_append.mp hd
          · exact hlt d hd
          · rwa [List.mem_singleton.mp hd]
        · rw [value_append_singleton, hvalue, Nat.mul_comm, Nat.div_add_mod]

section Digits

variable (hle : base ≤ 16) (hlt : ∀ d ∈ digits, d < base)

include hle hlt

theorem digits?_map_digitChar : digits? base (digits.map Nat.digitChar) = some digits := by
  have hvalues : ∀ d < 16, digitValue? (Nat.digitChar d) = some d := by decide
  induction digits with
  | nil => rfl
  | cons d rest ih =>
      have hd : d < base := hlt d List.mem_cons_self
      have hfirst : digitIn? base d.digitChar = some d := by
        rw [digitIn?, hvalues d (by omega)]
        simp [Option.filter, hd]
      have hrest := ih fun e he => hlt e (List.mem_cons_of_mem d he)
      rw [digits?] at hrest
      rw [List.map_cons, digits?, List.mapM_cons, hfirst, hrest]
      rfl

theorem natural?_map_digitChar (hne : digits ≠ []) :
    natural? base (digits.map Nat.digitChar) = some (value base digits) := by
  rw [natural?, if_neg (by simpa using hne), digits?_map_digitChar hle hlt]
  rfl

end Digits

/-- What holds of the digits of a base holds of every character of a numeral. -/
theorem forall_digitChar {P : Char → Prop} (hlt : ∀ d ∈ digits, d < base)
    (hP : ∀ d < base, P (Nat.digitChar d)) : ∀ c ∈ digits.map Nat.digitChar, P c := by
  intro c hc
  obtain ⟨d, hd, rfl⟩ := List.mem_map.mp hc
  exact hP d (hlt d hd)

theorem natural?_leading_zeros (hbase : 1 < base) (hle : base ≤ 16) (zeros n : Nat) :
    natural? base (List.replicate zeros '0' ++ Nat.toDigits base n) = some n := by
  obtain ⟨digits, hdigits, hlt, hvalue⟩ := exists_digits hbase n
  have hne : digits ≠ [] := by
    rintro rfl
    exact Nat.toDigits_ne_nil hdigits
  have hall : ∀ d ∈ List.replicate zeros 0 ++ digits, d < base := by
    refine List.forall_mem_append.mpr ⟨fun d hd => ?_, hlt⟩
    rw [List.eq_of_mem_replicate hd]
    omega
  have hmap : List.replicate zeros '0' ++ Nat.toDigits base n =
      (List.replicate zeros 0 ++ digits).map Nat.digitChar := by
    rw [List.map_append, List.map_replicate, hdigits]
    rfl
  rw [hmap, natural?_map_digitChar hle hall (by simp [hne]), value_leading_zeros, hvalue]

theorem natural?_toDigits (hbase : 1 < base) (hle : base ≤ 16) (n : Nat) :
    natural? base (Nat.toDigits base n) = some n :=
  natural?_leading_zeros hbase hle 0 n

theorem forall_mem_toDigits {P : Char → Prop} (hbase : 1 < base) (hle : base ≤ 16)
    (hP : ∀ d < 16, P (Nat.digitChar d)) (n : Nat) : ∀ c ∈ Nat.toDigits base n, P c := by
  obtain ⟨digits, hdigits, hlt, -⟩ := exists_digits hbase n
  rw [hdigits]
  exact forall_digitChar hlt fun d hd => hP d (Nat.lt_of_lt_of_le hd hle)

end Numeral

namespace Text

variable {p : Char → Bool} {cs : List Char}

theorem dropWhile_of_forall (h : ∀ c ∈ cs, p c = false) : cs.dropWhile p = cs := by
  refine List.dropWhile_eq_self_iff.mpr fun hpos => ?_
  simp [h _ (List.getElem_mem hpos)]

theorem dropEndWhile_of_forall (h : ∀ c ∈ cs, p c = false) : dropEndWhile p cs = cs := by
  have hreverse : ∀ c ∈ cs.reverse, p c = false := fun c hc => h c (List.mem_reverse.mp hc)
  rw [dropEndWhile, dropWhile_of_forall hreverse, List.reverse_reverse]

theorem trimWhile_of_forall (h : ∀ c ∈ cs, p c = false) : trimWhile p cs = cs := by
  rw [trimWhile, dropWhile_of_forall h, dropEndWhile_of_forall h]

end Text

namespace Numeral

variable {base : Nat}

/-! ### Signed decimal numerals -/

theorem splitSign_cons {c : Char} (h : c ≠ '-' ∧ c ≠ '+') (cs : List Char) :
    splitSign (c :: cs) = (false, c :: cs) := by
  unfold splitSign
  split
  · next heq => exact absurd (List.cons.inj heq).1 h.1
  · next heq => exact absurd (List.cons.inj heq).1 h.2
  · rfl

theorem splitSign_of_forall {cs : List Char} (h : ∀ c ∈ cs, c ≠ '-' ∧ c ≠ '+') :
    splitSign cs = (false, cs) := by
  cases cs with
  | nil => rfl
  | cons c cs => exact splitSign_cons (h c List.mem_cons_self) cs

section Signs

variable {cs : List Char} (hblank : ∀ c ∈ cs, Text.isNumeralBlank c = false)
  (hlength : cs.length ≤ Number.digitLimit)

include hblank hlength

theorem decimalInteger?_of_unsigned (hsign : ∀ c ∈ cs, c ≠ '-' ∧ c ≠ '+') :
    decimalInteger? cs = (natural? 10 cs).map fun n : Nat => (n : Int) := by
  rw [decimalInteger?, Text.trimWhile_of_forall hblank, splitSign_of_forall hsign]
  exact if_neg (Nat.not_lt.mpr hlength)

theorem decimalInteger?_minus :
    decimalInteger? ('-' :: cs) = (natural? 10 cs).map fun n : Nat => -(n : Int) := by
  have hall : ∀ c ∈ '-' :: cs, Text.isNumeralBlank c = false :=
    List.forall_mem_cons.mpr ⟨rfl, hblank⟩
  rw [decimalInteger?, Text.trimWhile_of_forall hall]
  exact if_neg (Nat.not_lt.mpr hlength)

end Signs

theorem toList_toString (n : Int) : (toString n).toList =
    if n < 0 then '-' :: Nat.toDigits 10 n.natAbs else Nat.toDigits 10 n.natAbs := by
  rw [Int.toString_eq_repr, Int.repr_eq_if]
  by_cases hn : n < 0
  · have habs : (-n).toNat = n.natAbs := by omega
    rw [if_pos hn, if_neg (by omega), habs, String.toList_append, Nat.toList_repr]
    rfl
  · have habs : n.toNat = n.natAbs := by omega
    rw [if_neg hn, if_pos (by omega), habs, Nat.toList_repr]

/-- A decimal integer as it is written, if it is not too long for that. -/
theorem decimalInteger?_toString {n : Int} (h : ¬ (Number.integer n).isTooLong) :
    decimalInteger? (toString n).toList = some n := by
  rw [Number.isTooLong_integer_iff, Nat.not_le] at h
  have hlength : (Nat.toDigits 10 n.natAbs).length ≤ Number.digitLimit :=
    (Nat.length_toDigits_le_iff (by decide) (by decide)).mpr h
  have hplain : ∀ c ∈ Nat.toDigits 10 n.natAbs,
      Text.isNumeralBlank c = false ∧ c ≠ '-' ∧ c ≠ '+' :=
    forall_mem_toDigits (by decide) (by decide) (by decide) _
  have hblank := fun c hc => (hplain c hc).1
  have hread : natural? 10 (Nat.toDigits 10 n.natAbs) = some n.natAbs :=
    natural?_toDigits (by decide) (by decide) n.natAbs
  rw [toList_toString]
  by_cases hn : n < 0
  · rw [if_pos hn, decimalInteger?_minus hblank hlength, hread, Option.map_some]
    congr 1
    omega
  · rw [if_neg hn, decimalInteger?_of_unsigned hblank hlength fun c hc => (hplain c hc).2, hread,
      Option.map_some]
    congr 1
    omega

/-! ### Integers with separators -/

section Separated

variable {n : Nat} {v : Int} {cs digits : List Char} {negative : Bool}

theorem dropSeparators?_of_forall (h : ∀ c ∈ cs, c ≠ '_') : dropSeparators? cs = some cs := by
  induction cs with
  | nil => rfl
  | cons c rest ih =>
      obtain ⟨hc, hrest⟩ := List.forall_mem_cons.mp h
      have hkept := ih hrest
      unfold dropSeparators?
      split
      · next heq => cases heq
      · next heq => exact absurd (List.cons.inj heq).1 hc
      · next heq =>
          obtain ⟨rfl, rfl⟩ := List.cons.inj heq
          exact absurd rfl (hrest _ List.mem_cons_self)
      · next heq =>
          obtain ⟨rfl, rfl⟩ := List.cons.inj heq
          rw [hkept]
          rfl

/-- Digits that are not too many, behind an optional sign. -/
theorem separatedInteger_of_digits
    (hsplit : splitSign (Text.trimWhile Text.isNumeralBlank cs) = (negative, digits))
    (hdigits : ∀ c ∈ digits, c ≠ '_' ∧ (Text.decimalDigit? c).isSome)
    (hlength : digits.length ≤ Number.digitLimit) (hread : natural? 10 digits = some n) :
    separatedInteger cs = .ok (applySign negative n) := by
  have hall : ∀ c ∈ digits, (c = '_' || (Text.decimalDigit? c).isSome) = true := by
    intro c hc
    simp [(hdigits c hc).2]
  have htake : digits.takeWhile (fun c => c = '_' || (Text.decimalDigit? c).isSome) = digits := by
    rw [List.takeWhile_eq_self_iff]
    simpa using hall
  rw [separatedInteger, hsplit]
  dsimp only
  rw [htake, dropSeparators?_of_forall fun c hc => (hdigits c hc).1]
  dsimp only
  rw [if_neg (Nat.not_lt.mpr hlength), if_neg (Nat.lt_irrefl _), hread]
  rfl

/-- A decimal integer as it is written, if it is not too long for that. -/
theorem separatedInteger_toString (h : ¬ (Number.integer v).isTooLong) :
    separatedInteger (toString v).toList = .ok v := by
  rw [Number.isTooLong_integer_iff, Nat.not_le] at h
  have hlength : (Nat.toDigits 10 v.natAbs).length ≤ Number.digitLimit :=
    (Nat.length_toDigits_le_iff (by decide) (by decide)).mpr h
  have hread : natural? 10 (Nat.toDigits 10 v.natAbs) = some v.natAbs :=
    natural?_toDigits (by decide) (by decide) v.natAbs
  have hplain : ∀ c ∈ Nat.toDigits 10 v.natAbs, Text.isNumeralBlank c = false ∧
      (c ≠ '-' ∧ c ≠ '+') :=
    forall_mem_toDigits (by decide) (by decide) (by decide) _
  have hdigits : ∀ c ∈ Nat.toDigits 10 v.natAbs, c ≠ '_' ∧ (Text.decimalDigit? c).isSome := by
    obtain ⟨digits, hdigits, hlt, -⟩ := exists_digits (by decide : 1 < 10) v.natAbs
    rw [hdigits]
    intro c hc
    obtain ⟨d, hd, rfl⟩ := List.mem_map.mp hc
    exact (by decide : ∀ d < 10, Nat.digitChar d ≠ '_' ∧
      (Text.decimalDigit? (Nat.digitChar d)).isSome) d (hlt d hd)
  have hblank := fun c hc => (hplain c hc).1
  rw [toList_toString]
  by_cases hn : v < 0
  · have hall : ∀ c ∈ '-' :: Nat.toDigits 10 v.natAbs, Text.isNumeralBlank c = false :=
      List.forall_mem_cons.mpr ⟨rfl, hblank⟩
    have hsplit : splitSign (Text.trimWhile Text.isNumeralBlank ('-' :: Nat.toDigits 10 v.natAbs)) =
        (true, Nat.toDigits 10 v.natAbs) := by
      rw [Text.trimWhile_of_forall hall]
      rfl
    rw [if_pos hn, separatedInteger_of_digits hsplit hdigits hlength hread, applySign, if_pos rfl]
    congr 1
    omega
  · have hsplit : splitSign (Text.trimWhile Text.isNumeralBlank (Nat.toDigits 10 v.natAbs)) =
        (false, Nat.toDigits 10 v.natAbs) := by
      rw [Text.trimWhile_of_forall hblank, splitSign_of_forall fun c hc => (hplain c hc).2]
    rw [if_neg hn, separatedInteger_of_digits hsplit hdigits hlength hread, applySign,
      if_neg Bool.false_ne_true]
    congr 1
    omega

theorem length_and_lt_of_digits? {values : List Nat} (h : digits? base cs = some values) :
    values.length = cs.length ∧ ∀ d ∈ values, d < base := by
  induction cs generalizing values with
  | nil =>
      cases h
      simp
  | cons c rest ih =>
      rw [digits?, List.mapM_cons] at h
      obtain ⟨d, hd, h⟩ := Option.bind_eq_some_iff.mp h
      obtain ⟨others, hothers, h⟩ := Option.bind_eq_some_iff.mp h
      cases h
      obtain ⟨hlength, hlt⟩ := ih hothers
      have hfirst : d < base := of_decide_eq_true (Option.filter_eq_some_iff.mp hd).2
      exact ⟨congrArg (· + 1) hlength, List.forall_mem_cons.mpr ⟨hfirst, hlt⟩⟩

theorem natural?_lt (h : natural? base cs = some n) : n < base ^ cs.length := by
  rw [natural?] at h
  split at h
  · cases h
  · obtain ⟨values, hvalues, rfl⟩ := Option.map_eq_some_iff.mp h
    obtain ⟨hlength, hlt⟩ := length_and_lt_of_digits? hvalues
    exact hlength ▸ value_lt hlt

theorem not_isTooLong_of_natural? (h : natural? 10 cs = some n)
    (hshort : cs.length ≤ Number.digitLimit) (negative : Bool) :
    ¬ (Number.integer (applySign negative n)).isTooLong := by
  rw [Number.isTooLong_integer_iff, Nat.not_le]
  have habs : (applySign negative n).natAbs = n := by
    rw [applySign]
    split <;> omega
  calc (applySign negative n).natAbs = n := habs
    _ < 10 ^ cs.length := natural?_lt h
    _ ≤ 10 ^ Number.digitLimit := Nat.pow_le_pow_right (by decide) hshort

/-- What is read is short enough to be written. -/
theorem not_isTooLong_of_separatedInteger (h : separatedInteger cs = .ok v) :
    ¬ (Number.integer v).isTooLong := by
  unfold separatedInteger at h
  dsimp only at h
  split at h
  · cases h
  · next digits _ =>
      split_ifs at h with hlong hrest
      cases hread : natural? 10 digits with
      | none =>
          rw [hread] at h
          cases h
      | some n =>
          rw [hread] at h
          obtain rfl := Except.ok.inj h
          exact not_isTooLong_of_natural? hread (by omega) _

/-- What is read is short enough to be written, also without separators. -/
theorem not_isTooLong_of_decimalInteger? (h : decimalInteger? cs = some v) :
    ¬ (Number.integer v).isTooLong := by
  unfold decimalInteger? at h
  dsimp only at h
  split_ifs at h with hlong
  obtain ⟨n, hread, rfl⟩ := Option.map_eq_some_iff.mp h
  exact not_isTooLong_of_natural? hread (by omega) _

end Separated

/-! ### Numerals behind a base prefix -/

theorem prefixedInteger?_toDigits (hbase : 1 < base) (hle : base ≤ 16) (n : Nat) :
    prefixedInteger? base (Nat.toDigits base n) = some (n : Int) := by
  have hblank : ∀ c ∈ Nat.toDigits base n, Text.isNumeralBlank c = false :=
    forall_mem_toDigits hbase hle (by decide) n
  rw [prefixedInteger?, Text.dropEndWhile_of_forall hblank, natural?_toDigits hbase hle]
  rfl

end Numeral

namespace NumericLiteral

/-- The text of a hexadecimal literal of arbitrary size. -/
def hexadecimal (n : Nat) : String :=
  "0x" ++ String.ofList (Nat.toDigits 16 n) ++ "n"

theorem clean_of_forall {text : String} (h : ∀ c ∈ text.toList, c ≠ '_' ∧ c.toLower = c) :
    clean text = text.toList := by
  have hkept : text.toList.filter (· ≠ '_') = text.toList :=
    List.filter_eq_self.mpr fun c hc => by simp [(h c hc).1]
  rw [clean, hkept]
  exact (List.map_congr_left fun c hc => (h c hc).2).trans (List.map_id _)

theorem readBigInt_hexadecimal (n : Nat) : readBigInt (hexadecimal n) = .ok (n : Int) := by
  have hplain : ∀ c ∈ Nat.toDigits 16 n, c ≠ '_' ∧ c.toLower = c :=
    Numeral.forall_mem_toDigits (by decide) (by decide) (by decide) n
  have hlist : (hexadecimal n).toList = '0' :: 'x' :: (Nat.toDigits 16 n ++ ['n']) := by
    simp [hexadecimal]
  have hclean : clean (hexadecimal n) = '0' :: 'x' :: (Nat.toDigits 16 n ++ ['n']) := by
    rw [← hlist]
    refine clean_of_forall fun c hc => ?_
    rw [hlist] at hc
    simp only [List.mem_cons, List.mem_append, List.not_mem_nil, or_false] at hc
    obtain rfl | rfl | hc | rfl := hc
    · decide
    · decide
    · exact hplain c hc
    · decide
  have hmark : dropMark (clean (hexadecimal n)) = '0' :: 'x' :: Nat.toDigits 16 n := by
    rw [hclean, dropMark]
    simp
  rw [readBigInt, hmark]
  change orMalformed (Numeral.prefixedInteger? 16 (Nat.toDigits 16 n)) = _
  rw [Numeral.prefixedInteger?_toDigits (by decide) (by decide)]
  rfl

end NumericLiteral

end TypeSchema
