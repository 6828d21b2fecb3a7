import Mathlib.Data.List.DropRight
import TypeSchema.Proofs.Basic
import TypeSchema.Proofs.Number.Numeral

/-!
# Integers in source text

Two readers take a text for an integer: the one of numeric literals, which decides between integers
and binary64 numbers first, and the one of literals of arbitrary size, which drops a mark first.
Every character of what is read as an integer is a blank, a sign, a letter of a base prefix or a
digit of the base. A point, a decimal exponent and the mark are none of these, so neither decision
gets in the way of the other and the two readers agree. For the same reason blanks around an integer
can be dropped in advance, as it is done behind an operator.
-/

namespace TypeSchema

/-! ### Characters at the ends of a text -/

namespace Text

variable {p : Char → Bool} {c : Char} {cs front core back : List Char}

theorem dropEndWhile_cons_of_neg (h : p c = false) (cs : List Char) :
    dropEndWhile p (c :: cs) = c :: dropEndWhile p cs := by
  rw [dropEndWhile, List.reverse_cons, List.dropWhile_append]
  split
  · next hempty =>
      rw [List.isEmpty_iff] at hempty
      simp [dropEndWhile, hempty, h]
  · rw [List.reverse_append, dropEndWhile]
    rfl

theorem dropEndWhile_append (hback : ∀ c ∈ back, p c) (cs : List Char) :
    dropEndWhile p (cs ++ back) = dropEndWhile p cs := by
  have hreverse : ∀ c ∈ back.reverse, p c := fun c hc => hback c (List.mem_reverse.mp hc)
  rw [dropEndWhile, List.reverse_append, List.dropWhile_append_of_pos hreverse, dropEndWhile]

theorem trimWhile_append (hfront : ∀ c ∈ front, p c) (hback : ∀ c ∈ back, p c) :
    trimWhile p (front ++ core ++ back) = trimWhile p core := by
  rw [trimWhile, List.append_assoc, List.dropWhile_append_of_pos hfront, List.dropWhile_append]
  split
  · next hempty =>
      rw [List.isEmpty_iff] at hempty
      rw [List.dropWhile_eq_nil_iff.mpr hback, trimWhile, hempty]
  · rw [dropEndWhile_append hback, trimWhile]

theorem exists_dropEndWhile (p : Char → Bool) (cs : List Char) :
    ∃ back, cs = dropEndWhile p cs ++ back ∧ ∀ c ∈ back, p c :=
  ⟨cs.rtakeWhile p, List.rdropWhile_append_rtakeWhile.symm,
    fun _ hc => List.mem_rtakeWhile_imp hc⟩

theorem exists_trimWhile (p : Char → Bool) (cs : List Char) :
    ∃ front back, cs = front ++ trimWhile p cs ++ back ∧ (∀ c ∈ front, p c) ∧
      ∀ c ∈ back, p c := by
  obtain ⟨back, hback, hall⟩ := exists_dropEndWhile p (cs.dropWhile p)
  refine ⟨cs.takeWhile p, back, ?_, fun _ hc => List.mem_takeWhile_imp hc, hall⟩
  rw [trimWhile, List.append_assoc, ← hback, List.takeWhile_append_dropWhile]

theorem mem_trimWhile_or (p : Char → Bool) (hc : c ∈ cs) : p c ∨ c ∈ trimWhile p cs := by
  obtain ⟨front, back, hcs, hfront, hback⟩ := exists_trimWhile p cs
  rw [hcs, List.mem_append, List.mem_append] at hc
  obtain (hc | hc) | hc := hc
  · exact .inl (hfront c hc)
  · exact .inr hc
  · exact .inl (hback c hc)

/-- Blanks are no digits of any script. -/
theorem decimalDigit?_of_isBlank (h : isBlank c) : decimalDigit? c = none := by
  -- every run of digits lies in one of the gaps between the blanks
  have hgaps : ∀ start ∈ digitZeros, (0x21 ≤ start ∧ start + 10 ≤ 0x85) ∨
      (0xA1 ≤ start ∧ start + 10 ≤ 0x1680) ∨ (0x1681 ≤ start ∧ start + 10 ≤ 0x2000) ∨
      0x3001 ≤ start := by decide
  simp only [isBlank, Bool.or_eq_true, Bool.and_eq_true, decide_eq_true_eq] at h
  rw [decimalDigit?, Option.map_eq_none_iff, List.find?_eq_none]
  intro start hstart
  have hgap := hgaps start hstart
  rw [Bool.and_eq_true, decide_eq_true_eq, decide_eq_true_eq]
  omega

theorem toLower_of_isBlank (h : isBlank c) : c.toLower = c := by
  unfold Char.toLower
  split
  · next hcapital =>
      simp only [isBlank, Bool.or_eq_true, Bool.and_eq_true, decide_eq_true_eq] at h
      have hlow : 'A'.toNat ≤ c.toNat := hcapital.1
      have hhigh : c.toNat ≤ 'Z'.toNat := hcapital.2
      rw [show 'A'.toNat = 65 from rfl] at hlow
      rw [show 'Z'.toNat = 90 from rfl] at hhigh
      omega
  · rfl

end Text

/-! ### Characters of integers -/

namespace Numeral

variable {base n : Nat} {letter c : Char} {cs digits front core back : List Char} {v : Int}

theorem forall_digitIn?_of_natural? (h : natural? base cs = some n) :
    ∀ c ∈ cs, (digitIn? base c).isSome := by
  have hdigits : ∃ digits, digits? base cs = some digits := by
    unfold natural? at h
    split at h
    · cases h
    · obtain ⟨digits, hdigits, -⟩ := Option.map_eq_some_iff.mp h
      exact ⟨digits, hdigits⟩
  clear h
  induction cs with
  | nil => exact List.forall_mem_nil _
  | cons c rest ih =>
      obtain ⟨digits, hdigits⟩ := hdigits
      rw [digits?, List.mapM_cons, Option.bind_eq_bind, Option.bind_eq_some_iff] at hdigits
      obtain ⟨d, hd, hrest⟩ := hdigits
      obtain ⟨others, hothers, -⟩ := Option.bind_eq_some_iff.mp hrest
      exact List.forall_mem_cons.mpr ⟨Option.isSome_of_eq_some hd, ih ⟨others, hothers⟩⟩

/-- No digit is a blank. -/
theorem digitIn?_of_isBlank (h : Text.isBlank c) : digitIn? base c = none := by
  have hletter : ¬ ('a' ≤ c ∧ c ≤ 'f') := by
    rintro ⟨hlow, hhigh⟩
    have hlow : 97 ≤ c.toNat := hlow
    have hhigh : c.toNat ≤ 102 := hhigh
    simp only [Text.isBlank, Bool.or_eq_true, Bool.and_eq_true, decide_eq_true_eq] at h
    omega
  rw [digitIn?, digitValue?, Text.decimalDigit?_of_isBlank h]
  simp [hletter]

theorem mem_splitSign (h : c ∈ cs) : c = '-' ∨ c = '+' ∨ c ∈ (splitSign cs).2 := by
  unfold splitSign
  split
  · obtain rfl | h := List.mem_cons.mp h
    · exact .inl rfl
    · exact .inr (.inr h)
  · obtain rfl | h := List.mem_cons.mp h
    · exact .inr (.inl rfl)
    · exact .inr (.inr h)
  · exact .inr (.inr h)

theorem forall_of_decimalInteger? (h : decimalInteger? cs = some v) :
    ∀ c ∈ cs, Text.isNumeralBlank c ∨ c = '-' ∨ c = '+' ∨ (digitIn? 10 c).isSome := by
  intro c hc
  unfold decimalInteger? at h
  dsimp only at h
  split at h
  · cases h
  · obtain ⟨n, hn, -⟩ := Option.map_eq_some_iff.mp h
    obtain hblank | hc := Text.mem_trimWhile_or Text.isNumeralBlank hc
    · exact .inl hblank
    · obtain hminus | hplus | hdigit := mem_splitSign hc
      · exact .inr (.inl hminus)
      · exact .inr (.inr (.inl hplus))
      · exact .inr (.inr (.inr (forall_digitIn?_of_natural? hn c hdigit)))

theorem prefixedInteger?_eq (base : Nat) (cs : List Char) :
    prefixedInteger? base cs =
      (natural? base (Text.dropEndWhile Text.isNumeralBlank cs)).map fun n : Nat => (n : Int) := by
  rw [prefixedInteger?]
  cases natural? base (Text.dropEndWhile Text.isNumeralBlank cs) <;> rfl

theorem forall_of_prefixedInteger? (h : prefixedInteger? base cs = some v) :
    ∀ c ∈ cs, Text.isNumeralBlank c ∨ (digitIn? base c).isSome := by
  intro c hc
  rw [prefixedInteger?_eq] at h
  obtain ⟨n, hn, -⟩ := Option.map_eq_some_iff.mp h
  obtain ⟨back, hcs, hback⟩ := Text.exists_dropEndWhile Text.isNumeralBlank cs
  rw [hcs] at hc
  obtain hc | hc := List.mem_append.mp hc
  · exact .inr (forall_digitIn?_of_natural? hn c hc)
  · exact .inl (hback c hc)

theorem splitBase?_eq_some_iff :
    splitBase? cs = some (base, digits) ↔
      ∃ letter, baseOfLetter? letter = some base ∧ cs = '0' :: letter :: digits := by
  constructor
  · intro h
    unfold splitBase? at h
    split at h
    · next letter rest =>
        obtain ⟨found, hfound, hpair⟩ := Option.map_eq_some_iff.mp h
        cases hpair
        exact ⟨letter, hfound, rfl⟩
    · cases h
  · rintro ⟨letter, hletter, rfl⟩
    simp [splitBase?, hletter]

theorem eq_letter_of_baseOfLetter? (h : baseOfLetter? letter = some base) :
    letter = 'x' ∨ letter = 'o' ∨ letter = 'b' := by
  unfold baseOfLetter? at h
  split at h
  · exact .inl rfl
  · exact .inr (.inl rfl)
  · exact .inr (.inr rfl)
  · cases h

end Numeral

namespace NumericLiteral

variable {text : String} {cs xs front back : List Char} {c : Char} {v : Int} {x : Binary64}

/-- No integer holds the mark of a literal of arbitrary size. -/
theorem not_mem_mark_of_integer? (h : integer? cs = some v) : 'n' ∉ cs := by
  intro hmark
  unfold integer? at h
  split at h
  · next base digits hsplit =>
      obtain ⟨letter, hletter, rfl⟩ := Numeral.splitBase?_eq_some_iff.mp hsplit
      simp only [List.mem_cons] at hmark
      obtain hmark | rfl | hmark := hmark
      · exact absurd hmark (by decide)
      · cases hletter
      · obtain hblank | hdigit := Numeral.forall_of_prefixedInteger? h _ hmark
        · exact absurd hblank (by decide)
        · rw [Numeral.digitIn?, show Numeral.digitValue? 'n' = none by decide] at hdigit
          cases hdigit
  · exact absurd (Numeral.forall_of_decimalInteger? h _ hmark) (by decide)

/-- What is read as an integer is not taken for a binary64 number. -/
theorem isReal_eq_false_of_integer? (h : integer? cs = some v) : isReal cs = false := by
  unfold integer? at h
  split at h
  · next hsplit => simp [isReal, hsplit]
  · have hall := Numeral.forall_of_decimalInteger? h
    rw [isReal, Bool.and_eq_false_iff, List.any_eq_false]
    refine .inr fun c hc hreal => ?_
    simp only [Bool.or_eq_true, decide_eq_true_eq] at hreal
    obtain rfl | rfl := hreal
    · exact absurd (hall _ hc) (by decide)
    · exact absurd (hall _ hc) (by decide)

theorem integer?_of_isReal (h : isReal cs) : integer? cs = none := by
  rw [Option.eq_none_iff_forall_ne_some]
  intro v hv
  rw [isReal_eq_false_of_integer? hv] at h
  cases h

theorem read_eq_integer_iff : read text = .ok (.integer v) ↔ integer? (clean text) = some v := by
  unfold read
  dsimp only
  constructor
  · intro h
    split at h
    · obtain ⟨x, -, hx⟩ := except_bind_eq_ok_iff.mp h
      split at hx <;> cases hx
    · cases hinteger : integer? (clean text) with
      | none => simp [hinteger, orMalformed] at h
      | some n =>
          rw [hinteger] at h
          cases h
          rfl
  · intro h
    rw [isReal_eq_false_of_integer? h, h]
    rfl

theorem isReal_of_read (h : read text = .ok (.real x)) : isReal (clean text) := by
  by_contra hreal
  unfold read at h
  rw [if_neg hreal] at h
  obtain ⟨n, -, hn⟩ := except_bind_eq_ok_iff.mp h
  cases hn

theorem readBigInt_eq_ok_iff :
    readBigInt text = .ok v ↔ integer? (dropMark (clean text)) = some v := by
  rw [readBigInt]
  cases integer? (dropMark (clean text)) <;> simp [orMalformed]

theorem readBigInt_eq_error_iff :
    readBigInt text = .error .malformed ↔ integer? (dropMark (clean text)) = none := by
  rw [readBigInt]
  cases integer? (dropMark (clean text)) <;> simp [orMalformed]

/-! ### The mark of a literal of arbitrary size -/

theorem dropMark_append_singleton (cs : List Char) (c : Char) :
    dropMark (cs ++ [c]) = if c = 'n' then cs else cs ++ [c] := by
  unfold dropMark
  rw [List.reverse_append, List.reverse_singleton, List.singleton_append]
  split
  · next heq =>
      obtain ⟨rfl, rfl⟩ := List.cons.inj heq
      rw [if_pos rfl, List.reverse_reverse]
  · next hne =>
      rw [if_neg]
      rintro rfl
      exact hne _ rfl

theorem dropMark_of_not_mem (h : 'n' ∉ cs) : dropMark cs = cs := by
  obtain rfl | ⟨front, c, rfl⟩ := cs.eq_nil_or_concat'
  · rfl
  · rw [dropMark_append_singleton, if_neg]
    rintro rfl
    simp at h

/-- The mark has no part in the decision for a binary64 number. -/
theorem isReal_dropMark (h : isReal cs) : isReal (dropMark cs) := by
  obtain rfl | ⟨front, c, rfl⟩ := cs.eq_nil_or_concat'
  · exact h
  · rw [dropMark_append_singleton]
    split
    · next hmark =>
        subst hmark
        obtain ⟨hnone, hany⟩ := Bool.and_eq_true_iff.mp h
        refine Bool.and_eq_true_iff.mpr ⟨?_, by simpa using hany⟩
        rw [Option.isNone_iff_eq_none] at hnone ⊢
        rw [Option.eq_none_iff_forall_ne_some] at hnone ⊢
        rintro ⟨base, digits⟩ hsplit
        obtain ⟨letter, hletter, rfl⟩ := Numeral.splitBase?_eq_some_iff.mp hsplit
        exact hnone _ (Numeral.splitBase?_eq_some_iff.mpr ⟨letter, hletter, rfl⟩)
    · exact h

theorem clean_append_mark (text : String) : clean (text ++ "n") = clean text ++ ['n'] := by
  rw [clean, String.toList_append, List.filter_append, List.map_append, clean]
  rfl

/-- A text without its underscores and then without the mark of a literal of arbitrary size, if it
ends with one. -/
def unmarked (text : String) : String :=
  let kept := text.toList.filter (· ≠ '_')
  String.ofList
    (if kept.getLast? = some 'n' ∨ kept.getLast? = some 'N' then kept.dropLast else kept)

theorem toLower_eq_mark_iff : c.toLower = 'n' ↔ c = 'n' ∨ c = 'N' := by
  constructor
  · intro h
    unfold Char.toLower at h
    split at h
    · have hval : c.val + ('a'.val - 'A'.val) = 'N'.val + ('a'.val - 'A'.val) :=
        congrArg Char.val h
      exact .inr (Char.ext ((UInt32.add_left_inj _).mp hval))
    · exact .inl h
  · rintro (rfl | rfl) <;> decide

theorem clean_unmarked (text : String) : clean (unmarked text) = dropMark (clean text) := by
  set kept := text.toList.filter (· ≠ '_') with hkept
  have hclean : ∀ cs : List Char, cs ⊆ kept → clean (String.ofList cs) = cs.map Char.toLower := by
    intro cs hcs
    rw [clean, String.toList_ofList, List.filter_eq_self.mpr]
    exact fun c hc => (List.mem_filter.mp (hcs hc)).2
  have hright : clean text = kept.map Char.toLower := rfl
  rw [hright, unmarked, ← hkept]
  obtain hnil | ⟨front, c, hsplit⟩ := kept.eq_nil_or_concat'
  · rw [hnil]
    rfl
  · rw [hsplit, List.getLast?_concat, List.dropLast_concat, List.map_append, List.map_singleton,
      dropMark_append_singleton]
    simp only [Option.some.injEq, toLower_eq_mark_iff]
    split
    · exact hclean front (hsplit ▸ List.subset_append_left front [c])
    · rw [hclean (front ++ [c]) (hsplit ▸ List.Subset.refl _), List.map_append, List.map_singleton]

/-! ### Blanks around an integer -/

theorem integer?_prefixed {base : Nat} {letter : Char} {digits : List Char}
    (h : Numeral.baseOfLetter? letter = some base) :
    integer? ('0' :: letter :: digits) = Numeral.prefixedInteger? base digits := by
  rw [integer?, Numeral.splitBase?_eq_some_iff.mpr ⟨letter, h, rfl⟩]

theorem integer?_unprefixed (h : Numeral.splitBase? cs = none) :
    integer? cs = Numeral.decimalInteger? cs := by
  rw [integer?, h]

theorem splitBase?_of_decimalInteger? (h : Numeral.decimalInteger? cs = some v)
    (hsub : xs ⊆ cs) : Numeral.splitBase? xs = none := by
  rw [Option.eq_none_iff_forall_ne_some]
  rintro ⟨base, digits⟩ hsplit
  obtain ⟨letter, hletter, rfl⟩ := Numeral.splitBase?_eq_some_iff.mp hsplit
  have hall := Numeral.forall_of_decimalInteger? h letter (hsub (by simp))
  obtain rfl | rfl | rfl := Numeral.eq_letter_of_baseOfLetter? hletter <;>
    exact absurd hall (by decide)

/-- Two characters that are no blanks begin a text, whatever blanks are put around the text. -/
theorem eq_middle_of_append {first second : Char} {rest : List Char}
    (hfirst : Text.isBlank first = false) (hsecond : Text.isBlank second = false)
    (hfront : ∀ c ∈ front, Text.isBlank c) (hback : ∀ c ∈ back, Text.isBlank c)
    (h : front ++ cs ++ back = first :: second :: rest) :
    ∃ middle, front = [] ∧ cs = first :: second :: middle ∧ rest = middle ++ back := by
  cases front with
  | cons c front =>
      obtain ⟨rfl, -⟩ := List.cons.inj h
      simp [hfront c List.mem_cons_self] at hfirst
  | nil =>
      rw [List.nil_append] at h
      obtain _ | ⟨c, _ | ⟨d, middle⟩⟩ := cs
      · rw [List.nil_append] at h
        simp [hback first (h ▸ List.mem_cons_self)] at hfirst
      · rw [List.singleton_append, List.cons.injEq] at h
        simp [hback second (h.2 ▸ List.mem_cons_self)] at hsecond
      · simp only [List.cons_append, List.cons.injEq] at h
        obtain ⟨rfl, rfl, rfl⟩ := h
        exact ⟨middle, rfl, rfl, rfl⟩

/-- Blanks that stand around what is read as an integer can be left out. -/
theorem integer?_of_append (hfront : ∀ c ∈ front, Text.isBlank c)
    (hback : ∀ c ∈ back, Text.isBlank c) (h : integer? (front ++ cs ++ back) = some v) :
    integer? cs = some v := by
  cases hsplit : Numeral.splitBase? (front ++ cs ++ back) with
  | none =>
      rw [integer?_unprefixed hsplit] at h
      -- of the blanks only those are left that may surround a numeral
      have hnumeral : ∀ c ∈ front ++ cs ++ back, Text.isBlank c → Text.isNumeralBlank c := by
        intro c hc hblank
        obtain hc | rfl | rfl | hc := Numeral.forall_of_decimalInteger? h c hc
        · exact hc
        · exact absurd hblank (by decide)
        · exact absurd hblank (by decide)
        · simp [Numeral.digitIn?_of_isBlank hblank] at hc
      rw [integer?_unprefixed (splitBase?_of_decimalInteger? h (by simp))]
      unfold Numeral.decimalInteger? at h ⊢
      rwa [Text.trimWhile_append (fun c hc => hnumeral c (by simp [hc]) (hfront c hc))
        fun c hc => hnumeral c (by simp [hc]) (hback c hc)] at h
  | some found =>
      obtain ⟨base, digits⟩ := found
      obtain ⟨letter, hletter, hcs⟩ := Numeral.splitBase?_eq_some_iff.mp hsplit
      have hletter' : Text.isBlank letter = false := by
        obtain rfl | rfl | rfl := Numeral.eq_letter_of_baseOfLetter? hletter <;> decide
      -- neither character of the prefix is a blank, so both of them stand in the middle
      obtain ⟨middle, rfl, rfl, rfl⟩ := eq_middle_of_append (by decide) hletter' hfront hback hcs
      rw [List.nil_append, List.cons_append, List.cons_append, integer?_prefixed hletter] at h
      have hnumeral : ∀ c ∈ back, Text.isNumeralBlank c := by
        intro c hc
        obtain hnumeral | hdigit :=
          Numeral.forall_of_prefixedInteger? h c (List.mem_append_right middle hc)
        · exact hnumeral
        · simp [Numeral.digitIn?_of_isBlank (hback c hc)] at hdigit
      rw [integer?_prefixed hletter]
      rwa [Numeral.prefixedInteger?, Text.dropEndWhile_append hnumeral] at h

theorem clean_ofList_append (cs xs : List Char) :
    clean (String.ofList (cs ++ xs)) = clean (String.ofList cs) ++ clean (String.ofList xs) := by
  simp only [clean, String.toList_ofList, List.filter_append, List.map_append]

theorem isBlank_of_mem_clean (h : ∀ c ∈ cs, Text.isBlank c) :
    ∀ c ∈ clean (String.ofList cs), Text.isBlank c := by
  intro c hc
  rw [clean, String.toList_ofList] at hc
  obtain ⟨d, hd, rfl⟩ := List.mem_map.mp hc
  have hblank := h d (List.mem_of_mem_filter hd)
  rwa [Text.toLower_of_isBlank hblank]

theorem read_trim (h : read text = .ok (.integer v)) :
    read (String.ofList (Text.trim text.toList)) = .ok (.integer v) := by
  rw [read_eq_integer_iff] at h ⊢
  obtain ⟨front, back, htext, hfront, hback⟩ := Text.exists_trimWhile Text.isBlank text.toList
  have hclean : clean text = clean (String.ofList front) ++
      clean (String.ofList (Text.trim text.toList)) ++ clean (String.ofList back) := by
    conv_lhs => rw [← String.ofList_toList (s := text), htext]
    rw [clean_ofList_append, clean_ofList_append, Text.trim]
  rw [hclean] at h
  exact integer?_of_append (isBlank_of_mem_clean hfront) (isBlank_of_mem_clean hback) h

/-! ### Operators -/

/-- An operator is applied to what its operand without blanks around it is read as. -/
theorem unary?_of_read {operand : String} {value : Number}
    (h : read (String.ofList (Text.trim operand.toList)) = .ok value) :
    unary? ("-" ++ operand) = some value.neg ∧
      unary? ("+" ++ operand) = some value ∧
      unary? ("~" ++ operand) = value.complement? := by
  obtain ⟨back, hoperand, hback⟩ := Text.exists_dropEndWhile Text.isBlank operand.toList
  set kept := Text.dropEndWhile Text.isBlank operand.toList
  have hsame : Text.trim kept = Text.trim operand.toList := by
    conv_rhs => rw [hoperand]
    exact (Text.trimWhile_append (List.forall_mem_nil _) hback).symm
  have hne : kept ≠ [] := by
    intro hnil
    rw [← hsame, hnil] at h
    cases h
  have htrim : ∀ (sign : String) (operator : Char), sign.toList = [operator] →
      Text.isBlank operator = false → Text.trim (sign ++ operand).toList = operator :: kept := by
    intro sign operator hsign hoperator
    rw [String.toList_append, hsign, List.singleton_append, Text.trim, Text.trimWhile,
      List.dropWhile_cons_of_neg (by simp [hoperator]), Text.dropEndWhile_cons_of_neg hoperator]
  refine ⟨?_, ?_, ?_⟩
  · rw [unary?, htrim "-" '-' rfl (by decide)]
    simp only [if_neg hne, hsame, h]
    rfl
  · rw [unary?, htrim "+" '+' rfl (by decide)]
    simp only [if_neg hne, hsame, h]
    rfl
  · rw [unary?, htrim "~" '~' rfl (by decide)]
    simp only [if_neg hne, hsame, h]
    rfl

/-! ### Agreement -/

theorem readBigInt_of_read (h : read text = .ok (.integer v)) : readBigInt text = .ok v := by
  rw [read_eq_integer_iff] at h
  rwa [readBigInt_eq_ok_iff, dropMark_of_not_mem (not_mem_mark_of_integer? h)]

theorem readBigInt_append_mark (h : read text = .ok (.integer v)) :
    readBigInt (text ++ "n") = .ok v := by
  rw [read_eq_integer_iff] at h
  rwa [readBigInt_eq_ok_iff, clean_append_mark, dropMark_append_singleton, if_pos rfl]

theorem read_unmarked (h : readBigInt text = .ok v) :
    read (unmarked text) = .ok (.integer v) := by
  rwa [read_eq_integer_iff, clean_unmarked, ← readBigInt_eq_ok_iff]

theorem readBigInt_of_isReal (h : isReal (clean text)) :
    readBigInt text = .error .malformed ∧ readBigInt (text ++ "n") = .error .malformed := by
  rw [readBigInt_eq_error_iff, readBigInt_eq_error_iff, clean_append_mark,
    dropMark_append_singleton, if_pos rfl]
  exact ⟨integer?_of_isReal (isReal_dropMark h), integer?_of_isReal h⟩

/-- **The two readers of integers agree.** What the reader of numeric literals takes for an integer
is the same integer to the reader of literals of arbitrary size, with and without the mark; what
that reader takes for an integer is the same one to the former, once underscores and mark are gone;
and a binary64 number is nothing to it. -/
theorem integers_agree (text : String) :
    (∀ n, read text = .ok (.integer n) →
      readBigInt text = .ok n ∧ readBigInt (text ++ "n") = .ok n) ∧
    (∀ n, readBigInt text = .ok n → read (unmarked text) = .ok (.integer n)) ∧
    ∀ x, read text = .ok (.real x) →
      readBigInt text = .error .malformed ∧ readBigInt (text ++ "n") = .error .malformed := by
  refine ⟨?_, ?_, ?_⟩
  · exact fun n h => ⟨readBigInt_of_read h, readBigInt_append_mark h⟩
  · exact fun n h => read_unmarked h
  · exact fun x h => readBigInt_of_isReal (isReal_of_read h)

/-- A hexadecimal literal full of letters that mean something elsewhere, a decimal one with its
mark, and a literal that both readers know not to be an integer. -/
theorem integers_agree_spelt :
    (read "0XfE_b" = .ok (.integer 4075) ∧ readBigInt "0XfE_b" = .ok 4075 ∧
      readBigInt ("0XfE_b" ++ "n") = .ok 4075) ∧
    (readBigInt " +0_7_N" = .ok 7 ∧ read (unmarked " +0_7_N") = .ok (.integer 7)) ∧
    read "1e3" = .ok (.real ⟨0x408F400000000000⟩) ∧ readBigInt "1e3" = .error .malformed ∧
      readBigInt ("1e3" ++ "n") = .error .malformed := by
  have hinteger : read "0XfE_b" = .ok (.integer 4075) := rfl
  have hmarked : readBigInt " +0_7_N" = .ok 7 := rfl
  have hreal : read "1e3" = .ok (.real ⟨0x408F400000000000⟩) := rfl
  exact ⟨⟨hinteger, (integers_agree _).1 _ hinteger⟩, ⟨hmarked, (integers_agree _).2.1 _ hmarked⟩,
    hreal, (integers_agree _).2.2 _ hreal⟩

end NumericLiteral

end TypeSchema
