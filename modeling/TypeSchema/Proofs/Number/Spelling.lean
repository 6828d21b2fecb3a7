import TypeSchema.Proofs.Constant.Values
import TypeSchema.Proofs.Number.Integers
import TypeSchema.Proofs.Resolution.Success
import TypeSchema.Schema.Encoder

/-!
# Spellings of a natural number

A natural number is written by its decimal digits or, behind a base prefix, by its digits in that
base; zeros may stand before the digits, capital letters in place of small ones and underscores
anywhere. Cleaning leaves the plain spelling, whose digits are read as the number: leading zeros add
nothing, and each digit appended multiplies by the base. As no character of a spelling is a blank,
the operand of a sign is the spelling again, whatever blanks are between them.
-/

namespace TypeSchema.NumericLiteral

/-- A decimal numeral has a limited number of digits, a numeral behind a base prefix has not. -/
inductive PlainSpelling (n : Nat) : List Char → Prop
  | decimal (zeros : Nat)
      (short : zeros + (Nat.toDigits 10 n).length ≤ Number.digitLimit) :
      PlainSpelling n (List.replicate zeros '0' ++ Nat.toDigits 10 n)
  | prefixed (zeros : Nat) {letter : Char} {base : Nat}
      (mark : (letter, base) ∈ [('x', 16), ('o', 8), ('b', 2)]) :
      PlainSpelling n ('0' :: letter :: (List.replicate zeros '0' ++ Nat.toDigits base n))

/-- The second text is the first one with underscores put in and some letters made capital. -/
inductive Dresses : List Char → List Char → Prop
  | nil : Dresses [] []
  | separator {plain dressed : List Char} (rest : Dresses plain dressed) :
      Dresses plain ('_' :: dressed)
  | small (c : Char) {plain dressed : List Char} (rest : Dresses plain dressed) :
      Dresses (c :: plain) (c :: dressed)
  | capital (c : Char) {plain dressed : List Char} (rest : Dresses plain dressed) :
      Dresses (c :: plain) (c.toUpper :: dressed)

/-- The text is a spelling of the natural number. -/
def Spells (n : Nat) (text : String) : Prop :=
  ∃ plain, PlainSpelling n plain ∧ Dresses plain text.toList

section Dressing

variable {plain dressed : List Char}

theorem Dresses.forall {P : Char → Prop} (h : Dresses plain dressed) (hseparator : P '_')
    (hplain : ∀ c ∈ plain, P c ∧ P c.toUpper) : ∀ c ∈ dressed, P c := by
  induction h with
  | nil => exact List.forall_mem_nil _
  | separator _ ih => exact List.forall_mem_cons.mpr ⟨hseparator, ih hplain⟩
  | small c _ ih =>
      obtain ⟨hfirst, hrest⟩ := List.forall_mem_cons.mp hplain
      exact List.forall_mem_cons.mpr ⟨hfirst.1, ih hrest⟩
  | capital c _ ih =>
      obtain ⟨hfirst, hrest⟩ := List.forall_mem_cons.mp hplain
      exact List.forall_mem_cons.mpr ⟨hfirst.2, ih hrest⟩

/-- Cleaning a text does not depend on how it was dressed. -/
theorem Dresses.clean_eq (h : Dresses plain dressed)
    (hplain : ∀ c ∈ plain, c ≠ '_' ∧ c.toUpper ≠ '_' ∧ c.toLower = c ∧ c.toUpper.toLower = c) :
    clean (String.ofList dressed) = plain := by
  rw [clean, String.toList_ofList]
  induction h with
  | nil => rfl
  | separator _ ih => exact ih hplain
  | small c _ ih =>
      obtain ⟨⟨hkept, -, hlower, -⟩, hrest⟩ := List.forall_mem_cons.mp hplain
      rw [List.filter_cons_of_pos (by simpa using hkept), List.map_cons, hlower, ih hrest]
  | capital c _ ih =>
      obtain ⟨⟨-, hkept, -, hlower⟩, hrest⟩ := List.forall_mem_cons.mp hplain
      rw [List.filter_cons_of_pos (by simpa using hkept), List.map_cons, hlower, ih hrest]

end Dressing

/-! ### Plain spellings -/

section Plain

variable {n base : Nat} {plain : List Char}

/-- What holds of the sixteen digits and of the letters of base prefixes holds of every character of
a plain spelling. -/
theorem PlainSpelling.forall {P : Char → Prop} (h : PlainSpelling n plain)
    (hdigit : ∀ d < 16, P (Nat.digitChar d)) (hletter : P 'x' ∧ P 'o' ∧ P 'b') :
    ∀ c ∈ plain, P c := by
  have hdigits : ∀ base zeros, 1 < base → base ≤ 16 →
      ∀ c ∈ List.replicate zeros '0' ++ Nat.toDigits base n, P c := by
    intro base zeros hbase hle c hc
    obtain hc | hc := List.mem_append.mp hc
    · rw [List.eq_of_mem_replicate hc]
      exact hdigit 0 (by decide)
    · exact Numeral.forall_mem_toDigits hbase hle hdigit n c hc
  cases h with
  | decimal zeros _ => exact hdigits 10 zeros (by decide) (by decide)
  | prefixed zeros mark =>
      refine List.forall_mem_cons.mpr ⟨hdigit 0 (by decide), List.forall_mem_cons.mpr ?_⟩
      simp only [List.mem_cons, Prod.mk.injEq, List.not_mem_nil, or_false] at mark
      obtain ⟨rfl, rfl⟩ | ⟨rfl, rfl⟩ | ⟨rfl, rfl⟩ := mark
      · exact ⟨hletter.1, hdigits 16 zeros (by decide) (by decide)⟩
      · exact ⟨hletter.2.1, hdigits 8 zeros (by decide) (by decide)⟩
      · exact ⟨hletter.2.2, hdigits 2 zeros (by decide) (by decide)⟩

theorem PlainSpelling.integer?_eq (h : PlainSpelling n plain) :
    integer? plain = some (n : Int) := by
  cases h with
  | decimal zeros short =>
      have hplain : ∀ c ∈ List.replicate zeros '0' ++ Nat.toDigits 10 n,
          Text.isNumeralBlank c = false ∧ c ≠ '-' ∧ c ≠ '+' :=
        (PlainSpelling.decimal zeros short).forall (by decide) (by decide)
      have hlength :
          (List.replicate zeros '0' ++ Nat.toDigits 10 n).length ≤ Number.digitLimit := by
        simpa using short
      have hread : Numeral.decimalInteger? (List.replicate zeros '0' ++ Nat.toDigits 10 n) =
          some (n : Int) := by
        rw [Numeral.decimalInteger?_of_unsigned (fun c hc => (hplain c hc).1) hlength
          fun c hc => (hplain c hc).2, Numeral.natural?_leading_zeros (by decide) (by decide)]
        rfl
      rw [integer?_unprefixed (splitBase?_of_decimalInteger? hread (List.Subset.refl _)), hread]
  | @prefixed zeros letter base mark =>
      have hknown : Numeral.baseOfLetter? letter = some base ∧ 1 < base ∧ base ≤ 16 := by
        simp only [List.mem_cons, Prod.mk.injEq, List.not_mem_nil, or_false] at mark
        obtain ⟨rfl, rfl⟩ | ⟨rfl, rfl⟩ | ⟨rfl, rfl⟩ := mark <;> decide
      have hblank : ∀ c ∈ List.replicate zeros '0' ++ Nat.toDigits base n,
          Text.isNumeralBlank c = false := fun c hc =>
        (PlainSpelling.prefixed zeros mark).forall (P := fun c => Text.isNumeralBlank c = false)
          (by decide) (by decide) c (List.mem_cons_of_mem _ (List.mem_cons_of_mem _ hc))
      rw [integer?_prefixed hknown.1, Numeral.prefixedInteger?_eq,
        Text.dropEndWhile_of_forall hblank,
        Numeral.natural?_leading_zeros hknown.2.1 hknown.2.2]
      rfl

end Plain

/-! ### Spellings -/

section Spellings

variable {n : Nat} {text : String}

theorem Spells.read_eq (h : Spells n text) : read text = .ok (.integer n) := by
  obtain ⟨plain, hplain, hdressed⟩ := h
  have hclean : clean text = plain := by
    rw [← String.ofList_toList (s := text)]
    exact hdressed.clean_eq (hplain.forall (by decide) (by decide))
  rw [read_eq_integer_iff, hclean, hplain.integer?_eq]

theorem Spells.isBlank_eq_false (h : Spells n text) :
    ∀ c ∈ text.toList, Text.isBlank c = false := by
  obtain ⟨plain, hplain, hdressed⟩ := h
  exact hdressed.forall (by decide) (hplain.forall (by decide) (by decide))

/-- Behind a sign, blanks before the spelling do not count. -/
theorem Spells.evaluateConstant_sign (h : Spells n text) {blanks : String}
    (hblanks : ∀ c ∈ blanks.toList, Text.isBlank c) (location : Option Location) :
    (⟨.prefixUnary, "-" ++ blanks ++ text, location⟩ : Literal).evaluateConstant =
        .enumNumber (.integer (-n)) ∧
      (⟨.prefixUnary, "+" ++ blanks ++ text, location⟩ : Literal).evaluateConstant =
        .enumNumber (.integer n) := by
  have htrim : Text.trim (blanks ++ text).toList = text.toList := by
    rw [String.toList_append, ← List.append_nil (_ ++ _), Text.trim,
      Text.trimWhile_append hblanks (List.forall_mem_nil _),
      Text.trimWhile_of_forall h.isBlank_eq_false]
  have hread : read (String.ofList (Text.trim (blanks ++ text).toList)) = .ok (.integer n) := by
    rw [htrim, String.ofList_toList, h.read_eq]
  obtain ⟨hminus, hplus, -⟩ := unary?_of_read hread
  rw [← String.append_assoc] at hminus hplus
  exact ⟨Literal.evaluateConstant_prefixUnary hminus location,
    Literal.evaluateConstant_prefixUnary hplus location⟩

theorem Spells.resolveWithin_bigInt (h : Spells n text) (budget : Nat) (table : DeclarationTable)
    (policy : Policy) (location location' : Option Location) :
    (resolveWithin (budget + 1) (.ofTable table) policy
      (.literal location ⟨.bigInt, text ++ "n", location'⟩)).1 = .ok ⟨.bigIntLiteral n, []⟩ := by
  have hevaluate : (⟨.bigInt, text ++ "n", location'⟩ : Literal).evaluate? =
      some ⟨[.bigIntLiteral], .number (.integer n)⟩ := by
    rw [Literal.evaluate?, readBigInt_append_mark h.read_eq]
    rfl
  have hmeaning : (Environment.ofTable table).literalSchema? ⟨.bigInt, text ++ "n", location'⟩ =
      some (.bigIntLiteral n) := by
    simp [Environment.literalSchema?, Environment.ofTable, Environment.evaluate, hevaluate,
      Except.toOption, Json.toInteger]
  rw [resolveWithin_eq_ok_iff]
  exact ⟨{}, Resolve.typeWithin_succ_eq_ok_iff.mpr (.literal hmeaning), rfl⟩

theorem encode_bigIntLiteral (hshort : (Nat.toDigits 10 n).length ≤ Number.digitLimit)
    (listing room : Nat) :
    (Schema.bigIntLiteral n).encode listing (room + 1) =
      .ok (Schema.tagged "bigIntLiteral"
        [("literal", .text (String.ofList (Nat.toDigits 10 n)))]) := by
  have hlong : ¬ (Number.integer n).isTooLong := by
    rw [Number.isTooLong_integer_iff, Int.natAbs_natCast, Nat.not_le]
    exact (Nat.length_toDigits_le_iff (by decide) (by decide)).mp hshort
  have hdigits : Schema.digits n = .ok (String.ofList (Nat.toDigits 10 n)) := by
    rw [Schema.digits, if_neg hlong]
    rfl
  change Schema.inCalls 1 (room + 1) (fun _ => do
    return Schema.tagged "bigIntLiteral" [("literal", .text (← Schema.digits n))]) = _
  rw [Schema.inCalls_succ, hdigits]
  rfl

/-- **Integer literals are exact.** However a natural number of at most as many digits as can be
written is spelled, the literal is that number, a sign in front of it makes an initializer that
evaluates to the number with that sign, and the literal of arbitrary size resolves to a schema that
is written with the decimal digits of the number. -/
theorem spellings_exact (hshort : (Nat.toDigits 10 n).length ≤ Number.digitLimit)
    (h : Spells n text) :
    read text = .ok (.integer n) ∧
    (∀ (blanks : String) (location : Option Location),
      (∀ c ∈ blanks.toList, Text.isBlank c) →
        (⟨.prefixUnary, "-" ++ blanks ++ text, location⟩ : Literal).evaluateConstant =
            .enumNumber (.integer (-n)) ∧
          (⟨.prefixUnary, "+" ++ blanks ++ text, location⟩ : Literal).evaluateConstant =
            .enumNumber (.integer n)) ∧
    ∀ (budget : Nat) (table : DeclarationTable) (policy : Policy)
      (location location' : Option Location),
      ∃ model, (resolveWithin (budget + 1) (.ofTable table) policy
          (.literal location ⟨.bigInt, text ++ "n", location'⟩)).1 = .ok model ∧
        model.deps = [] ∧
        ∀ listing room, model.root.encode listing (room + 1) =
          .ok (Schema.tagged "bigIntLiteral"
            [("literal", .text (String.ofList (Nat.toDigits 10 n)))]) := by
  refine ⟨h.read_eq, ?_, ?_⟩
  · exact fun blanks location hblanks => h.evaluateConstant_sign hblanks location
  · intro budget table policy location location'
    exact ⟨_, h.resolveWithin_bigInt budget table policy location location', rfl,
      encode_bigIntLiteral hshort⟩

/-- Letters that are exponents, prefixes and marks elsewhere, in both cases and among
underscores. -/
theorem spellings_exact_lettered :
    (Nat.toDigits 10 48879).length ≤ Number.digitLimit ∧ Spells 48879 "0X_bE_eF" ∧
    read "0X_bE_eF" = .ok (.integer 48879) ∧
    (⟨.prefixUnary, "-" ++ " \t" ++ "0X_bE_eF", none⟩ : Literal).evaluateConstant =
      .enumNumber (.integer (-48879)) ∧
    ∃ model, (resolveWithin 1 (.ofTable .empty) ⟨.expand, false⟩
        (.literal none ⟨.bigInt, "0X_bE_eF" ++ "n", none⟩)).1 = .ok model ∧
      model.deps = [] ∧
      ∀ listing room, model.root.encode listing (room + 1) =
        .ok (Schema.tagged "bigIntLiteral" [("literal", .text "48879")]) := by
  have hshort : (Nat.toDigits 10 48879).length ≤ Number.digitLimit := by decide
  have hplain : PlainSpelling 48879 ['0', 'x', 'b', 'e', 'e', 'f'] :=
    @PlainSpelling.prefixed 48879 0 'x' 16 (by decide)
  have hdressed : Dresses ['0', 'x', 'b', 'e', 'e', 'f'] "0X_bE_eF".toList :=
    .small '0' (.capital 'x' (.separator (.small 'b' (.capital 'e' (.separator (.small 'e'
      (.capital 'f' .nil)))))))
  have hspells : Spells 48879 "0X_bE_eF" := ⟨_, hplain, hdressed⟩
  have hblanks : ∀ c ∈ " \t".toList, Text.isBlank c := by
    rw [show " \t".toList = [' ', '\t'] from rfl, List.forall_mem_cons, List.forall_mem_singleton]
    decide
  obtain ⟨hread, hsigned, hbig⟩ := spellings_exact hshort hspells
  exact ⟨hshort, hspells, hread, (hsigned " \t" none hblanks).1,
    hbig 0 .empty ⟨.expand, false⟩ none none⟩

end Spellings

end TypeSchema.NumericLiteral
