import TypeSchema.Proofs.Number.Numeral

/-!
# Decimals by their figures

A decimal that is set out consists of digits before a point, digits after it and an exponent, where
the point or the exponent may be missing. It is read as the number that all its digits make, at the
place that is left of the exponent when the digits after the point are counted off.
-/

namespace TypeSchema.Numeral

section Split

variable {separator : Char} {cs : List Char}

theorem splitAt_of_forall (h : ∀ c ∈ cs, c ≠ separator) : splitAt separator cs = (cs, none) := by
  have hdrop : cs.dropWhile (fun c => decide (c ≠ separator)) = [] :=
    List.dropWhile_eq_nil_iff.mpr fun c hc => decide_eq_true (h c hc)
  rw [splitAt, hdrop]

theorem splitAt_append (h : ∀ c ∈ cs, c ≠ separator) (rest : List Char) :
    splitAt separator (cs ++ separator :: rest) = (cs, some rest) := by
  have hall : ∀ c ∈ cs, decide (c ≠ separator) = true := fun c hc => decide_eq_true (h c hc)
  rw [splitAt, List.dropWhile_append_of_pos hall, List.dropWhile_cons_of_neg (by simp),
    List.takeWhile_append_of_pos hall, List.takeWhile_cons_of_neg (by simp), List.append_nil]

end Split

/-- The digits of a decimal before and after its point, by their values, and the digits of its
exponent behind the sign, which is true for minus. -/
structure Figures where
  whole : List Nat
  fraction : List Nat
  exponent : Option (Bool × List Nat)

namespace Figures

def digits (f : Figures) : List Nat := f.whole ++ f.fraction

/-- The decimal place of the last digit. -/
def place (f : Figures) : Int :=
  f.exponent.elim 0 (fun power => applySign power.1 (value 10 power.2)) - f.fraction.length

def fractionChars (f : Figures) : List Char :=
  if f.fraction = [] then [] else '.' :: f.fraction.map Nat.digitChar

def exponentChars (f : Figures) : List Char :=
  f.exponent.elim [] fun power =>
    'e' :: (if power.1 then '-' else '+') :: power.2.map Nat.digitChar

def chars (f : Figures) : List Char :=
  f.whole.map Nat.digitChar ++ f.fractionChars ++ f.exponentChars

/-- There is a digit wherever one has to be, and no superfluous zero at the start. -/
structure IsValid (f : Figures) : Prop where
  lt : ∀ d ∈ f.digits, d < 10
  whole_ne_nil : f.whole ≠ []
  leading : f.whole.head? = some 0 → f.whole = [0]
  exponent : ∀ power ∈ f.exponent, power.2 ≠ [] ∧ ∀ d ∈ power.2, d < 10

/-- Figures without an exponent. -/
theorem IsValid.plain {whole fraction : List Nat} (hlt : ∀ d ∈ whole ++ fraction, d < 10)
    (hne : whole ≠ []) (hleading : whole.head? = some 0 → whole = [0]) :
    IsValid ⟨whole, fraction, none⟩ :=
  ⟨hlt, hne, hleading, fun _ h => absurd h (Option.not_mem_none _)⟩

variable {f : Figures}

theorem IsValid.whole_lt (h : f.IsValid) : ∀ d ∈ f.whole, d < 10 :=
  fun d hd => h.lt d (List.mem_append_left _ hd)

theorem IsValid.fraction_lt (h : f.IsValid) : ∀ d ∈ f.fraction, d < 10 :=
  fun d hd => h.lt d (List.mem_append_right _ hd)

/-- What holds of the digits and of the three marks holds of every character. -/
theorem IsValid.forall_mem_chars {P : Char → Prop} (h : f.IsValid)
    (hdigit : ∀ d < 10, P (Nat.digitChar d)) (hpoint : P '.')
    (hmark : P 'e' ∧ P '-' ∧ P '+') : ∀ c ∈ f.chars, P c := by
  have hdigits {digits : List Nat} (hlt : ∀ d ∈ digits, d < 10) :
      ∀ c ∈ digits.map Nat.digitChar, P c := forall_digitChar hlt hdigit
  refine List.forall_mem_append.mpr ⟨List.forall_mem_append.mpr ⟨hdigits h.whole_lt, ?_⟩, ?_⟩
  · rw [fractionChars]
    split_ifs
    · exact List.forall_mem_nil _
    · exact List.forall_mem_cons.mpr ⟨hpoint, hdigits h.fraction_lt⟩
  · rw [exponentChars]
    cases hexponent : f.exponent with
    | none => exact List.forall_mem_nil _
    | some power =>
        refine List.forall_mem_cons.mpr ⟨hmark.1, List.forall_mem_cons.mpr ⟨?_, ?_⟩⟩
        · split_ifs
          · exact hmark.2.1
          · exact hmark.2.2
        · exact hdigits (h.exponent power hexponent).2

end Figures

/-- The sign in front of a number. -/
def signChars (negative : Bool) : List Char := if negative then ['-'] else []

theorem splitSign_signChars {c : Char} (h : c ≠ '-' ∧ c ≠ '+') (negative : Bool) (cs : List Char) :
    splitSign (signChars negative ++ c :: cs) = (negative, c :: cs) := by
  cases negative with
  | true => rfl
  | false => exact splitSign_cons h cs

namespace Figures

variable {f : Figures}

theorem splitAt_point (h : f.IsValid) :
    splitAt '.' (f.whole.map Nat.digitChar ++ f.fractionChars) =
      (f.whole.map Nat.digitChar,
        if f.fraction = [] then none else some (f.fraction.map Nat.digitChar)) := by
  have hwhole : ∀ c ∈ f.whole.map Nat.digitChar, c ≠ '.' :=
    forall_digitChar h.whole_lt (by decide)
  rw [fractionChars]
  split_ifs
  · rw [List.append_nil, splitAt_of_forall hwhole]
  · exact splitAt_append hwhole _

theorem splitAt_mark (h : f.IsValid) :
    splitAt 'e' f.chars = (f.whole.map Nat.digitChar ++ f.fractionChars,
      f.exponent.map fun power =>
        (if power.1 then '-' else '+') :: power.2.map Nat.digitChar) := by
  have hmantissa : ∀ c ∈ f.whole.map Nat.digitChar ++ f.fractionChars, c ≠ 'e' := by
    refine List.forall_mem_append.mpr ⟨forall_digitChar h.whole_lt (by decide), ?_⟩
    rw [fractionChars]
    split_ifs
    · exact List.forall_mem_nil _
    · exact List.forall_mem_cons.mpr ⟨by decide, forall_digitChar h.fraction_lt (by decide)⟩
  rw [chars, exponentChars]
  cases f.exponent with
  | none => exact (List.append_nil _).symm ▸ splitAt_of_forall hmantissa
  | some power => exact splitAt_append hmantissa _

theorem exponent?_eq (h : f.IsValid) :
    exponent? (f.exponent.map fun power =>
      (if power.1 then '-' else '+') :: power.2.map Nat.digitChar) =
    some (f.exponent.elim 0 fun power => applySign power.1 (value 10 power.2)) := by
  cases hexponent : f.exponent with
  | none => rfl
  | some power =>
      obtain ⟨negative, digits⟩ := power
      obtain ⟨hne, hlt⟩ := h.exponent _ hexponent
      have hread := natural?_map_digitChar (by decide) hlt hne
      cases negative <;>
        · change (natural? 10 (digits.map Nat.digitChar)).map _ = _
          rw [hread]
          rfl

/-- A decimal is read as the number its digits make. -/
theorem decimal?_chars (h : f.IsValid) (negative : Bool) :
    decimal? (signChars negative ++ f.chars) = some (Binary64.ofDecimal negative
      (value 10 f.digits) (f.digits.dropWhile (· = 0)).length f.place) := by
  have hblank : ∀ c ∈ signChars negative ++ f.chars, Text.isNumeralBlank c = false := by
    refine List.forall_mem_append.mpr ⟨?_, h.forall_mem_chars (by decide) rfl (by decide)⟩
    cases negative
    · exact List.forall_mem_nil _
    · exact List.forall_mem_singleton.mpr rfl
  obtain ⟨d, rest, hwhole⟩ := List.exists_cons_of_ne_nil h.whole_ne_nil
  have hfirst : Nat.digitChar d ≠ '-' ∧ Nat.digitChar d ≠ '+' :=
    (by decide : ∀ d < 10, Nat.digitChar d ≠ '-' ∧ Nat.digitChar d ≠ '+') d
      (h.whole_lt d (hwhole ▸ List.mem_cons_self))
  have hsplit : splitSign (signChars negative ++ f.chars) = (negative, f.chars) := by
    have hchars : f.chars = Nat.digitChar d ::
        (rest.map Nat.digitChar ++ f.fractionChars ++ f.exponentChars) := by
      rw [chars, hwhole]
      rfl
    rw [hchars]
    exact splitSign_signChars hfirst negative _
  have hfraction : (if f.fraction = [] then none else some (f.fraction.map Nat.digitChar)).getD [] =
      f.fraction.map Nat.digitChar := by
    split_ifs with hnil
    · rw [hnil]
      rfl
    · rfl
  have hread : digits? 10 (f.whole.map Nat.digitChar ++ f.fraction.map Nat.digitChar) =
      some f.digits := by
    rw [← List.map_append]
    exact digits?_map_digitChar (by decide) h.lt
  rw [decimal?, Text.trimWhile_of_forall hblank, hsplit]
  dsimp only
  rw [splitAt_mark h]
  dsimp only
  rw [splitAt_point h]
  dsimp only
  rw [hfraction, if_neg (by simp [h.whole_ne_nil]), hread, exponent?_eq h, List.length_map]
  rfl

end Figures

end TypeSchema.Numeral
