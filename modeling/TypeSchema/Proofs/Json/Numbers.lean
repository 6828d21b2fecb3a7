import TypeSchema.Proofs.Json.Quotation

/-!
# Numbers read back

A number is set out by figures, which the reader takes up to the first character that cannot
continue a number; what follows a value is such a character. Figures with neither a point nor an
exponent are an integer, all others a binary64 number. The numbers that are not finite have words.
-/

namespace TypeSchema.Json

/-- Whether a number has a text, and is no other NaN than the one that is read. -/
def isRestorableNumber : Number → Bool
  | .integer n => !(Number.integer n).isTooLong
  | .real x => !x.isNaN || x = Binary64.nan

/-- What may follow a value. -/
def isDelimiter (c : Char) : Bool := isBlank c || c = ',' || c = ']' || c = '\x7d'

/-- The characters end a value that stands in front of them. -/
def EndValue (rest : List Char) : Prop := ∀ c ∈ rest.head?, isDelimiter c

theorem forall_isDelimiter {P : Char → Prop}
    (h : ∀ c ∈ [' ', '\t', '\n', '\r', ',', ']', '\x7d'], P c) {c : Char} (hc : isDelimiter c) :
    P c := by
  refine h c ?_
  simp only [isDelimiter, isBlank, Bool.or_eq_true, decide_eq_true_eq] at hc
  simpa [or_assoc] using hc

section Numbers

open Numeral

variable {f : Figures} {rest : List Char}

/-- Digits are taken up to the first character that is none. -/
theorem takeWhile_isDigit {digits : List Nat} (hlt : ∀ d ∈ digits, d < 10)
    (hrest : ∀ c ∈ rest.head?, isDigit c = false) :
    (digits.map Nat.digitChar ++ rest).takeWhile isDigit = digits.map Nat.digitChar := by
  rw [List.takeWhile_append_of_pos (forall_digitChar hlt (by decide))]
  cases rest with
  | nil => exact List.append_nil _
  | cons c rest => rw [List.takeWhile_cons_of_neg (by simp [hrest c rfl]), List.append_nil]

theorem head?_exponentChars_append (hrest : EndValue rest) :
    ∀ c ∈ (f.exponentChars ++ rest).head?, isDigit c = false ∧ c ≠ '.' := by
  rw [Figures.exponentChars]
  cases f.exponent with
  | none =>
      exact fun c hc => forall_isDelimiter (P := fun c => isDigit c = false ∧ c ≠ '.')
        (by simp [isDigit]) (hrest c hc)
  | some power =>
      intro c hc
      obtain rfl := Option.some.inj hc
      decide

theorem fractionDigits_append (hf : f.IsValid) (hrest : EndValue rest) :
    fractionDigits (f.fractionChars ++ (f.exponentChars ++ rest)) =
      f.fraction.map Nat.digitChar := by
  have hhead := head?_exponentChars_append (f := f) hrest
  rw [Figures.fractionChars]
  split_ifs with hnil
  · rw [List.nil_append, hnil, List.map_nil, fractionDigits.eq_def]
    split
    · next heq => exact absurd rfl (hhead '.' (by rw [heq]; rfl)).2
    · rfl
  · exact takeWhile_isDigit hf.fraction_lt fun c hc => (hhead c hc).1

theorem exponentChars_append (hf : f.IsValid) (hrest : EndValue rest) :
    exponentChars (f.exponentChars ++ rest) = f.exponentChars := by
  rw [Figures.exponentChars]
  cases hexponent : f.exponent with
  | none =>
      cases rest with
      | nil => rfl
      | cons c rest =>
          have hc : c ≠ 'e' ∧ c ≠ 'E' :=
            forall_isDelimiter (P := fun c => c ≠ 'e' ∧ c ≠ 'E') (by simp) (hrest c rfl)
          change exponentChars (c :: rest) = []
          rw [exponentChars, if_neg (by simp [hc])]
  | some power =>
      obtain ⟨hne, hlt⟩ := hf.exponent power hexponent
      obtain ⟨negative, digits⟩ := power
      obtain ⟨d, others, rfl⟩ := List.exists_cons_of_ne_nil hne
      have hfirst : Nat.digitChar d ≠ '+' ∧ Nat.digitChar d ≠ '-' :=
        (by decide : ∀ d < 10, Nat.digitChar d ≠ '+' ∧ Nat.digitChar d ≠ '-') d
          (hlt d List.mem_cons_self)
      have hsign : ((if negative then '-' else '+') ::
          ((d :: others).map Nat.digitChar ++ rest)).takeWhile (fun c => c = '+' || c = '-') =
            [if negative then '-' else '+'] := by
        rw [List.takeWhile_cons_of_pos (by cases negative <;> rfl), List.map_cons, List.cons_append,
          List.takeWhile_cons_of_neg (by simp [hfirst])]
      have hdigits : ((d :: others).map Nat.digitChar ++ rest).takeWhile isDigit =
          (d :: others).map Nat.digitChar :=
        takeWhile_isDigit hlt fun c hc =>
          forall_isDelimiter (P := fun c => isDigit c = false) (by simp [isDigit]) (hrest c hc)
      change exponentChars ('e' :: (if negative then '-' else '+') ::
        ((d :: others).map Nat.digitChar ++ rest)) = _
      rw [exponentChars, if_pos (.inl rfl), hsign]
      simp only [List.length_singleton, List.drop_one, List.tail_cons, hdigits]
      exact if_pos ⟨Nat.le_refl 1, List.cons_ne_nil _ _⟩

theorem wholeDigits_append (hf : f.IsValid) (hrest : EndValue rest) :
    wholeDigits (f.chars ++ rest) = f.whole.map Nat.digitChar := by
  have hafter : ∀ c ∈ (f.fractionChars ++ (f.exponentChars ++ rest)).head?, isDigit c = false := by
    rw [Figures.fractionChars]
    split_ifs
    · exact fun c hc => (head?_exponentChars_append hrest c hc).1
    · intro c hc
      obtain rfl := Option.some.inj hc
      rfl
  have hchars : f.chars ++ rest =
      f.whole.map Nat.digitChar ++ (f.fractionChars ++ (f.exponentChars ++ rest)) := by
    rw [Figures.chars, List.append_assoc, List.append_assoc]
  rw [hchars]
  unfold wholeDigits
  split
  · next tail heq =>
      obtain ⟨d, others, hwhole⟩ := List.exists_cons_of_ne_nil hf.whole_ne_nil
      rw [hwhole, List.map_cons, List.cons_append] at heq
      have hd : d = 0 := (by decide : ∀ d < 10, Nat.digitChar d = '0' → d = 0) d
        (hf.whole_lt d (hwhole ▸ List.mem_cons_self)) (List.cons.inj heq).1
      rw [hf.leading (by rw [hwhole, hd]; rfl)]
      rfl
  · exact takeWhile_isDigit hf.whole_lt hafter

/-- A number in front of what ends it is taken as a whole. It is an integer if it consists of
nothing but the digits in front of a point. -/
theorem readNumber_chars (hf : f.IsValid) (hrest : EndValue rest) (negative : Bool)
    (position : Nat) : ∃ after,
      (f.fraction = [] ∧ f.exponent = none → ∀ n,
        Numeral.decimalInteger? (signChars negative ++ f.chars) = some n →
          readNumber ⟨signChars negative ++ f.chars ++ rest, position⟩ =
            .ok (ofInt n, ⟨rest, after⟩)) ∧
      (¬ (f.fraction = [] ∧ f.exponent = none) → ∀ x,
        Numeral.decimal? (signChars negative ++ f.chars) = some x →
          readNumber ⟨signChars negative ++ f.chars ++ rest, position⟩ =
            .ok (number (.real x), ⟨rest, after⟩)) := by
  have hsign : leadingMinus (signChars negative ++ f.chars ++ rest) = signChars negative := by
    cases negative with
    | true => rfl
    | false =>
        obtain ⟨d, others, hdigits⟩ := List.exists_cons_of_ne_nil hf.whole_ne_nil
        have hd : Nat.digitChar d ≠ '-' :=
          (by decide : ∀ d < 10, Nat.digitChar d ≠ '-') d
            (hf.whole_lt d (hdigits ▸ List.mem_cons_self))
        change leadingMinus (f.chars ++ rest) = []
        rw [Figures.chars, hdigits]
        unfold leadingMinus
        split
        · next heq => exact absurd (List.cons.inj heq).1 hd
        · rfl
  have hdrop : (signChars negative ++ f.chars ++ rest).drop (signChars negative).length =
      f.chars ++ rest := by
    rw [List.append_assoc, List.drop_left]
  have hwhole := wholeDigits_append hf hrest
  have hafter : (signChars negative ++ f.chars ++ rest).drop
      ((signChars negative).length + (f.whole.map Nat.digitChar).length) =
        f.fractionChars ++ (f.exponentChars ++ rest) := by
    rw [← List.drop_drop, hdrop, Figures.chars, List.append_assoc, List.append_assoc,
      List.drop_left]
  have hfraction := fractionDigits_append hf hrest
  have hpoint : (if f.fraction.map Nat.digitChar = [] then [] else
      '.' :: f.fraction.map Nat.digitChar) = f.fractionChars := by
    rw [Figures.fractionChars]
    simp only [List.map_eq_nil_iff]
  have hexponent := exponentChars_append hf hrest
  have hwholene : f.whole.map Nat.digitChar ≠ [] := mt List.map_eq_nil_iff.mp hf.whole_ne_nil
  have hchars : signChars negative ++ f.whole.map Nat.digitChar ++ f.fractionChars ++
      f.exponentChars = signChars negative ++ f.chars := by
    rw [Figures.chars, List.append_assoc, List.append_assoc, ← List.append_assoc (f.whole.map _)]
  have hnone : f.fractionChars = [] ∧ f.exponentChars = [] ↔
      f.fraction = [] ∧ f.exponent = none := by
    rw [Figures.fractionChars, Figures.exponentChars]
    cases f.exponent <;> simp
  unfold readNumber
  dsimp only
  rw [hsign, hdrop, hwhole, hafter, hfraction, hpoint, List.drop_left, hexponent, hchars,
    if_neg hwholene, advance_append]
  refine ⟨position + (signChars negative ++ f.chars).length, fun hinteger n hn => ?_,
    fun hreal x hx => ?_⟩
  · rw [if_pos (hnone.mpr hinteger), hn]
  · rw [if_neg (mt hnone.mp hreal), hx]
    rfl

/-- A digit, also behind a minus, starts no word. -/
theorem readWord?_digit {d : Nat} (hd : d < 10) (negative : Bool) (tail : List Char)
    (position : Nat) :
    readWord? ⟨signChars negative ++ Nat.digitChar d :: tail, position⟩ = none := by
  have hdigit : d = 0 ∨ d = 1 ∨ d = 2 ∨ d = 3 ∨ d = 4 ∨ d = 5 ∨ d = 6 ∨ d = 7 ∨ d = 8 ∨ d = 9 := by
    omega
  rcases hdigit with rfl | rfl | rfl | rfl | rfl | rfl | rfl | rfl | rfl | rfl <;>
    cases negative <;> rfl

theorem exists_chars (hf : f.IsValid) (negative : Bool) :
    ∃ c tail, signChars negative ++ f.chars = c :: tail ∧
      (c = '-' ∨ ∃ d < 10, c = Nat.digitChar d) := by
  obtain ⟨d, others, hdigits⟩ := List.exists_cons_of_ne_nil hf.whole_ne_nil
  have hd : d < 10 := hf.whole_lt d (hdigits ▸ List.mem_cons_self)
  cases negative with
  | true => exact ⟨'-', f.chars, rfl, .inl rfl⟩
  | false =>
      have hchars : f.chars = Nat.digitChar d ::
          (others.map Nat.digitChar ++ f.fractionChars ++ f.exponentChars) := by
        rw [Figures.chars, hdigits]
        rfl
      exact ⟨_, _, hchars, .inr ⟨d, hd, rfl⟩⟩

theorem readValue_chars (hf : f.IsValid) (negative : Bool) (fuel depth position : Nat) :
    readValue (fuel + 1) depth ⟨signChars negative ++ f.chars ++ rest, position⟩ =
      readNumber ⟨signChars negative ++ f.chars ++ rest, position⟩ := by
  obtain ⟨d, others, hdigits⟩ := List.exists_cons_of_ne_nil hf.whole_ne_nil
  have hd : d < 10 := hf.whole_lt d (hdigits ▸ List.mem_cons_self)
  have hchars : signChars negative ++ f.chars ++ rest = signChars negative ++ Nat.digitChar d ::
      (others.map Nat.digitChar ++ f.fractionChars ++ f.exponentChars ++ rest) := by
    rw [List.append_assoc, Figures.chars, hdigits]
    rfl
  have hfirst : ∀ c ∈ (signChars negative ++ f.chars ++ rest).head?,
      c ≠ '"' ∧ c ≠ '[' ∧ c ≠ '\x7b' := by
    obtain ⟨c, tail, heq, hc⟩ := exists_chars hf negative
    rw [heq]
    intro c' hc'
    obtain rfl := Option.some.inj hc'
    obtain rfl | ⟨d, hd, rfl⟩ := hc
    · decide
    · exact (by decide : ∀ d < 10, Nat.digitChar d ≠ '"' ∧ Nat.digitChar d ≠ '[' ∧
        Nat.digitChar d ≠ '\x7b') d hd
  unfold readValue
  split
  · next heq => exact absurd rfl (hfirst '"' (congrArg List.head? heq)).1
  · next heq => exact absurd rfl (hfirst '[' (congrArg List.head? heq)).2.1
  · next heq => exact absurd rfl (hfirst '\x7b' (congrArg List.head? heq)).2.2
  · rw [hchars, readWord?_digit hd]

end Numbers

theorem readValue_word {word : String} {json : Json} (h : (word, json) ∈ words)
    (rest : List Char) (fuel depth position : Nat) :
    readValue (fuel + 1) depth ⟨word.toList ++ rest, position⟩ =
      .ok (json, ⟨rest, position + word.length⟩) := by
  simp only [words, List.mem_cons, Prod.mk.injEq, List.not_mem_nil, or_false] at h
  rcases h with ⟨rfl, rfl⟩ | ⟨rfl, rfl⟩ | ⟨rfl, rfl⟩ | ⟨rfl, rfl⟩ | ⟨rfl, rfl⟩ | ⟨rfl, rfl⟩ <;> rfl

/-- A number that is not finite is written by a word for it. -/
theorem exists_word_render {x : Binary64} (h : isRestorableNumber (.real x))
    (hfinite : x.isFinite = false) :
    ∃ word, (word, number (.real x)) ∈ words ∧ x.render numberLayout = word := by
  rw [isRestorableNumber, Bool.or_eq_true, Bool.not_eq_true', decide_eq_true_eq] at h
  rw [Binary64.render, hfinite]
  cases hnan : x.isNaN with
  | true =>
      obtain rfl : x = Binary64.nan := h.resolve_left (by simp [hnan])
      exact ⟨"NaN", by simp [words], rfl⟩
  | false =>
      have hleast : ¬ Binary64.infiniteMagnitude < x.magnitude := of_decide_eq_false hnan
      have hmost : ¬ x.magnitude < Binary64.infiniteMagnitude := of_decide_eq_false hfinite
      have hinfinite : x.magnitude = Binary64.infiniteMagnitude := by omega
      have hx : Binary64.infinity x.isNegative = x := by
        rw [Binary64.infinity, ← hinfinite, x.ofMagnitude_magnitude]
      cases hsign : x.isNegative with
      | true =>
          rw [hsign] at hx
          rw [← hx]
          exact ⟨"-Infinity", by simp [words], rfl⟩
      | false =>
          rw [hsign] at hx
          rw [← hx]
          exact ⟨"Infinity", by simp [words], rfl⟩

end TypeSchema.Json
