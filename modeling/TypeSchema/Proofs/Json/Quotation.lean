import TypeSchema.Proofs.Json.Writing

/-!
# Texts in quotes read back

A code point is written in one of four ways, and each is read off again whatever follows it. Only
the halves of surrogate pairs depend on what follows: two of them that stand next to each other by
themselves are read as the pair. Texts are held by characters that stand for their code points, and
only a text that is held in the usual way is held so again when it is read.
-/

namespace TypeSchema.Json

/-- Whether half of a surrogate pair stands in front of one that completes it. -/
def hasPair : List Nat → Bool
  | high :: low :: rest => (Text.isHighHalf high && Text.isLowHalf low) || hasPair (low :: rest)
  | _ => false

/-- Whether a text is held the way documents hold theirs, without halves that make a pair. -/
def isRestorableText (s : String) : Bool :=
  (Text.points s.toList).flatMap Text.hold = s.toList && !hasPair (Text.points s.toList)

theorem hasPair_tail {point : Nat} {rest : List Nat} (h : hasPair (point :: rest) = false) :
    hasPair rest = false := by
  cases rest with
  | nil => rfl
  | cons next rest =>
      rw [hasPair, Bool.or_eq_false_iff] at h
      exact h.2

theorem advance_append (cs rest : List Char) (position : Nat) :
    Cursor.advance ⟨cs ++ rest, position⟩ cs.length = ⟨rest, position + cs.length⟩ := by
  rw [Cursor.advance, List.drop_left]

/-! ### UTF-16 units -/

theorem mapM_hexDigit?_map {digits : List Nat} (hlt : ∀ d ∈ digits, d < 16) :
    (digits.map Nat.digitChar).mapM hexDigit? = some digits := by
  have hvalues : ∀ d < 16, hexDigit? (Nat.digitChar d) = some d := by decide
  induction digits with
  | nil => rfl
  | cons d rest ih =>
      obtain ⟨hd, hrest⟩ := List.forall_mem_cons.mp hlt
      rw [List.map_cons, List.mapM_cons, hvalues d hd, ih hrest]
      rfl

theorem unit?_hexPadded {n : Nat} (h : n < 0x10000) {rest : List Char} (hrest : rest ≠ []) :
    unit? (Text.hexPadded 4 n ++ rest) = some n := by
  have hlength : (Text.hexPadded 4 n).length = 4 := length_hexPadded (by decide) h
  have htake : (Text.hexPadded 4 n ++ rest).take 4 = Text.hexPadded 4 n := List.take_left' hlength
  obtain ⟨digits, hdigits, hlt, hvalue⟩ := Numeral.exists_digits (by decide : 1 < 16) n
  have hall : ∀ d ∈ List.replicate (4 - digits.length) 0 ++ digits, d < 16 := by
    refine List.forall_mem_append.mpr ⟨fun d hd => ?_, hlt⟩
    rw [List.eq_of_mem_replicate hd]
    decide
  have hpadded : Text.hexPadded 4 n =
      (List.replicate (4 - digits.length) 0 ++ digits).map Nat.digitChar := by
    rw [Text.hexPadded, hdigits, List.map_append, List.map_replicate, List.length_map]
    rfl
  have hlong : ¬ (Text.hexPadded 4 n ++ rest).length ≤ 4 := by
    have hpos := List.length_pos_iff.mpr hrest
    rw [List.length_append]
    omega
  rw [unit?, if_neg hlong, htake, hpadded, mapM_hexDigit?_map hall, Option.map_some,
    Numeral.value_leading_zeros, hvalue]

theorem drop_hexPadded {n : Nat} (h : n < 0x10000) (rest : List Char) :
    (Text.hexPadded 4 n ++ rest).drop 4 = rest :=
  List.drop_left' (length_hexPadded (by decide) h)

/-- The characters do not start with the escape of a low half. -/
def StartsWithoutLowHalf (cs : List Char) : Prop :=
  ∀ low, cs = '\\' :: 'u' :: low → ∃ next, unit? low = some next ∧ Text.isLowHalf next = false

theorem readUnits_unit {n : Nat} (h : n < 0x10000) {rest : List Char} (hrest : rest ≠ [])
    (hnext : Text.isHighHalf n → StartsWithoutLowHalf rest) (position : Nat) :
    readUnits ⟨'u' :: (Text.hexPadded 4 n ++ rest), position⟩ = .ok (n, 5) := by
  unfold readUnits
  simp only [List.drop_succ_cons, List.drop_zero, unit?_hexPadded h hrest, drop_hexPadded h]
  split
  · next low =>
      by_cases hhigh : Text.isHighHalf n
      · obtain ⟨next, hlow, hnot⟩ := hnext hhigh low rfl
        by_cases hlong : 4 < low.length
        · simp [hhigh, hlong, hlow, hnot, pure, Except.pure]
        · simp [hhigh, hlong, pure, Except.pure]
      · simp [hhigh, pure, Except.pure]
  · rfl

theorem readUnits_pair {high low : Nat} (hhigh : Text.isHighHalf high) (hlow : Text.isLowHalf low)
    {rest : List Char} (hrest : rest ≠ []) (position : Nat) :
    readUnits ⟨'u' :: (Text.hexPadded 4 high ++ escapeUnit low ++ rest), position⟩ =
      .ok (0x10000 + (high - 0xD800) * 0x400 + (low - 0xDC00), 11) := by
  have hhigh' : high < 0x10000 := (isHighHalf_iff.mp hhigh).2.trans (by decide)
  have hlow' : low < 0x10000 := (isLowHalf_iff.mp hlow).2.trans (by decide)
  have hunit : unit? (Text.hexPadded 4 high ++ (escapeUnit low ++ rest)) = some high :=
    unit?_hexPadded hhigh' (List.cons_ne_nil _ _)
  have hunit' : unit? (Text.hexPadded 4 low ++ rest) = some low := unit?_hexPadded hlow' hrest
  have hdrop : (Text.hexPadded 4 high ++ (escapeUnit low ++ rest)).drop 4 =
      '\\' :: 'u' :: (Text.hexPadded 4 low ++ rest) := drop_hexPadded hhigh' _
  have hlong : 4 < (Text.hexPadded 4 low ++ rest).length := by
    have hpos := List.length_pos_iff.mpr hrest
    rw [List.length_append, length_hexPadded (by decide) hlow']
    omega
  rw [List.append_assoc]
  unfold readUnits
  simp only [List.drop_succ_cons, List.drop_zero, hunit, hdrop]
  rw [hhigh, decide_eq_true hlong, Bool.and_self, if_pos rfl, hunit']
  dsimp only
  rw [if_pos hlow]
  rfl

theorem IsEscape.startsWithoutLowHalf {cs rest : List Char} {point : Nat} (h : IsEscape point cs)
    (hlow : Text.isLowHalf point = false) (hrest : rest ≠ []) :
    StartsWithoutLowHalf (cs ++ rest) := by
  intro low heq
  cases h with
  | letter h _ =>
      obtain rfl := (List.cons.inj (List.cons.inj heq).2).1
      cases h
  | plain _ _ hescape _ => exact absurd (List.cons.inj heq).1 hescape
  | unit h =>
      obtain rfl := (List.cons.inj (List.cons.inj heq).2).2
      exact ⟨point, unit?_hexPadded h hrest, hlow⟩
  | @pair high low hhigh _ _ =>
      rw [isHighHalf_iff] at hhigh
      rw [List.append_assoc] at heq
      obtain rfl := (List.cons.inj (List.cons.inj heq).2).2
      refine ⟨high, unit?_hexPadded (hhigh.2.trans (by decide)) (List.cons_ne_nil _ _), ?_⟩
      rw [← Bool.not_eq_true, isLowHalf_iff]
      omega

/-! ### Code points -/

section Steps

variable (start fuel position : Nat) (done : List Nat) (rest : List Char)

theorem readText_letter {letter c : Char} (h : escaped? letter = some c) :
    readText start (fuel + 1) ⟨'\\' :: letter :: rest, position⟩ done =
      readText start fuel ⟨rest, position + 2⟩ (c.toNat :: done) := by
  rw [readText]
  split
  · next heq => cases heq
  · next heq => exact absurd (List.cons.inj heq).1 (by decide)
  · next heq => cases heq
  · next heq =>
      obtain rfl := (List.cons.inj (List.cons.inj heq).2).1
      cases h
  · next heq =>
      obtain rfl := (List.cons.inj (List.cons.inj heq).2).1
      rw [h]
      rfl
  · next hescape heq =>
      obtain ⟨rfl, rfl⟩ := List.cons.inj heq
      exact absurd rfl (hescape letter rest rfl)

theorem readText_plain {c : Char} (h : 0x20 ≤ c.toNat) (hquote : c ≠ '"') (hescape : c ≠ '\\') :
    readText start (fuel + 1) ⟨c :: rest, position⟩ done =
      readText start fuel ⟨rest, position + 1⟩ (c.toNat :: done) := by
  rw [readText]
  split
  · next heq => cases heq
  · next heq => exact absurd (List.cons.inj heq).1 hquote
  · next heq => exact absurd (List.cons.inj heq).1 hescape
  · next heq => exact absurd (List.cons.inj heq).1 hescape
  · next heq => exact absurd (List.cons.inj heq).1 hescape
  · next heq =>
      obtain ⟨rfl, rfl⟩ := List.cons.inj heq
      rw [if_neg (Nat.not_lt.mpr h)]
      rfl

theorem readText_units {length point : Nat}
    (h : readUnits ⟨'u' :: rest, position + 1⟩ = .ok (point, length)) :
    readText start (fuel + 1) ⟨'\\' :: 'u' :: rest, position⟩ done =
      readText start fuel (Cursor.advance ⟨'\\' :: 'u' :: rest, position⟩ (1 + length))
        (point :: done) := by
  rw [readText]
  change (readUnits ⟨'u' :: rest, position + 1⟩ >>= _) = _
  rw [h]
  rfl

end Steps

theorem length_escapeUnit {n : Nat} (h : n < 0x10000) : (escapeUnit n).length = 6 :=
  congrArg (· + 2) (length_hexPadded (by decide) h)

/-- One code point is read off from the way it is written. -/
theorem readText_escape {cs rest : List Char} {point : Nat} (h : IsEscape point cs)
    (hrest : rest ≠ []) (hnext : Text.isHighHalf point → StartsWithoutLowHalf rest)
    (start fuel position : Nat) (done : List Nat) :
    ∃ after, readText start (fuel + 1) ⟨cs ++ rest, position⟩ done =
      readText start fuel ⟨rest, after⟩ (point :: done) := by
  cases h with
  | letter h hvalue => exact ⟨_, hvalue ▸ readText_letter start fuel position done rest h⟩
  | plain h hquote hescape hvalue =>
      exact ⟨_, hvalue ▸ readText_plain start fuel position done rest h hquote hescape⟩
  | unit h =>
      have hread := readText_units start fuel position done (Text.hexPadded 4 point ++ rest)
        (readUnits_unit h hrest hnext (position + 1))
      have hadvance := advance_append (escapeUnit point) rest position
      rw [length_escapeUnit h] at hadvance
      exact ⟨_, hread.trans (congrArg (readText start fuel · _) hadvance)⟩
  | @pair high low hhigh hlow hpoint =>
      have hread := readText_units start fuel position done
        (Text.hexPadded 4 high ++ escapeUnit low ++ rest)
        (readUnits_pair hhigh hlow hrest (position + 1))
      have hlength : (escapeUnit high ++ escapeUnit low).length = 12 := by
        rw [isHighHalf_iff] at hhigh
        rw [isLowHalf_iff] at hlow
        rw [List.length_append, length_escapeUnit (by omega), length_escapeUnit (by omega)]
      have hadvance := advance_append (escapeUnit high ++ escapeUnit low) rest position
      rw [hlength] at hadvance
      rw [hpoint] at hread
      exact ⟨_, hread.trans (congrArg (readText start fuel · _) hadvance)⟩

/-- The code points of a text are read off one by one, up to the closing quote. -/
theorem readText_flatMap {points : List Nat} (hrange : ∀ point ∈ points, point < 0x110000)
    (hunpaired : hasPair points = false) (rest : List Char) (start : Nat) {fuel : Nat}
    (hfuel : points.length < fuel) (position : Nat) (done : List Nat) :
    ∃ after, readText start fuel ⟨points.flatMap escape ++ '"' :: rest, position⟩ done =
      .ok (Text.ofPoints (done.reverse ++ points), ⟨rest, after⟩) := by
  induction points generalizing fuel position done with
  | nil =>
      obtain ⟨fuel, rfl⟩ := Nat.exists_eq_succ_of_ne_zero hfuel.ne'
      refine ⟨position + 1, ?_⟩
      rw [List.append_nil]
      rfl
  | cons point points ih =>
      obtain ⟨fuel, rfl⟩ := Nat.exists_eq_succ_of_ne_zero (Nat.ne_zero_of_lt hfuel)
      obtain ⟨hpoint, hrest⟩ := List.forall_mem_cons.mp hrange
      have hne : points.flatMap escape ++ '"' :: rest ≠ [] :=
        List.append_ne_nil_of_right_ne_nil _ (List.cons_ne_nil _ _)
      have hnext (hhigh : Text.isHighHalf point) :
          StartsWithoutLowHalf (points.flatMap escape ++ '"' :: rest) := by
        cases points with
        | nil =>
            intro low heq
            exact absurd (List.cons.inj heq).1 (by decide)
        | cons next points =>
            have hlow : Text.isLowHalf next = false := by
              rw [hasPair, hhigh, Bool.true_and, Bool.or_eq_false_iff] at hunpaired
              exact hunpaired.1
            rw [List.flatMap_cons, List.append_assoc]
            exact (isEscape_escape (List.forall_mem_cons.mp hrest).1).startsWithoutLowHalf hlow
              (List.append_ne_nil_of_right_ne_nil _ (List.cons_ne_nil _ _))
      obtain ⟨middle, hstep⟩ := readText_escape (isEscape_escape hpoint) hne hnext start fuel
        position done
      obtain ⟨after, hread⟩ := ih hrest (hasPair_tail hunpaired) (Nat.lt_of_succ_lt_succ hfuel)
        middle (point :: done)
      refine ⟨after, ?_⟩
      rw [List.flatMap_cons, List.append_assoc, hstep, hread, List.reverse_cons, List.append_assoc]
      rfl

theorem IsEscape.length_pos {cs : List Char} {point : Nat} (h : IsEscape point cs) :
    0 < cs.length := by
  cases h <;> exact Nat.succ_pos _

theorem length_le_length_flatMap_escape {points : List Nat}
    (hrange : ∀ point ∈ points, point < 0x110000) :
    points.length ≤ (points.flatMap escape).length := by
  induction points with
  | nil => exact Nat.le_refl 0
  | cons point points ih =>
      obtain ⟨hpoint, hrest⟩ := List.forall_mem_cons.mp hrange
      have hpos := (isEscape_escape hpoint).length_pos
      have hle := ih hrest
      rw [List.flatMap_cons, List.length_append, List.length_cons]
      omega

theorem length_writeText (s : String) :
    (writeText s).toList.length = ((Text.points s.toList).flatMap escape).length + 2 := by
  rw [writeText, String.toList_ofList, List.length_append, List.length_cons, List.length_singleton]

theorem readText_writeText {s : String} (h : isRestorableText s) (rest : List Char) {fuel : Nat}
    (hfuel : (writeText s).toList.length ≤ fuel) (position : Nat) :
    ∃ after, readText position fuel
      (Cursor.advance ⟨(writeText s).toList ++ rest, position⟩ 1) [] = .ok (s, ⟨rest, after⟩) := by
  have hlength : (Text.points s.toList).length < fuel := by
    have hle := length_le_length_flatMap_escape (Text.forall_mem_points s.toList)
    rw [length_writeText] at hfuel
    omega
  rw [isRestorableText, Bool.and_eq_true, decide_eq_true_eq, Bool.not_eq_true'] at h
  have hheld : Text.ofPoints (Text.points s.toList) = s := by
    rw [Text.ofPoints, h.1, String.ofList_toList]
  obtain ⟨after, hread⟩ := readText_flatMap (Text.forall_mem_points s.toList) h.2 rest position
    hlength (position + 1) []
  have hcursor : Cursor.advance ⟨(writeText s).toList ++ rest, position⟩ 1 =
      ⟨(Text.points s.toList).flatMap escape ++ '"' :: rest, position + 1⟩ := by
    rw [writeText, String.toList_ofList, List.append_assoc]
    rfl
  rw [List.reverse_nil, List.nil_append, hheld] at hread
  rw [hcursor]
  exact ⟨after, hread⟩

theorem exists_writeText (s : String) (rest : List Char) :
    ∃ cs, (writeText s).toList ++ rest = '"' :: cs := by
  rw [writeText, String.toList_ofList]
  exact ⟨_, rfl⟩

/-! ### Line ends -/

/-- What a written text consists of: line ends, and no other control characters. -/
def isWritten (c : Char) : Bool := c = '\n' || 0x20 ≤ c.toNat

theorem IsEscape.isWritten {cs : List Char} {point : Nat} (h : IsEscape point cs) :
    ∀ c ∈ cs, isWritten c := by
  have hunit (n : Nat) : ∀ c ∈ escapeUnit n, Json.isWritten c := by
    refine List.forall_mem_cons.mpr ⟨rfl, List.forall_mem_cons.mpr ⟨rfl, ?_⟩⟩
    rw [Text.hexPadded]
    refine List.forall_mem_append.mpr ⟨fun c hc => ?_, ?_⟩
    · rw [List.eq_of_mem_replicate hc]
      rfl
    · exact Numeral.forall_mem_toDigits (by decide) (by decide) (by decide) n
  cases h with
  | @letter letter c h _ =>
      refine List.forall_mem_cons.mpr ⟨rfl, List.forall_mem_singleton.mpr ?_⟩
      unfold escaped? at h
      split at h
      all_goals first | rfl | cases h
  | plain h _ _ _ =>
      refine List.forall_mem_singleton.mpr ?_
      rw [Json.isWritten, decide_eq_true h, Bool.or_true]
  | unit h => exact hunit _
  | pair _ _ _ => exact List.forall_mem_append.mpr ⟨hunit _, hunit _⟩

theorem isWritten_writeText (s : String) : ∀ c ∈ (writeText s).toList, isWritten c := by
  rw [writeText, String.toList_ofList]
  refine List.forall_mem_append.mpr
    ⟨List.forall_mem_cons.mpr ⟨rfl, ?_⟩, List.forall_mem_singleton.mpr rfl⟩
  intro c hc
  obtain ⟨point, hpoint, hc⟩ := List.mem_flatMap.mp hc
  exact (isEscape_escape (Text.forall_mem_points s.toList point hpoint)).isWritten c hc

end TypeSchema.Json
