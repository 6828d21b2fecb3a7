import TypeSchema.Proofs.Json.Reading

/-!
# What was read is read again

Every value that the reader yields can be restored, so it is read again from the text it is written
as. Its texts are held the way documents hold theirs, and the reader has joined the halves that make
a pair. Its integers have few enough digits to be written. A field takes the place of an earlier one
of its name, so the names of an object stay distinct.
-/

namespace TypeSchema.Json

/-! ### Texts -/

theorem hasPair_append_singleton {points : List Nat} {point : Nat} (h : hasPair points = false)
    (hlast : ∀ high ∈ points.getLast?, Text.isHighHalf high → Text.isLowHalf point = false) :
    hasPair (points ++ [point]) = false := by
  induction points with
  | nil => rfl
  | cons high rest ih =>
      cases rest with
      | nil =>
          have hsingle : hasPair [point] = false := rfl
          rw [List.singleton_append, hasPair, hsingle, Bool.or_false]
          cases hhigh : Text.isHighHalf high with
          | false => rfl
          | true => exact hlast high rfl hhigh
      | cons low rest =>
          have hrest := ih (hasPair_tail h) (by rwa [List.getLast?_cons_cons] at hlast)
          rw [hasPair, Bool.or_eq_false_iff] at h
          rw [List.cons_append, List.cons_append, hasPair, h.1, Bool.false_or]
          exact hrest

/-- No low half is read off from the front. -/
def ReadsNoLowHalf (cs : List Char) : Prop :=
  ∀ low next, cs = '\\' :: 'u' :: low → unit? low = some next → Text.isLowHalf next = false

/-- The code points that were read, the last one first: no half of a pair stands in front of one
that completes it, neither among them nor where the text goes on. -/
structure IsUnpaired (done : List Nat) (rest : List Char) : Prop where
  range : ∀ point ∈ done, point < 0x110000
  unpaired : hasPair done.reverse = false
  last : ∀ high ∈ done.head?, Text.isHighHalf high → ReadsNoLowHalf rest

theorem isUnpaired_nil (rest : List Char) : IsUnpaired [] rest where
  range := List.forall_mem_nil _
  unpaired := rfl
  last := fun _ h => absurd h (Option.not_mem_none _)

section Unpaired

variable {done : List Nat} {rest rest' : List Char} {point : Nat}

theorem IsUnpaired.push (h : IsUnpaired done rest) (hpoint : point < 0x110000)
    (hlow : ∀ high ∈ done.head?, Text.isHighHalf high → Text.isLowHalf point = false)
    (hhigh : Text.isHighHalf point → ReadsNoLowHalf rest') : IsUnpaired (point :: done) rest' where
  range := List.forall_mem_cons.mpr ⟨hpoint, h.range⟩
  unpaired := by
    rw [List.reverse_cons]
    refine hasPair_append_singleton h.unpaired ?_
    rwa [List.getLast?_reverse]
  last := by
    intro high hmem
    obtain rfl := Option.some.inj hmem
    exact hhigh

theorem IsUnpaired.push_whole (h : IsUnpaired done rest) (hpoint : point < 0x110000)
    (hwhole : point < 0xD800 ∨ 0xDFFF < point) (rest' : List Char) :
    IsUnpaired (point :: done) rest' := by
  refine h.push hpoint (fun _ _ _ => ?_) fun hhigh => ?_
  · rw [← Bool.not_eq_true, isLowHalf_iff]
    omega
  · rw [isHighHalf_iff] at hhigh
    omega

theorem IsUnpaired.push_char (h : IsUnpaired done rest) (c : Char) (rest' : List Char) :
    IsUnpaired (c.toNat :: done) rest' := by
  refine h.push_whole (Text.toNat_lt c) ?_ rest'
  obtain hlow | ⟨hhigh, -⟩ := c.valid
  · exact .inl hlow
  · exact .inr hhigh

theorem IsUnpaired.isRestorableText (h : IsUnpaired done rest) :
    isRestorableText (Text.ofPoints done.reverse) := by
  have hrange : ∀ point ∈ done.reverse, point < 0x110000 := fun point hpoint =>
    h.range point (List.mem_reverse.mp hpoint)
  rw [Json.isRestorableText, Text.points_ofPoints hrange, h.unpaired, Text.ofPoints,
    String.toList_ofList]
  simp

end Unpaired

theorem hexDigit?_lt {c : Char} {d : Nat} (h : hexDigit? c = some d) : d < 16 := by
  simp only [hexDigit?, Char.le_def, UInt32.le_iff_toNat_le, Char.reduceVal, UInt32.reduceToNat]
    at h
  split_ifs at h with hdigit hlower hupper
  all_goals
    obtain rfl := Option.some.inj h
    change c.val.toNat - _ < 16
    omega

theorem unit?_lt {cs : List Char} {n : Nat} (h : unit? cs = some n) : n < 0x10000 := by
  have hdigits {cs : List Char} {digits : List Nat} (h : cs.mapM hexDigit? = some digits) :
      digits.length = cs.length ∧ ∀ d ∈ digits, d < 16 := by
    induction cs generalizing digits with
    | nil =>
        cases h
        simp
    | cons c rest ih =>
        rw [List.mapM_cons] at h
        obtain ⟨d, hd, h⟩ := Option.bind_eq_some_iff.mp h
        obtain ⟨others, hothers, h⟩ := Option.bind_eq_some_iff.mp h
        cases h
        obtain ⟨hlength, hlt⟩ := ih hothers
        exact ⟨congrArg (· + 1) hlength, List.forall_mem_cons.mpr ⟨hexDigit?_lt hd, hlt⟩⟩
  rw [unit?] at h
  split_ifs at h
  obtain ⟨digits, hread, rfl⟩ := Option.map_eq_some_iff.mp h
  obtain ⟨hlength, hlt⟩ := hdigits hread
  calc Numeral.value 16 digits < 16 ^ digits.length := Numeral.value_lt hlt
    _ ≤ 16 ^ 4 := Nat.pow_le_pow_right (by decide) (by rw [hlength]; exact List.length_take_le 4 cs)

/-- The escapes of a pair are joined. A single half is not followed by one that completes it. -/
theorem readUnits_eq_ok {digits : List Char} {position point length : Nat}
    (h : readUnits ⟨'u' :: digits, position⟩ = .ok (point, length)) :
    (length = 11 ∧ 0xDFFF < point ∧ point < 0x110000) ∨
      (length = 5 ∧ unit? digits = some point ∧
        (Text.isHighHalf point → ReadsNoLowHalf (digits.drop 4))) := by
  unfold readUnits at h
  simp only [List.drop_succ_cons, List.drop_zero] at h
  cases hunit : unit? digits with
  | none =>
      rw [hunit] at h
      cases h
  | some unit =>
      rw [hunit] at h
      dsimp only at h
      split at h
      · next low hlow =>
          split_ifs at h with hhigh
          · cases hnext : unit? low with
            | none =>
                rw [hnext] at h
                cases h
            | some next =>
                rw [hnext] at h
                dsimp only at h
                split_ifs at h with hpair
                · obtain ⟨rfl, rfl⟩ := Prod.mk.inj (Except.ok.inj h)
                  rw [Bool.and_eq_true, isHighHalf_iff] at hhigh
                  rw [isLowHalf_iff] at hpair
                  exact .inl ⟨rfl, by omega, by omega⟩
                · obtain ⟨rfl, rfl⟩ := Prod.mk.inj (Except.ok.inj h)
                  refine .inr ⟨rfl, rfl, fun _ low' next' heq hnext' => ?_⟩
                  obtain rfl := (List.cons.inj (List.cons.inj (hlow.symm.trans heq)).2).2
                  obtain rfl := Option.some.inj (hnext.symm.trans hnext')
                  exact Bool.not_eq_true _ ▸ hpair
          · obtain ⟨rfl, rfl⟩ := Prod.mk.inj (Except.ok.inj h)
            refine .inr ⟨rfl, rfl, fun hhalf low' next' heq hnext' => ?_⟩
            obtain rfl := (List.cons.inj (List.cons.inj (hlow.symm.trans heq)).2).2
            have hshort : low.length ≤ 4 := by
              rw [hhalf, Bool.true_and, decide_eq_true_eq] at hhigh
              omega
            rw [unit?, if_pos hshort] at hnext'
            cases hnext'
      · next hother =>
          obtain ⟨rfl, rfl⟩ := Prod.mk.inj (Except.ok.inj h)
          exact .inr ⟨rfl, rfl, fun _ low' _ heq => absurd heq (hother low')⟩

theorem isRestorableText_of_readText {start fuel : Nat} {cursor next : Cursor} {done : List Nat}
    {s : String} (hdone : IsUnpaired done cursor.rest)
    (h : readText start fuel cursor done = .ok (s, next)) : isRestorableText s := by
  induction fuel generalizing cursor done with
  | zero => cases h
  | succ fuel ih =>
      obtain ⟨rest, position⟩ := cursor
      rw [readText] at h
      split at h
      · cases h
      · obtain ⟨rfl, -⟩ := Prod.mk.inj (Except.ok.inj h)
        exact hdone.isRestorableText
      · cases h
      · next digits heq =>
          obtain rfl : rest = '\\' :: 'u' :: digits := heq
          obtain ⟨⟨point, length⟩, hunits, hread⟩ := except_bind_eq_ok_iff.mp h
          obtain ⟨rfl, hleast, hmost⟩ | ⟨rfl, hunit, hhigh⟩ := readUnits_eq_ok hunits
          · exact ih (hdone.push_whole hmost (.inr hleast) _) hread
          · refine ih (hdone.push ((unit?_lt hunit).trans (by decide)) ?_ hhigh) hread
            exact fun high hmem hhalf => hdone.last high hmem hhalf digits point rfl hunit
      · split at h
        · exact ih (hdone.push_char _ _) h
        · cases h
      · split_ifs at h
        · cases h
        · exact ih (hdone.push_char _ _) h

/-! ### Numbers -/

theorem isNaN_of_decimal? {cs : List Char} {x : Binary64} (h : Numeral.decimal? cs = some x) :
    x.isNaN = false := by
  unfold Numeral.decimal? at h
  dsimp only at h
  split_ifs at h
  · cases h
  · obtain ⟨places, -, h⟩ := Option.bind_eq_some_iff.mp h
    obtain ⟨e, -, h⟩ := Option.bind_eq_some_iff.mp h
    obtain rfl := Option.some.inj h
    exact Binary64.isNaN_ofDecimal _ _ _ _

theorem isRestorable_of_readNumber {cursor next : Cursor} {json : Json}
    (h : readNumber cursor = .ok (json, next)) : json.isRestorable ∧ json.depth = 0 := by
  unfold readNumber at h
  extract_lets sign whole afterWhole fraction fractionPart exponentPart chars at h
  split_ifs at h
  · cases h
  · split at h
    · next n hread =>
        obtain ⟨rfl, -⟩ := Prod.mk.inj (Except.ok.inj h)
        have hshort := Numeral.not_isTooLong_of_decimalInteger? hread
        exact ⟨by simpa [ofInt, isRestorable, isRestorableNumber] using hshort, rfl⟩
    · cases h
  · obtain ⟨rfl, -⟩ := Prod.mk.inj (Except.ok.inj h)
    refine ⟨?_, rfl⟩
    cases hread : Numeral.decimal? chars with
    | none => rfl
    | some x => simp [isRestorable, isRestorableNumber, isNaN_of_decimal? hread]

theorem isRestorable_of_readWord? {cursor next : Cursor} {json : Json}
    (h : readWord? cursor = some (json, next)) : json.isRestorable ∧ json.depth = 0 := by
  have hwords : words.all fun word => word.2.isRestorable && word.2.depth = 0 := rfl
  obtain ⟨word, hword, heq⟩ := Option.map_eq_some_iff.mp h
  obtain ⟨rfl, -⟩ := Prod.mk.inj heq
  have hall := List.all_eq_true.mp hwords word (List.mem_of_find?_eq_some hword)
  rwa [Bool.and_eq_true, decide_eq_true_eq] at hall

/-! ### Arrays and objects -/

theorem depthOfFields_le_iff {fields : List (String × Json)} {depth : Nat} :
    depthOfFields fields ≤ depth ↔ ∀ field ∈ fields, field.2.depth ≤ depth := by
  induction fields with
  | nil => simp [depthOfFields]
  | cons field rest ih => rw [depthOfFields, Nat.max_le, ih, List.forall_mem_cons]

/-- A field takes the place of an earlier one of its name. -/
theorem areRestorableFields_insertField {fields : List (String × Json)} {key : String}
    {json : Json} (h : areRestorableFields fields) (hkey : isRestorableText key)
    (hjson : json.isRestorable) : areRestorableFields (insertField fields key json) := by
  obtain ⟨hfields, hnames⟩ := areRestorableFields_iff.mp h
  by_cases hmem : key ∈ fields.map Prod.fst
  · rw [insertField_of_mem hmem]
    have hkeys : (fields.map fun field => if field.1 = key then (key, json) else field).map
        Prod.fst = fields.map Prod.fst := by
      rw [List.map_map]
      refine List.map_congr_left fun field _ => ?_
      rw [Function.comp_apply]
      split_ifs with hname
      · exact hname.symm
      · rfl
    refine areRestorableFields_iff.mpr ⟨List.forall_mem_map.mpr fun field hfield => ?_, ?_⟩
    case refine_2 => rwa [hkeys]
    split_ifs
    · exact ⟨hkey, hjson⟩
    · exact hfields field hfield
  · rw [insertField_of_not_mem hmem]
    refine areRestorableFields_iff.mpr ⟨List.forall_mem_append.mpr
      ⟨hfields, List.forall_mem_singleton.mpr ⟨hkey, hjson⟩⟩, ?_⟩
    rw [List.map_append, List.map_singleton, List.nodup_append_comm]
    exact List.nodup_cons.mpr ⟨hmem, hnames⟩

theorem depthOfFields_insertField_le {fields : List (String × Json)} {key : String} {json : Json}
    {depth : Nat} (h : depthOfFields fields ≤ depth) (hjson : json.depth ≤ depth) :
    depthOfFields (insertField fields key json) ≤ depth := by
  rw [depthOfFields_le_iff] at h ⊢
  by_cases hmem : key ∈ fields.map Prod.fst
  · rw [insertField_of_mem hmem]
    refine List.forall_mem_map.mpr fun field hfield => ?_
    split_ifs
    · exact hjson
    · exact h field hfield
  · rw [insertField_of_not_mem hmem]
    exact List.forall_mem_append.mpr ⟨h, List.forall_mem_singleton.mpr hjson⟩

/-! ### The whole value -/

mutual

theorem isRestorable_of_readValue {fuel depth : Nat} {cursor next : Cursor} {json : Json}
    (h : readValue fuel depth cursor = .ok (json, next)) :
    json.isRestorable ∧ json.depth ≤ depth := by
  cases fuel with
  | zero => cases h
  | succ fuel =>
      unfold readValue at h
      split at h
      · obtain ⟨⟨s, last⟩, htext, h⟩ := except_bind_eq_ok_iff.mp h
        obtain ⟨rfl, -⟩ := Prod.mk.inj (Except.ok.inj h)
        exact ⟨isRestorableText_of_readText (isUnpaired_nil _) htext, Nat.zero_le _⟩
      · cases depth with
        | zero => cases h
        | succ depth =>
            dsimp only at h
            split at h
            · obtain ⟨rfl, -⟩ := Prod.mk.inj (Except.ok.inj h)
              exact ⟨rfl, Nat.succ_le_succ (Nat.zero_le _)⟩
            · obtain ⟨⟨items, last⟩, hitems, h⟩ := except_bind_eq_ok_iff.mp h
              obtain ⟨rfl, -⟩ := Prod.mk.inj (Except.ok.inj h)
              obtain ⟨hrestorable, hdepth⟩ := areRestorable_of_readItems hitems
              exact ⟨hrestorable, Nat.succ_le_succ hdepth⟩
      · cases depth with
        | zero => cases h
        | succ depth =>
            dsimp only at h
            split at h
            · obtain ⟨rfl, -⟩ := Prod.mk.inj (Except.ok.inj h)
              exact ⟨rfl, Nat.succ_le_succ (Nat.zero_le _)⟩
            · obtain ⟨⟨fields, last⟩, hfields, h⟩ := except_bind_eq_ok_iff.mp h
              obtain ⟨rfl, -⟩ := Prod.mk.inj (Except.ok.inj h)
              obtain ⟨hrestorable, hdepth⟩ :=
                areRestorableFields_of_readFields hfields rfl (Nat.zero_le _)
              exact ⟨hrestorable, Nat.succ_le_succ hdepth⟩
      · split at h
        · next hword =>
            obtain rfl := Except.ok.inj h
            obtain ⟨hrestorable, hdepth⟩ := isRestorable_of_readWord? hword
            exact ⟨hrestorable, hdepth ▸ Nat.zero_le _⟩
        · obtain ⟨hrestorable, hdepth⟩ := isRestorable_of_readNumber h
          exact ⟨hrestorable, hdepth ▸ Nat.zero_le _⟩

theorem areRestorable_of_readItems {fuel depth : Nat} {cursor next : Cursor} {items : List Json}
    (h : readItems fuel depth cursor = .ok (items, next)) :
    areRestorable items ∧ depthOfItems items ≤ depth := by
  cases fuel with
  | zero => cases h
  | succ fuel =>
      rw [readItems] at h
      obtain ⟨⟨item, middle⟩, hitem, h⟩ := except_bind_eq_ok_iff.mp h
      obtain ⟨hrestorable, hdepth⟩ := isRestorable_of_readValue hitem
      dsimp only at h
      split at h
      · obtain ⟨rfl, -⟩ := Prod.mk.inj (Except.ok.inj h)
        rw [areRestorable, areRestorable, Bool.and_true, depthOfItems, depthOfItems, Nat.max_zero]
        exact ⟨hrestorable, hdepth⟩
      · obtain ⟨⟨rest, last⟩, hrest, h⟩ := except_bind_eq_ok_iff.mp h
        obtain ⟨rfl, -⟩ := Prod.mk.inj (Except.ok.inj h)
        obtain ⟨hrestorable', hdepth'⟩ := areRestorable_of_readItems hrest
        rw [areRestorable, Bool.and_eq_true, depthOfItems, Nat.max_le]
        exact ⟨⟨hrestorable, hrestorable'⟩, hdepth, hdepth'⟩
      · cases h

theorem areRestorableFields_of_readFields {fuel depth : Nat} {cursor next : Cursor}
    {done fields : List (String × Json)}
    (h : readFields fuel depth done cursor = .ok (fields, next))
    (hdone : areRestorableFields done) (hdepth : depthOfFields done ≤ depth) :
    areRestorableFields fields ∧ depthOfFields fields ≤ depth := by
  cases fuel with
  | zero => cases h
  | succ fuel =>
      rw [readFields] at h
      split at h
      · obtain ⟨⟨key, middle⟩, hkey, h⟩ := except_bind_eq_ok_iff.mp h
        dsimp only at h
        split at h
        · obtain ⟨⟨value, last⟩, hvalue, h⟩ := except_bind_eq_ok_iff.mp h
          dsimp only at h
          have hrestorable := isRestorableText_of_readText (isUnpaired_nil _) hkey
          obtain ⟨hvalue, hless⟩ := isRestorable_of_readValue hvalue
          have hmore := areRestorableFields_insertField hdone hrestorable hvalue
          have hmoreDepth : depthOfFields (insertField done key value) ≤ depth :=
            depthOfFields_insertField_le hdepth hless
          split at h
          · obtain ⟨rfl, -⟩ := Prod.mk.inj (Except.ok.inj h)
            exact ⟨hmore, hmoreDepth⟩
          · exact areRestorableFields_of_readFields h hmore hmoreDepth
          · cases h
        · cases h
      · cases h

end

section Read

variable {depth : Nat} {s : String} {json : Json}

/-- Whatever the reader yields can be restored, and is no deeper than the reader goes. -/
theorem isRestorable_of_read (h : read depth s = .ok json) :
    json.isRestorable ∧ json.depth ≤ depth := by
  have hwhole : readWhole depth s.toList = .ok json := by
    rw [read] at h
    cases hread : readWhole depth s.toList with
    | error stop =>
        rw [hread] at h
        cases h
    | ok value =>
        rw [hread] at h
        exact congrArg Except.ok (Except.ok.inj h)
  unfold readWhole at hwhole
  dsimp only at hwhole
  split at hwhole
  · cases hwhole
  · obtain ⟨⟨value, next⟩, hvalue, hwhole⟩ := except_bind_eq_ok_iff.mp hwhole
    dsimp only at hwhole
    split_ifs at hwhole
    · obtain rfl := Except.ok.inj hwhole
      exact isRestorable_of_readValue hvalue
    · cases hwhole

/-- **Writing what was read loses nothing.** The value of a text is the value of the text that it is
written as. -/
theorem read_write_of_read (h : read depth s = .ok json) (indent : Option Nat) {blanks : String}
    (hblanks : AreBlanks blanks.toList) : read depth (json.write indent ++ blanks) = .ok json := by
  obtain ⟨hrestorable, hdepth⟩ := isRestorable_of_read h
  exact read_write hrestorable hdepth indent hblanks

theorem readFile_write_of_readFile (h : readFile depth s = .ok json) (indent : Option Nat)
    {blanks : String} (hblanks : AreBlanks blanks.toList) :
    readFile depth (json.write indent ++ blanks) = .ok json := by
  obtain ⟨hrestorable, hdepth⟩ := isRestorable_of_read h
  exact readFile_write hrestorable hdepth indent hblanks

end Read

end TypeSchema.Json
