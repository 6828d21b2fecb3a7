import TypeSchema.Proofs.Json.Numbers
import TypeSchema.Proofs.Json.Parts

/-!
# What is written reads back

A reader takes the text of a value from the front of any text in which the value is ended by a
comma, a bracket, a brace or a blank, and yields the value. For numbers and texts this is a matter
of their characters. An array is taken item by item and an object field by field, where the blanks
between them do not matter; distinct names keep the fields in their order. The reader makes at most
two steps for a character, so it never runs out of them.

Few values are lost: integers that are too long to be written, any NaN but the one that is read,
texts that are not held as texts of documents are, and objects with two fields of one name.
-/

namespace TypeSchema.Json

/-! ### Values that are read as they were written -/

mutual

/-- Whether all texts and numbers anywhere in a value can be restored, and no object has two fields
of one name. -/
def isRestorable : Json → Bool
  | number n => isRestorableNumber n
  | text s => isRestorableText s
  | array items => areRestorable items
  | object fields => areRestorableFields fields
  | _ => true

def areRestorable : List Json → Bool
  | [] => true
  | json :: rest => json.isRestorable && areRestorable rest

def areRestorableFields : List (String × Json) → Bool
  | [] => true
  | (key, json) :: rest =>
    isRestorableText key && json.isRestorable && !rest.any (·.1 = key) && areRestorableFields rest

end

theorem areRestorableFields_iff {fields : List (String × Json)} :
    areRestorableFields fields ↔
      (∀ field ∈ fields, isRestorableText field.1 ∧ field.2.isRestorable) ∧
        (fields.map Prod.fst).Nodup := by
  induction fields with
  | nil => simp [areRestorableFields]
  | cons field rest ih =>
      have hname : (!rest.any (·.1 = field.1)) ↔ field.1 ∉ rest.map Prod.fst := by
        simp only [Bool.not_eq_true', List.any_eq_false, decide_eq_true_eq, List.mem_map,
          not_exists, not_and]
      rw [areRestorableFields, Bool.and_eq_true, Bool.and_eq_true, Bool.and_eq_true, hname, ih,
        List.forall_mem_cons, List.map_cons, List.nodup_cons]
      constructor
      · rintro ⟨⟨hfield, hnew⟩, hrest, hnames⟩
        exact ⟨⟨hfield, hrest⟩, hnew, hnames⟩
      · rintro ⟨⟨hfield, hrest⟩, hnew, hnames⟩
        exact ⟨⟨hfield, hnew⟩, hrest, hnames⟩

/-! ### The cursor -/

/-- Wherever a text stands, a reader takes its front, up to the characters that are left, and yields
what the front stands for. -/
def Takes {α : Type} (reader : Cursor → Except Stop (α × Cursor)) (cs left : List Char) (a : α) :
    Prop :=
  ∀ position, ∃ after, reader ⟨cs, position⟩ = .ok (a, ⟨left, after⟩)

/-- No blank stands at the start. -/
def IsTrimmed (cs : List Char) : Prop := ∀ c ∈ cs.head?, isBlank c = false

theorem isTrimmed_cons {c : Char} (h : isBlank c = false) (cs : List Char) :
    IsTrimmed (c :: cs) := by
  intro c' hc'
  obtain rfl := Option.some.inj hc'
  exact h

theorem isTrimmed_nil : IsTrimmed [] := fun _ h => absurd h (Option.not_mem_none _)

theorem skipBlanks_append {blanks rest : List Char} (hblanks : AreBlanks blanks)
    (hrest : IsTrimmed rest) (position : Nat) :
    Cursor.skipBlanks ⟨blanks ++ rest, position⟩ = ⟨rest, position + blanks.length⟩ := by
  have htake : (blanks ++ rest).takeWhile isBlank = blanks := by
    rw [List.takeWhile_append_of_pos hblanks]
    cases rest with
    | nil => exact List.append_nil _
    | cons c rest =>
        rw [List.takeWhile_cons_of_neg (by simp [hrest c rfl]), List.append_nil]
  change Cursor.advance _ ((blanks ++ rest).takeWhile isBlank).length = _
  rw [htake, advance_append]

theorem skipBlanks_eq {rest : List Char} (hrest : IsTrimmed rest) (position : Nat) :
    Cursor.skipBlanks ⟨rest, position⟩ = ⟨rest, position⟩ :=
  skipBlanks_append areBlanks_nil hrest position

/-! ### Values -/

/-- How the text of a value starts: with nothing that stands between values or marks the order of
bytes. -/
def Opens (cs : List Char) : Prop :=
  ∃ c tail, cs = c :: tail ∧ isDelimiter c = false ∧ c ≠ '\uFEFF'

theorem Opens.append {cs : List Char} (h : Opens cs) (rest : List Char) : Opens (cs ++ rest) := by
  obtain ⟨c, tail, rfl, hc⟩ := h
  exact ⟨c, tail ++ rest, rfl, hc⟩

theorem Opens.isTrimmed {cs : List Char} (h : Opens cs) : IsTrimmed cs := by
  obtain ⟨c, tail, rfl, hc, -⟩ := h
  refine isTrimmed_cons ?_ tail
  simp only [isDelimiter, Bool.or_eq_false_iff] at hc
  exact hc.1.1.1

theorem Opens.intercalate {cs : List Char} (h : Opens cs) (separator : List Char)
    (parts : List (List Char)) : Opens (separator.intercalate (cs :: parts)) := by
  cases parts with
  | nil => rwa [List.intercalate_singleton]
  | cons part parts =>
      rw [List.intercalate_cons_cons, List.append_assoc]
      exact h.append _

/-- The text of a value is taken from the front of any text, whatever ends the value in it. -/
structure IsTaken (depth : Nat) (cs : List Char) (json : Json) : Prop where
  opens : Opens cs
  written : ∀ c ∈ cs, isWritten c
  takes : ∀ {fuel rest}, 2 * cs.length ≤ fuel → EndValue rest →
    Takes (readValue fuel depth) (cs ++ rest) rest json

theorem Opens.length_pos {cs : List Char} (h : Opens cs) : 0 < cs.length := by
  obtain ⟨c, tail, rfl, -⟩ := h
  exact Nat.succ_pos _

theorem isTaken_of_succ {depth : Nat} {cs : List Char} {json : Json} (hopens : Opens cs)
    (hwritten : ∀ c ∈ cs, isWritten c) (h : ∀ {fuel rest}, 2 * cs.length ≤ fuel + 1 →
      EndValue rest → Takes (readValue (fuel + 1) depth) (cs ++ rest) rest json) :
    IsTaken depth cs json where
  opens := hopens
  written := hwritten
  takes := by
    intro fuel rest hfuel hrest
    have hpos := hopens.length_pos
    obtain ⟨fuel, rfl⟩ := Nat.exists_eq_succ_of_ne_zero (by omega : fuel ≠ 0)
    exact h hfuel hrest

theorem isTaken_word (depth : Nat) {word : String} {json : Json} (h : (word, json) ∈ words) :
    IsTaken depth word.toList json := by
  have hwritten : words.all fun entry => entry.1.toList.all isWritten := rfl
  refine isTaken_of_succ ?_ (List.all_eq_true.mp (List.all_eq_true.mp hwritten _ h))
    fun _ _ position => ⟨_, readValue_word h _ _ depth position⟩
  simp only [words, List.mem_cons, Prod.mk.injEq, List.not_mem_nil, or_false] at h
  rcases h with ⟨rfl, rfl⟩ | ⟨rfl, rfl⟩ | ⟨rfl, rfl⟩ | ⟨rfl, rfl⟩ | ⟨rfl, rfl⟩ | ⟨rfl, rfl⟩ <;>
    exact ⟨_, _, rfl, by decide⟩

theorem isTaken_number (depth : Nat) {n : Number} (h : isRestorableNumber n) :
    IsTaken depth (n.render numberLayout).toList (number n) := by
  have hopens {f : Numeral.Figures} (hf : f.IsValid) (negative : Bool) :
      Opens (Numeral.signChars negative ++ f.chars) := by
    obtain ⟨c, tail, heq, hc⟩ := exists_chars hf negative
    refine ⟨c, tail, heq, ?_⟩
    obtain rfl | ⟨d, hd, rfl⟩ := hc
    · decide
    · exact (by decide : ∀ d < 10, isDelimiter (Nat.digitChar d) = false ∧
        Nat.digitChar d ≠ '\uFEFF') d hd
  have hwritten {f : Numeral.Figures} (hf : f.IsValid) (negative : Bool) :
      ∀ c ∈ Numeral.signChars negative ++ f.chars, isWritten c := by
    refine List.forall_mem_append.mpr ⟨?_, hf.forall_mem_chars (by decide) rfl (by decide)⟩
    cases negative
    · exact List.forall_mem_nil _
    · exact List.forall_mem_singleton.mpr rfl
  cases n with
  | integer n =>
      have hshort : ¬ (Number.integer n).isTooLong := by simpa [isRestorableNumber] using h
      have hread := Numeral.decimalInteger?_toString hshort
      obtain ⟨f, hf, hfraction, hexponent, hchars⟩ := Numeral.exists_figures_toString n
      rw [hchars] at hread
      change IsTaken depth (toString n).toList _
      rw [hchars]
      refine isTaken_of_succ (hopens hf _) (hwritten hf _) fun {fuel rest} _ hrest position => ?_
      obtain ⟨after, hinteger, -⟩ := readNumber_chars hf hrest (decide (n < 0)) position
      exact ⟨after, (readValue_chars hf _ fuel depth position).trans
        (hinteger ⟨hfraction, hexponent⟩ n hread)⟩
  | real x =>
      by_cases hfinite : x.isFinite
      · obtain ⟨f, hf, hreal, hchars, -⟩ := Binary64.exists_figures_render numberLayout hfinite
        have hread := Binary64.decimal?_render numberLayout hfinite
        rw [hchars] at hread
        change IsTaken depth (x.render numberLayout).toList _
        rw [hchars]
        refine isTaken_of_succ (hopens hf _) (hwritten hf _) fun {fuel rest} _ hrest position => ?_
        obtain ⟨after, -, hnumber⟩ := readNumber_chars hf hrest x.isNegative position
        have hpart : ¬ (f.fraction = [] ∧ f.exponent = none) := fun h =>
          hreal.elim (fun hne => hne h.1) fun hne => hne h.2
        exact ⟨after, (readValue_chars hf _ fuel depth position).trans (hnumber hpart x hread)⟩
      · obtain ⟨word, hword, hrender⟩ := exists_word_render h (Bool.not_eq_true _ ▸ hfinite)
        change IsTaken depth (x.render numberLayout).toList _
        rw [hrender]
        exact isTaken_word depth hword

theorem isTaken_text (depth : Nat) {s : String} (h : isRestorableText s) :
    IsTaken depth (writeText s).toList (text s) := by
  refine isTaken_of_succ ?_ (isWritten_writeText s) fun {fuel rest} hfuel _ position => ?_
  · rw [writeText, String.toList_ofList]
    exact ⟨_, _, rfl, by decide⟩
  · have hlength := length_writeText s
    obtain ⟨after, hread⟩ := readText_writeText h rest
      (by omega : (writeText s).toList.length ≤ fuel) position
    refine ⟨after, ?_⟩
    obtain ⟨cs, hcs⟩ := exists_writeText s rest
    rw [hcs] at hread ⊢
    exact congrArg (· >>= fun read => pure (text read.1, read.2)) hread

/-! ### Arrays and objects -/

theorem endValue_cons {c : Char} (hc : isDelimiter c) (rest : List Char) :
    EndValue (c :: rest) := by
  intro c' hc'
  obtain rfl := Option.some.inj hc'
  exact hc

theorem endValue_closing {closing : List Char} (hclosing : AreBlanks closing) {c : Char}
    (hc : isDelimiter c) (rest : List Char) : EndValue (closing ++ c :: rest) := by
  cases closing with
  | nil => exact endValue_cons hc rest
  | cons blank closing =>
      have hblank : isBlank blank := (List.forall_mem_cons.mp hclosing).1
      exact endValue_cons (by simp [isDelimiter, hblank]) _

section Items

variable {depth : Nat} {blanks closing : List Char}

theorem readItems_last (hclosing : AreBlanks closing) {fuel : Nat} {cs rest : List Char}
    {item : Json} (h : Takes (readValue fuel depth) cs (closing ++ ']' :: rest) item) :
    Takes (readItems (fuel + 1) depth) cs rest [item] := by
  intro position
  obtain ⟨middle, hread⟩ := h position
  have hskip := skipBlanks_append hclosing (isTrimmed_cons (c := ']') rfl rest) middle
  refine ⟨middle + closing.length + 1, ?_⟩
  rw [readItems, hread]
  simp only [bind, Except.bind, hskip]
  rfl

theorem readItems_more (hblanks : AreBlanks blanks) {fuel : Nat} {cs tail rest : List Char}
    {item : Json} {items : List Json}
    (h : Takes (readValue fuel depth) cs (',' :: (blanks ++ tail)) item)
    (htail : IsTrimmed tail)
    (hitems : Takes (readItems fuel depth) tail rest items) :
    Takes (readItems (fuel + 1) depth) cs rest (item :: items) := by
  intro position
  obtain ⟨middle, hread⟩ := h position
  have hcomma := skipBlanks_eq (isTrimmed_cons (c := ',') rfl (blanks ++ tail)) middle
  have hskip := skipBlanks_append hblanks htail (middle + 1)
  obtain ⟨after, hrest⟩ := hitems (middle + 1 + blanks.length)
  refine ⟨after, ?_⟩
  rw [readItems, hread]
  simp only [bind, Except.bind, hcomma, Cursor.advance, List.drop_one, List.tail_cons, hskip, hrest]
  rfl

/-- The items of an array are taken one by one, up to the closing bracket. -/
theorem takes_items (hblanks : AreBlanks blanks) (hclosing : AreBlanks closing)
    {parts : List (List Char)} {items : List Json} (h : List.Forall₂ (IsTaken depth) parts items)
    (hne : parts ≠ []) {fuel : Nat}
    (hfuel : 2 * ((',' :: blanks).intercalate parts).length < fuel) (rest : List Char) :
    Takes (readItems fuel depth)
      ((',' :: blanks).intercalate parts ++ (closing ++ ']' :: rest)) rest items := by
  have hend : EndValue (closing ++ ']' :: rest) := endValue_closing hclosing rfl rest
  induction h generalizing fuel with
  | nil => exact absurd rfl hne
  | @cons cs item parts items hfirst hrest ih =>
      obtain ⟨fuel, rfl⟩ := Nat.exists_eq_succ_of_ne_zero (Nat.ne_zero_of_lt hfuel)
      cases hrest with
      | nil =>
          rw [List.intercalate_singleton] at hfuel ⊢
          exact readItems_last hclosing (hfirst.takes (by omega) hend)
      | @cons cs' item' parts items hnext hrest =>
          rw [List.intercalate_cons_cons] at hfuel ⊢
          simp only [List.length_append, List.length_cons] at hfuel
          have hlength : 2 * ((',' :: blanks).intercalate (cs' :: parts)).length < fuel := by omega
          have htail := ih (List.cons_ne_nil _ _) hlength
          have hcomma : EndValue (',' :: (blanks ++ ((',' :: blanks).intercalate (cs' :: parts) ++
              (closing ++ ']' :: rest)))) := endValue_cons rfl _
          have hvalue := hfirst.takes (by omega : 2 * cs.length ≤ fuel) hcomma
          have hmore := readItems_more hblanks hvalue
            ((hnext.opens.intercalate _ parts).append _).isTrimmed htail
          simpa only [List.append_assoc, List.cons_append] using hmore

end Items

section Fields

variable {depth : Nat} {blanks closing : List Char}

/-- A field as it is written is taken from the front of any text. -/
def IsTakenField (depth : Nat) (cs : List Char) (field : String × Json) : Prop :=
  isRestorableText field.1 ∧ ∃ value, IsTaken depth value field.2 ∧
    cs = (writeText field.1).toList ++ ':' :: ' ' :: value

/-- The name of a field and its value are taken one after the other. -/
theorem IsTakenField.takes {fuel : Nat} {cs left : List Char} {field : String × Json}
    (h : IsTakenField depth cs field) (hfuel : 2 * cs.length ≤ fuel) (hleft : EndValue left)
    (position : Nat) : ∃ name value middle after, cs ++ left = '"' :: name ∧
      readText position fuel (Cursor.advance ⟨'"' :: name, position⟩ 1) [] =
        .ok (field.1, ⟨':' :: ' ' :: value, middle⟩) ∧
      readValue fuel depth (Cursor.skipBlanks ⟨' ' :: value, middle + 1⟩) =
        .ok (field.2, ⟨left, after⟩) := by
  obtain ⟨htext, value, hvalue, hfield⟩ := h
  rw [hfield] at hfuel ⊢
  simp only [List.length_append, List.length_cons] at hfuel
  obtain ⟨middle, hname⟩ := readText_writeText htext (':' :: ' ' :: (value ++ left))
    (by omega : (writeText field.1).toList.length ≤ fuel) position
  obtain ⟨after, hread⟩ := hvalue.takes (by omega : 2 * value.length ≤ fuel) hleft (middle + 1 + 1)
  obtain ⟨name, hcs⟩ := exists_writeText field.1 (':' :: ' ' :: (value ++ left))
  have hskip := skipBlanks_append areBlanks_space (hvalue.opens.append left).isTrimmed (middle + 1)
  refine ⟨name, value ++ left, middle, after, ?_, ?_, ?_⟩
  · rw [List.append_assoc]
    exact hcs
  · rw [hcs] at hname
    exact hname
  · exact (congrArg (readValue fuel depth) hskip).trans hread

theorem readFields_last (hclosing : AreBlanks closing) {fuel : Nat} {cs rest : List Char}
    {field : String × Json} {done : List (String × Json)} (h : IsTakenField depth cs field)
    (hfuel : 2 * cs.length ≤ fuel) (hdone : field.1 ∉ done.map Prod.fst) :
    Takes (readFields (fuel + 1) depth done) (cs ++ (closing ++ '\x7d' :: rest)) rest
      (done ++ [field]) := by
  intro position
  obtain ⟨name, value, middle, after, hcs, hname, hvalue⟩ :=
    h.takes hfuel (endValue_closing (c := '\x7d') hclosing rfl rest) position
  have hcolon := skipBlanks_eq (isTrimmed_cons (c := ':') rfl (' ' :: value)) middle
  have hskip := skipBlanks_append hclosing (isTrimmed_cons (c := '\x7d') rfl rest) after
  refine ⟨after + closing.length + 1, ?_⟩
  rw [hcs, readFields]
  simp only [bind, Except.bind, hname, hcolon]
  simp only [Cursor.advance, List.drop_one, List.tail_cons, hvalue, hskip]
  rw [insertField_of_not_mem hdone]
  rfl

theorem readFields_more (hblanks : AreBlanks blanks) {fuel : Nat} {cs tail rest : List Char}
    {field : String × Json} {done fields : List (String × Json)} (h : IsTakenField depth cs field)
    (hfuel : 2 * cs.length ≤ fuel) (hdone : field.1 ∉ done.map Prod.fst)
    (htail : IsTrimmed tail)
    (hfields : Takes (readFields fuel depth (done ++ [field])) tail rest fields) :
    Takes (readFields (fuel + 1) depth done) (cs ++ ',' :: (blanks ++ tail)) rest fields := by
  intro position
  obtain ⟨name, value, middle, after, hcs, hname, hvalue⟩ :=
    h.takes hfuel (endValue_cons (c := ',') rfl (blanks ++ tail)) position
  have hcolon := skipBlanks_eq (isTrimmed_cons (c := ':') rfl (' ' :: value)) middle
  have hcomma := skipBlanks_eq (isTrimmed_cons (c := ',') rfl (blanks ++ tail)) after
  have hskip := skipBlanks_append hblanks htail (after + 1)
  obtain ⟨last, hrest⟩ := hfields (after + 1 + blanks.length)
  refine ⟨last, ?_⟩
  rw [hcs, readFields]
  simp only [bind, Except.bind, hname, hcolon]
  simp only [Cursor.advance, List.drop_one, List.tail_cons, hvalue, hcomma, hskip]
  rw [insertField_of_not_mem hdone]
  exact hrest

theorem IsTakenField.written {cs : List Char} {field : String × Json}
    (h : IsTakenField depth cs field) : ∀ c ∈ cs, isWritten c := by
  obtain ⟨-, value, hvalue, hfield⟩ := h
  rw [hfield]
  exact List.forall_mem_append.mpr ⟨isWritten_writeText field.1,
    List.forall_mem_cons.mpr ⟨rfl, List.forall_mem_cons.mpr ⟨rfl, hvalue.written⟩⟩⟩

theorem IsTakenField.opens {cs : List Char} {field : String × Json}
    (h : IsTakenField depth cs field) : Opens cs := by
  obtain ⟨-, value, -, hfield⟩ := h
  rw [hfield, writeText, String.toList_ofList]
  exact ⟨_, _, rfl, by decide⟩

/-- The fields of an object are taken one by one, up to the closing brace. -/
theorem takes_fields (hblanks : AreBlanks blanks) (hclosing : AreBlanks closing)
    {parts : List (List Char)} {fields : List (String × Json)}
    (h : List.Forall₂ (IsTakenField depth) parts fields) (hne : parts ≠ [])
    {done : List (String × Json)} (hnames : ((done ++ fields).map Prod.fst).Nodup) {fuel : Nat}
    (hfuel : 2 * ((',' :: blanks).intercalate parts).length < fuel) (rest : List Char) :
    Takes (readFields fuel depth done)
      ((',' :: blanks).intercalate parts ++ (closing ++ '\x7d' :: rest)) rest
      (done ++ fields) := by
  induction h generalizing fuel done with
  | nil => exact absurd rfl hne
  | @cons cs field parts fields hfirst hrest ih =>
      obtain ⟨fuel, rfl⟩ := Nat.exists_eq_succ_of_ne_zero (Nat.ne_zero_of_lt hfuel)
      have hdone : field.1 ∉ done.map Prod.fst := by
        rw [List.map_append, List.nodup_append] at hnames
        exact fun hmem => hnames.2.2 _ hmem _ List.mem_cons_self rfl
      cases hrest with
      | nil =>
          rw [List.intercalate_singleton] at hfuel ⊢
          exact readFields_last hclosing hfirst (by omega) hdone
      | @cons cs' field' parts fields hnext hrest =>
          rw [List.intercalate_cons_cons] at hfuel ⊢
          simp only [List.length_append, List.length_cons] at hfuel
          have hlength : 2 * ((',' :: blanks).intercalate (cs' :: parts)).length < fuel := by omega
          have hnames' : ((done ++ [field] ++ field' :: fields).map Prod.fst).Nodup := by
            rwa [List.append_assoc]
          have htail := ih (List.cons_ne_nil _ _) hnames' hlength
          rw [List.append_assoc, List.singleton_append] at htail
          have hmore := readFields_more hblanks hfirst (by omega : 2 * cs.length ≤ fuel) hdone
            ((hnext.opens.intercalate _ parts).append _).isTrimmed htail
          simpa only [List.append_assoc, List.cons_append] using hmore

end Fields

/-! ### The whole value -/

section Containers

variable {fuel depth : Nat} {blanks cs rest : List Char}

theorem takes_array (hblanks : AreBlanks blanks) (hopens : Opens cs) {items : List Json}
    (hitems : Takes (readItems fuel depth) cs rest items) :
    Takes (readValue (fuel + 1) (depth + 1)) ('[' :: (blanks ++ cs)) rest (array items) := by
  intro position
  have hskip := skipBlanks_append hblanks hopens.isTrimmed (position + 1)
  obtain ⟨after, hread⟩ := hitems (position + 1 + blanks.length)
  refine ⟨after, ?_⟩
  unfold readValue
  simp only [Cursor.advance, List.drop_one, List.tail_cons, hskip]
  split
  · obtain ⟨c, tail, heq, hc, -⟩ := hopens
    obtain rfl := (List.cons.inj heq).1
    cases hc
  · rw [hread]
    rfl

theorem takes_object (hblanks : AreBlanks blanks) (hopens : Opens cs)
    {fields : List (String × Json)} (hfields : Takes (readFields fuel depth []) cs rest fields) :
    Takes (readValue (fuel + 1) (depth + 1)) ('\x7b' :: (blanks ++ cs)) rest (object fields) := by
  intro position
  have hskip := skipBlanks_append hblanks hopens.isTrimmed (position + 1)
  obtain ⟨after, hread⟩ := hfields (position + 1 + blanks.length)
  refine ⟨after, ?_⟩
  unfold readValue
  simp only [Cursor.advance, List.drop_one, List.tail_cons, hskip]
  split
  · obtain ⟨c, tail, heq, hc, -⟩ := hopens
    obtain rfl := (List.cons.inj heq).1
    cases hc
  · rw [hread]
    rfl

end Containers

theorem forall_mem_intercalate {separator : List Char} {parts : List (List Char)}
    (hseparator : ∀ c ∈ separator, isWritten c) (hparts : ∀ cs ∈ parts, ∀ c ∈ cs, isWritten c) :
    ∀ c ∈ separator.intercalate parts, isWritten c := by
  induction parts with
  | nil => exact List.forall_mem_nil _
  | cons cs rest ih =>
      obtain ⟨hfirst, hrest⟩ := List.forall_mem_cons.mp hparts
      cases rest with
      | nil => rwa [List.intercalate_singleton]
      | cons cs' rest =>
          rw [List.intercalate_cons_cons]
          exact List.forall_mem_append.mpr
            ⟨List.forall_mem_append.mpr ⟨hfirst, hseparator⟩, ih hrest⟩

theorem isWritten_spacing (indent : Option Nat) (level : Nat) :
    (∀ c ∈ (spacing indent level).opening.toList, isWritten c) ∧
      (∀ c ∈ (spacing indent level).between.toList, isWritten c) ∧
        ∀ c ∈ (spacing indent level).closing.toList, isWritten c := by
  have hspaces (n : Nat) : ∀ c ∈ List.replicate n ' ', isWritten c := by
    intro c hc
    rw [List.eq_of_mem_replicate hc]
    rfl
  have hline (n : Nat) :
      ∀ c ∈ ("\n" ++ String.ofList (List.replicate n ' ')).toList, isWritten c := by
    rw [String.toList_append]
    refine List.forall_mem_append.mpr ⟨List.forall_mem_singleton.mpr rfl, ?_⟩
    rw [String.toList_ofList]
    exact hspaces n
  cases indent with
  | none =>
      exact ⟨List.forall_mem_nil _, List.all_eq_true.mp (rfl : ", ".toList.all isWritten = true),
        List.forall_mem_nil _⟩
  | some width =>
      refine ⟨hline _, ?_, hline _⟩
      change ∀ c ∈ ("," ++ _).toList, _
      rw [String.toList_append]
      exact List.forall_mem_append.mpr ⟨List.forall_mem_singleton.mpr rfl, hline _⟩

section Spaced

variable {depth : Nat} {parts : List String}

theorem exists_toList_enclose (opening closing : String) (first last : Char)
    (hfirst : opening.toList = [first]) (hlast : closing.toList = [last]) (indent : Option Nat)
    (level : Nat) (hne : parts ≠ []) : ∃ before blanks after, AreBlanks before ∧ AreBlanks blanks ∧
      AreBlanks after ∧ (enclose opening closing (spacing indent level) parts).toList =
        first :: (before ++ ((',' :: blanks).intercalate (parts.map String.toList) ++
          (after ++ [last]))) := by
  obtain ⟨hopening, hclosing, blanks, hblanks, hbetween⟩ := spacing_blanks indent level
  refine ⟨_, blanks, _, hopening, hblanks, hclosing, ?_⟩
  rw [toList_enclose hne, hfirst, hlast, String.toList_append, String.toList_append,
    String.toList_intercalate, hbetween]
  simp only [List.append_assoc, List.cons_append, List.nil_append]

theorem forall_mem_of_forall₂ {α : Type} {R : List Char → α → Prop} {P : List Char → Prop}
    (hR : ∀ {cs a}, R cs a → P cs) {texts : List (List Char)} {as : List α}
    (h : List.Forall₂ R texts as) : ∀ cs ∈ texts, P cs := by
  induction h with
  | nil => exact List.forall_mem_nil _
  | cons hfirst _ ih => exact List.forall_mem_cons.mpr ⟨hR hfirst, ih⟩

theorem opens_intercalate {texts : List (List Char)} (h : ∀ cs ∈ texts, Opens cs)
    (hne : texts ≠ []) (separator : List Char) : Opens (separator.intercalate texts) := by
  obtain ⟨cs, rest, rfl⟩ := List.exists_cons_of_ne_nil hne
  exact (h cs List.mem_cons_self).intercalate separator rest

theorem isWritten_enclose (opening closing : String)
    (hopening : opening.toList.all isWritten) (hclosing : closing.toList.all isWritten)
    (indent : Option Nat) (level : Nat)
    (h : ∀ cs ∈ parts.map String.toList, ∀ c ∈ cs, isWritten c) :
    ∀ c ∈ (enclose opening closing (spacing indent level) parts).toList, isWritten c := by
  obtain ⟨hfirst, hbetween, hlast⟩ := isWritten_spacing indent level
  rw [List.all_eq_true] at hopening hclosing
  by_cases hne : parts = []
  · rw [hne, toList_enclose_nil]
    exact List.forall_mem_append.mpr ⟨hopening, hclosing⟩
  · have hparts := forall_mem_intercalate hbetween h
    rw [toList_enclose hne, String.toList_append, String.toList_append, String.toList_intercalate]
    exact List.forall_mem_append.mpr ⟨List.forall_mem_append.mpr ⟨hopening,
      List.forall_mem_append.mpr ⟨List.forall_mem_append.mpr ⟨hfirst, hparts⟩, hlast⟩⟩, hclosing⟩

theorem isTaken_array {items : List Json} (indent : Option Nat) (level : Nat)
    (h : List.Forall₂ (IsTaken depth) (parts.map String.toList) items) :
    IsTaken (depth + 1) (enclose "[" "]" (spacing indent level) parts).toList (array items) := by
  by_cases hne : parts = []
  · subst hne
    cases h
    rw [toList_enclose_nil]
    exact isTaken_of_succ ⟨_, _, rfl, by decide⟩ (List.all_eq_true.mp rfl) fun _ _ position =>
      ⟨position + 2, rfl⟩
  obtain ⟨before, blanks, after, hbefore, hblanks, hafter, htext⟩ :=
    exists_toList_enclose "[" "]" '[' ']' rfl rfl indent level hne
  have hne' : parts.map String.toList ≠ [] := mt List.map_eq_nil_iff.mp hne
  have hopens := opens_intercalate (forall_mem_of_forall₂ (P := Opens) IsTaken.opens h) hne'
    (',' :: blanks)
  have hwritten := isWritten_enclose "[" "]" rfl rfl indent level
    (forall_mem_of_forall₂ (P := fun cs => ∀ c ∈ cs, isWritten c) IsTaken.written h)
  rw [htext] at hwritten ⊢
  refine isTaken_of_succ ⟨'[', _, rfl, by decide⟩ hwritten fun {fuel rest} hfuel _ => ?_
  simp only [List.length_append, List.length_cons] at hfuel
  have hlength : 2 * ((',' :: blanks).intercalate (parts.map String.toList)).length < fuel := by
    omega
  have harray := takes_array hbefore (hopens.append _)
    (takes_items hblanks hafter h hne' hlength rest)
  simpa only [List.append_assoc, List.cons_append, List.nil_append] using harray

theorem isTaken_object {fields : List (String × Json)} (indent : Option Nat) (level : Nat)
    (h : List.Forall₂ (IsTakenField depth) (parts.map String.toList) fields)
    (hnames : (fields.map Prod.fst).Nodup) :
    IsTaken (depth + 1) (enclose "\x7b" "\x7d" (spacing indent level) parts).toList
      (object fields) := by
  by_cases hne : parts = []
  · subst hne
    cases h
    rw [toList_enclose_nil]
    exact isTaken_of_succ ⟨_, _, rfl, by decide⟩ (List.all_eq_true.mp rfl) fun _ _ position =>
      ⟨position + 2, rfl⟩
  obtain ⟨before, blanks, after, hbefore, hblanks, hafter, htext⟩ :=
    exists_toList_enclose "\x7b" "\x7d" '\x7b' '\x7d' rfl rfl indent level hne
  have hne' : parts.map String.toList ≠ [] := mt List.map_eq_nil_iff.mp hne
  have hopens := opens_intercalate (forall_mem_of_forall₂ (P := Opens) IsTakenField.opens h) hne'
    (',' :: blanks)
  have hwritten := isWritten_enclose "\x7b" "\x7d" rfl rfl indent level
    (forall_mem_of_forall₂ (P := fun cs => ∀ c ∈ cs, isWritten c) IsTakenField.written h)
  rw [htext] at hwritten ⊢
  refine isTaken_of_succ ⟨'\x7b', _, rfl, by decide⟩ hwritten fun {fuel rest} hfuel _ => ?_
  simp only [List.length_append, List.length_cons] at hfuel
  have hlength : 2 * ((',' :: blanks).intercalate (parts.map String.toList)).length < fuel := by
    omega
  have hobject := takes_object hbefore (hopens.append _)
    (takes_fields hblanks hafter h hne' (List.nil_append fields ▸ hnames) hlength rest)
  simpa only [List.append_assoc, List.cons_append, List.nil_append] using hobject

end Spaced

mutual

theorem isTaken_writeAt (indent : Option Nat) (level : Nat) : ∀ (json : Json) (depth : Nat),
    json.isRestorable → json.depth ≤ depth → IsTaken depth (writeAt indent level json).toList json
  | .null, depth, _, _ => (isTaken_word depth (by simp [words]) : IsTaken _ "null".toList _)
  | .bool true, depth, _, _ => (isTaken_word depth (by simp [words]) : IsTaken _ "true".toList _)
  | .bool false, depth, _, _ =>
      (isTaken_word depth (by simp [words]) : IsTaken _ "false".toList _)
  | .number _, depth, h, _ => isTaken_number depth h
  | .text _, depth, h, _ => isTaken_text depth h
  | .array items, depth + 1, h, hdepth =>
      isTaken_array indent level
        (isTaken_writeItems indent (level + 1) items depth h (Nat.le_of_succ_le_succ hdepth))
  | .object fields, depth + 1, h, hdepth =>
      isTaken_object indent level
        (isTaken_writeFields indent (level + 1) fields depth h (Nat.le_of_succ_le_succ hdepth))
        (areRestorableFields_iff.mp h).2

theorem isTaken_writeItems (indent : Option Nat) (level : Nat) :
    ∀ (items : List Json) (depth : Nat), areRestorable items → depthOfItems items ≤ depth →
      List.Forall₂ (IsTaken depth) ((writeItems indent level items).map String.toList) items
  | [], _, _, _ => .nil
  | json :: rest, depth, h, hdepth => by
      rw [areRestorable, Bool.and_eq_true] at h
      rw [depthOfItems, Nat.max_le] at hdepth
      exact .cons (isTaken_writeAt indent level json depth h.1 hdepth.1)
        (isTaken_writeItems indent level rest depth h.2 hdepth.2)

theorem isTaken_writeFields (indent : Option Nat) (level : Nat) :
    ∀ (fields : List (String × Json)) (depth : Nat), areRestorableFields fields →
      depthOfFields fields ≤ depth →
      List.Forall₂ (IsTakenField depth) ((writeFields indent level fields).map String.toList) fields
  | [], _, _, _ => .nil
  | (key, json) :: rest, depth, h, hdepth => by
      simp only [areRestorableFields, Bool.and_eq_true] at h
      rw [depthOfFields, Nat.max_le] at hdepth
      refine .cons ⟨h.1.1.1, _, isTaken_writeAt indent level json depth h.1.1.2 hdepth.1, ?_⟩
        (isTaken_writeFields indent level rest depth h.2 hdepth.2)
      rw [String.toList_append, String.toList_append, List.append_assoc]
      rfl

end

/-- Nothing but blanks is left behind a value. -/
theorem endValue_blanks {blanks : List Char} (h : AreBlanks blanks) : EndValue blanks := by
  intro c hc
  have hblank : isBlank c := h c (List.mem_of_mem_head? hc)
  simp [isDelimiter, hblank]

/-- **What is written reads back.** A value that is no deeper than the reader goes is read again
from the text it is written as, with and without indentation, and blanks may follow the text. -/
theorem read_write {depth : Nat} {json : Json} (h : json.isRestorable) (hdepth : json.depth ≤ depth)
    (indent : Option Nat) {blanks : String} (hblanks : AreBlanks blanks.toList) :
    read depth (json.write indent ++ blanks) = .ok json := by
  have htaken := isTaken_writeAt indent 0 json depth h hdepth
  have hopens := htaken.opens.append blanks.toList
  rw [read, write, String.toList_append]
  generalize (writeAt indent 0 json).toList = cs at htaken hopens ⊢
  have hfuel : 2 * cs.length ≤ 2 * (cs ++ blanks.toList).length + 2 := by
    rw [List.length_append]
    omega
  obtain ⟨after, hread⟩ := htaken.takes hfuel (endValue_blanks hblanks) 0
  have hstart := skipBlanks_eq hopens.isTrimmed 0
  have hskip := skipBlanks_append hblanks isTrimmed_nil after
  rw [List.append_nil] at hskip
  have hwhole : readWhole depth (cs ++ blanks.toList) = .ok json := by
    rw [readWhole, hstart, hread]
    · simp only [bind, Except.bind, hskip]
      rfl
    · intro tail heq
      obtain ⟨c, _, hcs, -, hc⟩ := hopens
      rw [heq] at hcs
      exact hc (List.cons.inj hcs).1.symm
  rw [hwhole]
  rfl

/-! ### Files -/

theorem unifyLines_append {cs : List Char} (h : ∀ c ∈ cs, c ≠ '\r') (rest : List Char) :
    unifyLines (cs ++ rest) = cs ++ unifyLines rest := by
  induction cs with
  | nil => rfl
  | cons c cs ih =>
      obtain ⟨hc, hcs⟩ := List.forall_mem_cons.mp h
      rw [List.cons_append, unifyLines, ih hcs]
      · rfl
      · exact fun _ heq _ => hc heq
      · exact hc

theorem areBlanks_unifyLines {blanks : List Char} (h : AreBlanks blanks) :
    AreBlanks (unifyLines blanks) := by
  fun_induction unifyLines blanks with
  | case1 cs ih =>
      obtain ⟨-, h⟩ := List.forall_mem_cons.mp h
      exact List.forall_mem_cons.mpr ⟨rfl, ih (List.forall_mem_cons.mp h).2⟩
  | case2 cs _ ih => exact List.forall_mem_cons.mpr ⟨rfl, ih (List.forall_mem_cons.mp h).2⟩
  | case3 c cs _ _ ih =>
      obtain ⟨hc, hcs⟩ := List.forall_mem_cons.mp h
      exact List.forall_mem_cons.mpr ⟨hc, ih hcs⟩
  | case4 => exact areBlanks_nil

/-- Written texts hold no line ends but those that files keep, so a file reads back like a text. -/
theorem readFile_write {depth : Nat} {json : Json} (h : json.isRestorable)
    (hdepth : json.depth ≤ depth) (indent : Option Nat) {blanks : String}
    (hblanks : AreBlanks blanks.toList) :
    readFile depth (json.write indent ++ blanks) = .ok json := by
  have hlines : ∀ c ∈ (json.write indent).toList, c ≠ '\r' := by
    intro c hc
    have hwritten := (isTaken_writeAt indent 0 json depth h hdepth).written c hc
    rintro rfl
    cases hwritten
  rw [readFile, String.toList_append, unifyLines_append hlines, String.ofList_append,
    String.ofList_toList]
  refine read_write h hdepth indent ?_
  rw [String.toList_ofList]
  exact areBlanks_unifyLines hblanks

end TypeSchema.Json
