import TypeSchema.Proofs.Number.Layout
import TypeSchema.Proofs.Text.CodePoint

/-!
# What is written is a JSON text

The writer escapes all characters that must not stand in quotes, separates the parts of an array or
object by a comma and blanks, and sets finite numbers out as JSON numbers. So the text of a value
without other numbers is a complete JSON text, with and without indentation.
-/

namespace TypeSchema.Json

/-! ### Texts in quotes -/

theorem length_hexPadded {width n : Nat} (hwidth : 0 < width) (h : n < 16 ^ width) :
    (Text.hexPadded width n).length = width := by
  have hlength : (Nat.toDigits 16 n).length ≤ width :=
    (Nat.length_toDigits_le_iff (by decide) hwidth).mpr h
  rw [Text.hexPadded, List.length_append, List.length_replicate]
  omega

theorem isHexDigit_of_mem_hexPadded {width n : Nat} :
    ∀ c ∈ Text.hexPadded width n, (hexDigit? c).isSome := by
  rw [Text.hexPadded]
  refine List.forall_mem_append.mpr ⟨?_, ?_⟩
  · intro c hc
    rw [List.eq_of_mem_replicate hc]
    rfl
  · exact Numeral.forall_mem_toDigits (by decide) (by decide) (by decide) n

theorem AreQuotable.escapeUnit {unit : Nat} {cs : List Char} (h : unit < 0x10000)
    (hrest : AreQuotable cs) : AreQuotable (escapeUnit unit ++ cs) :=
  .unit (length_hexPadded (by decide) h) isHexDigit_of_mem_hexPadded hrest

theorem isHighHalf_iff {point : Nat} :
    Text.isHighHalf point ↔ 0xD800 ≤ point ∧ point < 0xDC00 := by
  rw [Text.isHighHalf, Bool.and_eq_true, decide_eq_true_eq, decide_eq_true_eq]

theorem isLowHalf_iff {point : Nat} :
    Text.isLowHalf point ↔ 0xDC00 ≤ point ∧ point < 0xE000 := by
  rw [Text.isLowHalf, Bool.and_eq_true, decide_eq_true_eq, decide_eq_true_eq]

/-- How a code point is written in quotes: by a letter that stands for it, as itself, or by the
escapes of one or two UTF-16 units. -/
inductive IsEscape (point : Nat) : List Char → Prop
  | letter {letter c : Char} (h : escaped? letter = some c) (hpoint : c.toNat = point) :
      IsEscape point ['\\', letter]
  | plain {c : Char} (h : 0x20 ≤ c.toNat) (hquote : c ≠ '"') (hescape : c ≠ '\\')
      (hpoint : c.toNat = point) : IsEscape point [c]
  | unit (h : point < 0x10000) : IsEscape point (escapeUnit point)
  | pair {high low : Nat} (hhigh : Text.isHighHalf high) (hlow : Text.isLowHalf low)
      (hpoint : 0x10000 + (high - 0xD800) * 0x400 + (low - 0xDC00) = point) :
      IsEscape point (escapeUnit high ++ escapeUnit low)

theorem isEscape_escape {point : Nat} (hmost : point < 0x110000) :
    IsEscape point (escape point) := by
  have hvalue {c : Char} (hc : c ≠ '\x00') (h : Char.ofNat point = c) : c.toNat = point := by
    by_cases hvalid : point.isValidChar
    · rw [← h, Text.toNat_ofNat hvalid]
    · rw [Char.ofNat, dif_neg hvalid] at h
      exact absurd h.symm hc
  unfold escape
  dsimp only
  split_ifs with hquote hline hreturn htab hback hfeed hplain hlow
  · obtain hquote | hescape := hquote
    · rw [hquote]
      exact .letter rfl (hvalue (by decide) hquote)
    · rw [hescape]
      exact .letter rfl (hvalue (by decide) hescape)
  · exact .letter rfl (hvalue (by decide) hline)
  · exact .letter rfl (hvalue (by decide) hreturn)
  · exact .letter rfl (hvalue (by decide) htab)
  · exact .letter rfl hback.symm
  · exact .letter rfl hfeed.symm
  · have hpoint : (Char.ofNat point).toNat = point :=
      Text.toNat_ofNat (.inl (Nat.lt_trans hplain.2 (by decide)))
    exact .plain (hpoint.symm ▸ hplain.1) (fun h => hquote (.inl h)) (fun h => hquote (.inr h))
      hpoint
  · exact .unit hlow
  · exact .pair (by rw [isHighHalf_iff]; omega) (by rw [isLowHalf_iff]; omega) (by omega)

theorem IsEscape.areQuotable {cs rest : List Char} {point : Nat} (h : IsEscape point cs)
    (hrest : AreQuotable rest) : AreQuotable (cs ++ rest) := by
  cases h with
  | letter h _ => exact .escaped (h ▸ rfl) hrest
  | plain h hquote hescape _ => exact .plain h hquote hescape hrest
  | unit h => exact hrest.escapeUnit h
  | pair hhigh hlow _ =>
      rw [isHighHalf_iff] at hhigh
      rw [isLowHalf_iff] at hlow
      rw [List.append_assoc]
      exact (hrest.escapeUnit (by omega)).escapeUnit (by omega)

theorem isQuoted_writeText (s : String) : IsQuoted (writeText s).toList := by
  have hquotable {points : List Nat} (h : ∀ point ∈ points, point < 0x110000) :
      AreQuotable (points.flatMap escape) := by
    induction points with
    | nil => exact .nil
    | cons point rest ih =>
        obtain ⟨hpoint, hrest⟩ := List.forall_mem_cons.mp h
        exact (isEscape_escape hpoint).areQuotable (ih hrest)
  rw [writeText, String.toList_ofList]
  exact .mk (hquotable (Text.forall_mem_points s.toList))

/-! ### Arrays and objects -/

theorem areBlanks_nil : AreBlanks [] := List.forall_mem_nil _

theorem areBlanks_space : AreBlanks [' '] := List.forall_mem_singleton.mpr rfl

/-- The start of a line, behind a line end. -/
theorem areBlanks_line (n : Nat) :
    AreBlanks ("\n" ++ String.ofList (List.replicate n ' ')).toList := by
  have hblanks : ∀ c ∈ List.replicate n ' ', isBlank c := by
    intro c hc
    rw [List.eq_of_mem_replicate hc]
    rfl
  have hline : ("\n" ++ String.ofList (List.replicate n ' ')).toList =
      '\n' :: List.replicate n ' ' := by simp
  rw [hline]
  exact List.forall_mem_cons.mpr ⟨rfl, hblanks⟩

/-- Blanks surround the parts of an array or object, and a comma stands before those between. -/
theorem spacing_blanks (indent : Option Nat) (level : Nat) :
    AreBlanks (spacing indent level).opening.toList ∧
      AreBlanks (spacing indent level).closing.toList ∧
        ∃ blanks, AreBlanks blanks ∧ (spacing indent level).between.toList = ',' :: blanks := by
  cases indent with
  | none => exact ⟨areBlanks_nil, areBlanks_nil, [' '], areBlanks_space, by simp [spacing]⟩
  | some width =>
      refine ⟨areBlanks_line _, areBlanks_line _, _, areBlanks_line (width * (level + 1)), ?_⟩
      exact String.toList_append

section Listed

variable {part : Part} {IsPadded : List Char → Prop}

/-- Parts that may stand between blanks make a list, with a comma and blanks between them. -/
theorem isPart_intercalate
    (hpad : ∀ {before cs after}, AreBlanks before → IsPadded cs → AreBlanks after →
      IsPart part (before ++ cs ++ after))
    {before blanks after : List Char} (hbefore : AreBlanks before) (hblanks : AreBlanks blanks)
    (hafter : AreBlanks after) {parts : List (List Char)} (hne : parts ≠ [])
    (hparts : ∀ cs ∈ parts, IsPadded cs) :
    IsPart (.listed part) (before ++ (',' :: blanks).intercalate parts ++ after) := by
  induction parts generalizing before with
  | nil => exact absurd rfl hne
  | cons cs rest ih =>
      obtain ⟨hfirst, hrest⟩ := List.forall_mem_cons.mp hparts
      cases rest with
      | nil =>
          rw [List.intercalate_singleton]
          exact .one (hpad hbefore hfirst hafter)
      | cons cs' rest =>
          have htail := ih hblanks (List.cons_ne_nil cs' rest) hrest
          have h := IsPart.more (hpad hbefore hfirst areBlanks_nil) htail
          rw [List.intercalate_cons_cons]
          simpa only [List.append_assoc, List.nil_append, List.cons_append] using h

theorem isPart_parts
    (hpad : ∀ {before cs after}, AreBlanks before → IsPadded cs → AreBlanks after →
      IsPart part (before ++ cs ++ after))
    (indent : Option Nat) (level : Nat) {parts : List String} (hne : parts ≠ [])
    (hparts : ∀ s ∈ parts, IsPadded s.toList) :
    IsPart (.listed part) ((spacing indent level).opening ++
      (spacing indent level).between.intercalate parts ++
        (spacing indent level).closing).toList := by
  obtain ⟨hopening, hclosing, blanks, hblanks, hbetween⟩ := spacing_blanks indent level
  rw [String.toList_append, String.toList_append, String.toList_intercalate, hbetween]
  exact isPart_intercalate hpad hopening hblanks hclosing (mt List.map_eq_nil_iff.mp hne)
    (List.forall_mem_map.mpr hparts)

end Listed

/-- A field as it is written, without the blanks around it. -/
def IsBareField (cs : List Char) : Prop :=
  ∃ name value, IsQuoted name ∧ IsPart .value value ∧ cs = name ++ ':' :: ' ' :: value

theorem IsBareField.pad {before cs after : List Char} (hbefore : AreBlanks before)
    (h : IsBareField cs) (hafter : AreBlanks after) : IsPart .field (before ++ cs ++ after) := by
  obtain ⟨name, value, hname, hvalue, rfl⟩ := h
  have hfield := IsPart.field hbefore hname areBlanks_nil (.item areBlanks_space hvalue hafter)
  simpa only [List.append_assoc, List.nil_append, List.cons_append] using hfield

theorem toList_enclose_nil {opening closing : String} {space : Spacing} :
    (enclose opening closing space []).toList = opening.toList ++ closing.toList := by
  simp [enclose]

theorem toList_enclose {opening closing : String} {space : Spacing} {parts : List String}
    (hne : parts ≠ []) : (enclose opening closing space parts).toList = opening.toList ++
      (space.opening ++ space.between.intercalate parts ++ space.closing).toList ++
        closing.toList := by
  simp [enclose, hne]

theorem isPart_array (indent : Option Nat) (level : Nat) {parts : List String}
    (h : ∀ s ∈ parts, IsPart .value s.toList) :
    IsPart .value (enclose "[" "]" (spacing indent level) parts).toList := by
  by_cases hne : parts = []
  · rw [hne, toList_enclose_nil]
    exact .emptyArray areBlanks_nil
  · rw [toList_enclose hne]
    exact .array (isPart_parts IsPart.item indent level hne h)

theorem isPart_object (indent : Option Nat) (level : Nat) {parts : List String}
    (h : ∀ s ∈ parts, IsBareField s.toList) :
    IsPart .value (enclose "\x7b" "\x7d" (spacing indent level) parts).toList := by
  by_cases hne : parts = []
  · rw [hne, toList_enclose_nil]
    exact .emptyObject areBlanks_nil
  · rw [toList_enclose hne]
    exact .object (isPart_parts IsBareField.pad indent level hne h)

/-! ### Values -/

theorem isNumber_renderNumber {n : Number} (h : n.isFinite) :
    IsNumber (n.render numberLayout).toList := by
  cases n with
  | integer n => exact isNumber_toString n
  | real x => exact Binary64.isNumber_render numberLayout h

mutual

theorem isPart_writeAt (indent : Option Nat) (level : Nat) :
    ∀ json : Json, json.isFinite → IsPart .value (writeAt indent level json).toList
  | .null, _ => .word (by decide : "null" ∈ _)
  | .bool true, _ => .word (by decide : "true" ∈ _)
  | .bool false, _ => .word (by decide : "false" ∈ _)
  | .number n, h => .number (isNumber_renderNumber h)
  | .text s, _ => .text (isQuoted_writeText s)
  | .array items, h => isPart_array indent level (isPart_writeItems indent (level + 1) items h)
  | .object fields, h =>
      isPart_object indent level (isBareField_writeFields indent (level + 1) fields h)

theorem isPart_writeItems (indent : Option Nat) (level : Nat) :
    ∀ items : List Json, areFinite items →
      ∀ s ∈ writeItems indent level items, IsPart .value s.toList
  | [], _ => fun _ h => absurd h List.not_mem_nil
  | json :: rest, h => by
      rw [areFinite, Bool.and_eq_true] at h
      exact List.forall_mem_cons.mpr
        ⟨isPart_writeAt indent level json h.1, isPart_writeItems indent level rest h.2⟩

theorem isBareField_writeFields (indent : Option Nat) (level : Nat) :
    ∀ fields : List (String × Json), areFiniteFields fields →
      ∀ s ∈ writeFields indent level fields, IsBareField s.toList
  | [], _ => fun _ h => absurd h List.not_mem_nil
  | (key, json) :: rest, h => by
      rw [areFiniteFields, Bool.and_eq_true] at h
      refine List.forall_mem_cons.mpr
        ⟨⟨_, _, isQuoted_writeText key, isPart_writeAt indent level json h.1, ?_⟩,
          isBareField_writeFields indent level rest h.2⟩
      rw [String.toList_append, String.toList_append, List.append_assoc]
      rfl

end

/-- The text of a value whose numbers are finite is a complete JSON text. -/
theorem isText_write (indent : Option Nat) {json : Json} (h : json.isFinite) :
    IsText (json.write indent) := by
  have hitem := IsPart.item areBlanks_nil (isPart_writeAt indent 0 json h) areBlanks_nil
  rwa [List.append_nil] at hitem

end TypeSchema.Json
