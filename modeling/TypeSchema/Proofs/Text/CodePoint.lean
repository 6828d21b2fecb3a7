import Mathlib.Data.List.Basic
import TypeSchema.Text.CodePoint

/-!
# No two texts are held alike

The code points of a text are read off from the characters that hold it: a mark is followed by three
digits, and any other character stands for itself. So texts with different code points are held by
different characters, also where they differ in halves of surrogate pairs only.
-/

namespace TypeSchema.Text

theorem points_cons_of_ne {c : Char} (h : c ≠ mark) (cs : List Char) :
    points (c :: cs) = c.toNat :: points cs := by
  obtain _ | ⟨high, _ | ⟨middle, _ | ⟨low, rest⟩⟩⟩ := cs
  · rfl
  · rfl
  · rfl
  · rw [points, if_neg h]

theorem points_mark (high middle low : Char) (rest : List Char) :
    points (mark :: high :: middle :: low :: rest) =
      ofMarkedNumber (digitOf high * 0x100 + digitOf middle * 0x10 + digitOf low) ::
        points rest := by
  rw [points, if_pos rfl]

theorem points_ne_nil {cs : List Char} (h : cs ≠ []) : points cs ≠ [] := by
  fun_cases points cs with
  | case1 => exact absurd rfl h
  | _ => exact List.cons_ne_nil _ _

theorem released_ne_empty {s : String} (h : s ≠ "") : released s ≠ "" := by
  intro hempty
  have hpoints : points s.toList ≠ [] := points_ne_nil fun hnil => h (String.toList_inj.mp hnil)
  obtain ⟨point, rest, hcons⟩ := List.exists_cons_of_ne_nil hpoints
  have hnil := congrArg String.toList hempty
  rw [released, String.toList_ofList, hcons, List.flatMap_cons] at hnil
  split at hnil <;> cases hnil

theorem toNat_ofNat {point : Nat} (h : point.isValidChar) : (Char.ofNat point).toNat = point := by
  rw [Char.ofNat, dif_pos h]
  rfl

theorem digitOf_markedDigit {d : Nat} (h : d < 0x10) : digitOf (markedDigit d) = d := by
  have hvalid : (0xFDD0 + d).isValidChar := Or.inr (And.intro (by omega) (by omega))
  have hdigit : (markedDigit d).toNat = 0xFDD0 + d := toNat_ofNat hvalid
  rw [digitOf, hdigit]
  omega

theorem markedNumber?_eq_some_iff {point n : Nat} :
    markedNumber? point = some n ↔ n < 0x811 ∧ ofMarkedNumber n = point := by
  simp only [markedNumber?, ofMarkedNumber, isHalf, isReserved, Bool.and_eq_true,
    decide_eq_true_eq]
  split_ifs <;> simp only [Option.some.injEq, false_iff] <;> omega

/-- A code point that is not marked is a character, and not the mark. -/
theorem isValidChar_of_markedNumber? {point : Nat} (h : markedNumber? point = none)
    (hpoint : point < 0x110000) : point.isValidChar ∧ point ≠ 0xFDE0 := by
  simp only [markedNumber?, isHalf, isReserved, Bool.and_eq_true, decide_eq_true_eq] at h
  split_ifs at h
  refine ⟨?_, by omega⟩
  by_cases hlow : point < 0xD800
  · exact .inl hlow
  · exact .inr ⟨by omega, hpoint⟩

theorem points_hold {point : Nat} (h : point < 0x110000) (rest : List Char) :
    points (hold point ++ rest) = point :: points rest := by
  rw [hold]
  cases hnumber : markedNumber? point with
  | some n =>
      obtain ⟨hn, hpoint⟩ := markedNumber?_eq_some_iff.mp hnumber
      have hvalue : n / 0x100 * 0x100 + n / 0x10 % 0x10 * 0x10 + n % 0x10 = n := by omega
      simp only [List.cons_append, List.nil_append]
      rw [points_mark, digitOf_markedDigit (by omega), digitOf_markedDigit (by omega),
        digitOf_markedDigit (by omega), hvalue, hpoint]
  | none =>
      obtain ⟨hvalid, hmark⟩ := isValidChar_of_markedNumber? hnumber h
      have htoNat : (Char.ofNat point).toNat = point := toNat_ofNat hvalid
      have hne : Char.ofNat point ≠ mark := by
        intro heq
        rw [heq] at htoNat
        exact hmark htoNat.symm
      dsimp only
      rw [List.singleton_append, points_cons_of_ne hne, htoNat]

/-- What is held is read off again. -/
theorem points_ofPoints {ps : List Nat} (h : ∀ point ∈ ps, point < 0x110000) :
    points (ofPoints ps).toList = ps := by
  rw [ofPoints, String.toList_ofList]
  induction ps with
  | nil => rfl
  | cons point rest ih =>
      obtain ⟨hpoint, hrest⟩ := List.forall_mem_cons.mp h
      rw [List.flatMap_cons, points_hold hpoint, ih hrest]

theorem toNat_lt (c : Char) : c.toNat < 0x110000 := by
  obtain h | ⟨-, h⟩ := c.valid
  · exact Nat.lt_trans h (by decide)
  · exact h

theorem points_held (s : String) : points (held s).toList = s.toList.map Char.toNat :=
  points_ofPoints (List.forall_mem_map.mpr fun c _ => toNat_lt c)

theorem held_injective : Function.Injective held := by
  intro s t h
  have hpoints : s.toList.map Char.toNat = t.toList.map Char.toNat := by
    rw [← points_held, ← points_held, h]
  have hinjective : Function.Injective Char.toNat := fun c d hcd => by
    rw [← Char.ofNat_toNat c, ← Char.ofNat_toNat d, hcd]
  exact String.toList_injective (List.map_injective_iff.mpr hinjective hpoints)

/-- Whatever characters are read, what they hold is within the range of code points. -/
theorem forall_mem_points (cs : List Char) : ∀ point ∈ points cs, point < 0x110000 := by
  induction cs using points.induct with
  | case1 => exact fun _ h => absurd h List.not_mem_nil
  | case2 high middle low rest ih =>
      rw [points_mark]
      refine List.forall_mem_cons.mpr ⟨?_, ih⟩
      have hhigh : digitOf high < 0x10 := Nat.mod_lt _ (by decide)
      have hmiddle : digitOf middle < 0x10 := Nat.mod_lt _ (by decide)
      have hlow : digitOf low < 0x10 := Nat.mod_lt _ (by decide)
      rw [ofMarkedNumber]
      split <;> omega
  | case3 c high middle low rest hc ih =>
      rw [points_cons_of_ne hc]
      exact List.forall_mem_cons.mpr ⟨toNat_lt c, ih⟩
  | case4 c cs hshort ih =>
      rw [points]
      · exact List.forall_mem_cons.mpr ⟨toNat_lt c, ih⟩
      · exact hshort

end TypeSchema.Text
