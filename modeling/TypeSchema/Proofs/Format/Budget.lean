import TypeSchema.Proofs.Format.Rules

/-!
# Reading under a larger budget

A reader that goes deeper reads whatever the other one reads, and reads it as the same. Every rule
of reading keeps this relation between the readers of the types inside, so it holds between the
budgets.
-/

namespace TypeSchema.Format

/-- The second reader reads all that the first one does, and as the same. -/
def Extends {α : Type} (read read' : Json → Pointer → Except Error α) : Prop :=
  ∀ json pointer a, read json pointer = .ok a → read' json pointer = .ok a

variable {scope : Scope} {field : String} {json : Json} {pointer : Pointer}

section Parts

variable {α : Type} {read read' : Json → Pointer → Except Error α} (h : Extends read read')

include h

theorem Extends.each {items : List Json} {found : List α} {position : Nat}
    (hread : readEach read pointer position items = .ok found) :
    readEach read' pointer position items = .ok found := by
  induction items generalizing position found with
  | nil => exact hread
  | cons item rest ih =>
      obtain ⟨first, hfirst, hrest⟩ := except_bind_eq_ok_iff.mp hread
      obtain ⟨others, hothers, hfound⟩ := except_bind_eq_ok_iff.mp hrest
      rw [readEach, except_bind_eq_ok_iff]
      refine ⟨first, h _ _ _ hfirst, ?_⟩
      rw [except_bind_eq_ok_iff]
      exact ⟨others, ih hothers, hfound⟩

theorem Extends.all {found : List α} (hread : readAll read json field pointer = .ok found) :
    readAll read' json field pointer = .ok found := by
  obtain ⟨items, hitems, heach⟩ := readAll_eq_ok_iff.mp hread
  exact readAll_eq_ok_iff.mpr ⟨items, hitems, h.each heach⟩

theorem Extends.optional {found : Option α}
    (hread : readOptional read json field pointer = .ok found) :
    readOptional read' json field pointer = .ok found := by
  rw [readOptional_eq_ok_iff] at hread ⊢
  obtain hnone | ⟨value, a, hvalue, hnull, ha, hfound⟩ := hread
  · exact .inl hnone
  · exact .inr ⟨value, a, hvalue, hnull, h _ _ _ ha, hfound⟩

theorem Extends.required {missing : Problem} {a : α}
    (hread : readRequired read missing json field pointer = .ok a) :
    readRequired read' missing json field pointer = .ok a := by
  rw [readRequired_eq_ok_iff] at hread ⊢
  obtain ⟨value, hvalue, ha⟩ := hread
  exact ⟨value, hvalue, h _ _ _ ha⟩

end Parts

section Readers

variable {reader reader' : TypeReader} (h : Extends reader reader')

include h

theorem Extends.member : Extends (readMember scope reader) (readMember scope reader') := by
  intro json pointer member hread
  rw [readMember_eq_ok_iff] at hread ⊢
  cases hread with
  | property told located named typed => exact .property told located named (h.optional typed)
  | index told located listed first object shown keyed typed =>
      exact .index told located listed first object shown (h.optional keyed) (h.optional typed)
  | other told known located named => exact .other told known located named

theorem Extends.typeStep : Extends (readTypeStep scope reader) (readTypeStep scope reader') := by
  intro json pointer type hread
  rw [readTypeStep_eq_ok_iff] at hread ⊢
  obtain ⟨kind, location, told, located, hrule⟩ := hread
  refine ⟨kind, location, told, located, ?_⟩
  cases hrule with
  | keyword known => exact .keyword known
  | literal part => exact .literal part
  | array part => exact .array (h.required part)
  | union parts => exact .union (h.all parts)
  | intersection parts => exact .intersection (h.all parts)
  | parenthesized part => exact .parenthesized (h.required part)
  | tuple parts => exact .tuple (h.all parts)
  | object parts => exact .object (h.member.all parts)
  | reference named parts => exact .reference named (h.all parts)
  | unsupported unknown other => exact .unsupported unknown other

end Readers

/-- A larger budget reads the same types, and more of them. -/
theorem readType_extends {budget budget' : Nat} (hle : budget ≤ budget') :
    Extends (readType scope budget) (readType scope budget') := by
  induction budget generalizing budget' with
  | zero =>
      intro json pointer type h
      exact absurd h fail_ne_ok
  | succ budget ih =>
      obtain ⟨larger, rfl⟩ := Nat.exists_eq_add_of_lt (Nat.lt_of_succ_le hle)
      exact (ih (Nat.le_add_right budget larger)).typeStep

end TypeSchema.Format
