import TypeSchema.Proofs.Constant.Numbering
import TypeSchema.Proofs.Constant.Values
import TypeSchema.Proofs.Number.Integers

/-!
# The complement of an integer

The complement of an integer is taken as if it had infinitely many binary places: it is the negated
successor, whatever the size of the integer, and the members behind it are counted on from there.
Complements of 32 places, as they are usual for flags, are the same exactly for the integers that
have a signed representation in 32 places.
-/

namespace TypeSchema

/-- The integer of 32 signed binary places that is congruent to the given one. -/
def signed32 (n : Int) : Int := n.bmod 0x100000000

theorem signed32_eq_iff {n : Int} : signed32 n = n ↔ -0x80000000 ≤ n ∧ n < 0x80000000 := by
  simp only [signed32, Int.bmod_def]
  split <;> omega

theorem Evaluated.enumNumber_integer_inj {v w : Int} :
    enumNumber (.integer v) = enumNumber (.integer w) ↔ v = w := by
  simp [enumNumber]

theorem Literal.evaluateConstant_complement {operand : String} {n : Int}
    (h : NumericLiteral.read operand = .ok (.integer n)) (location : Option Location) :
    (⟨.prefixUnary, "~" ++ operand, location⟩ : Literal).evaluateConstant =
      .enumNumber (.integer (-n - 1)) := by
  obtain ⟨-, -, hcomplement⟩ := NumericLiteral.unary?_of_read (NumericLiteral.read_trim h)
  exact evaluateConstant_prefixUnary hcomplement location

/-- **Complements are exact.** The complement of an integer literal of any size is its negated
successor, and the members without initializers behind it are counted on from there. It is the
complement of 32 places, and has a signed representation in these, exactly if the integer has. -/
theorem complement_exact {operand : String} {n : Int}
    (h : NumericLiteral.read operand = .ok (.integer n)) (location : Option Location) :
    let complement : Literal := ⟨.prefixUnary, "~" ++ operand, location⟩
    complement.evaluateConstant = .enumNumber (.integer (-n - 1)) ∧
    (complement.evaluateConstant = .enumNumber (.integer (-signed32 n - 1)) ↔
      -0x80000000 ≤ n ∧ n < 0x80000000) ∧
    ((∃ v : Int, complement.evaluateConstant = .enumNumber (.integer v) ∧
        -0x80000000 ≤ v ∧ v < 0x80000000) ↔ -0x80000000 ≤ n ∧ n < 0x80000000) ∧
    ∀ (members : List EnumMember) (j k : Nat) (last member : EnumMember),
      members[j]? = some last → last.initializer = some complement →
      members[j + k]? = some member → Evaluated.Uninitialized members (j + 1) (j + k) →
        (Evaluated.ofMembers none members)[j + k]? =
          some (member, .enumNumber (.integer (-n - 1 + k))) := by
  intro complement
  have hexact := Literal.evaluateConstant_complement h location
  refine ⟨hexact, ?_, ?_, ?_⟩
  · rw [hexact, Evaluated.enumNumber_integer_inj, ← signed32_eq_iff]
    omega
  · constructor
    · rintro ⟨v, hv, hlow, hhigh⟩
      obtain rfl := Evaluated.enumNumber_integer_inj.mp (hexact.symm.trans hv)
      omega
    · rintro ⟨hlow, hhigh⟩
      exact ⟨-n - 1, hexact, by omega, by omega⟩
  · intro members j k last member hlast hinitializer hmember hplain
    have hstart := Evaluated.getElem?_ofMembers_initialized none hlast hinitializer
    rw [hexact] at hstart
    exact Evaluated.getElem?_ofMembers_counted hstart hmember hplain

/-- The complement of the flag of all 32 places, and the member behind it. -/
theorem complement_exact_allPlaces :
    let complement : Literal := ⟨.prefixUnary, "~0xFFFF_FFFF", none⟩
    let members : List EnumMember :=
      [⟨none, "None", "Flags", ⟨.identifier, "None", none⟩, some complement⟩,
        ⟨none, "Next", "Flags", ⟨.identifier, "Next", none⟩, none⟩]
    NumericLiteral.read "0xFFFF_FFFF" = .ok (.integer 0xFFFFFFFF) ∧
    complement.evaluateConstant = .enumNumber (.integer (-0x100000000)) ∧
    complement.evaluateConstant ≠ .enumNumber (.integer (-signed32 0xFFFFFFFF - 1)) ∧
    ((Evaluated.ofMembers none members)[1]?).map Prod.snd =
      some (.enumNumber (.integer (-0xFFFFFFFF))) := by
  intro complement members
  have hread : NumericLiteral.read "0xFFFF_FFFF" = .ok (.integer 0xFFFFFFFF) := rfl
  obtain ⟨hexact, hsigned, -, hcounted⟩ := complement_exact hread none
  refine ⟨hread, hexact, ?_, ?_⟩
  · exact fun h => absurd (hsigned.mp h) (by decide)
  · have hplain : Evaluated.Uninitialized members (0 + 1) (0 + 1) := by
      intro index member hlow hhigh hindex
      obtain rfl : index = 1 := by omega
      cases hindex
      rfl
    rw [hcounted members 0 1 _ _ rfl rfl rfl hplain]
    rfl

/-- The complement of the flag of the highest of 32 places is no signed integer of 32 places. -/
theorem complement_not_always_signed32 :
    ¬ ∀ (operand : String) (n : Int) (location : Option Location),
      NumericLiteral.read operand = .ok (.integer n) →
        (⟨.prefixUnary, "~" ++ operand, location⟩ : Literal).evaluateConstant =
          .enumNumber (.integer (-signed32 n - 1)) := by
  intro h
  have hread : NumericLiteral.read "0x80000000" = .ok (.integer 0x80000000) := rfl
  have hsigned := h "0x80000000" 0x80000000 none hread
  rw [Literal.evaluateConstant_complement hread, Evaluated.enumNumber_integer_inj] at hsigned
  exact absurd hsigned (by decide)

end TypeSchema
