import Mathlib.Data.List.Basic
import TypeSchema.Resolution.Table
import TypeSchema.Source.Nesting

/-!
# What a table holds

A table that is built from a list holds the entries and the values of its declarations one after
the other, and everything found under a name has that name.
-/

namespace TypeSchema.DeclarationTable

variable {declarations : List Declaration} {name : String} {declaration : Declaration}

theorem addAll_entries (table : DeclarationTable) (declarations : List Declaration) :
    (table.addAll declarations).entries = table.entries ++ declarations.flatMap entriesOf := by
  induction declarations generalizing table with
  | nil => simp [addAll]
  | cons declaration rest ih =>
      rw [addAll, List.foldl_cons, ← addAll, ih, List.flatMap_cons, add, List.append_assoc]

theorem addAll_values (table : DeclarationTable) (declarations : List Declaration) :
    (table.addAll declarations).values = table.values ++ declarations.flatMap valuesOf := by
  induction declarations generalizing table with
  | nil => simp [addAll]
  | cons declaration rest ih =>
      rw [addAll, List.foldl_cons, ← addAll, ih, List.flatMap_cons, add, List.append_assoc]

@[simp]
theorem ofList_entries (declarations : List Declaration) :
    (ofList declarations).entries = declarations.flatMap entriesOf := by
  rw [ofList, addAll_entries]
  rfl

@[simp]
theorem ofList_values (declarations : List Declaration) :
    (ofList declarations).values = declarations.flatMap valuesOf := by
  rw [ofList, addAll_values]
  rfl

theorem mem_declarations {table : DeclarationTable} :
    declaration ∈ table.declarations name ↔ (name, declaration) ∈ table.entries := by
  simp only [DeclarationTable.declarations, List.mem_filterMap, Option.ite_none_right_eq_some,
    Option.some.injEq]
  constructor
  · rintro ⟨entry, hentry, rfl, rfl⟩
    exact hentry
  · intro hentry
    exact ⟨_, hentry, rfl, rfl⟩

theorem qualifiedName_of_mem_entriesOf {entry : String × Declaration}
    (h : entry ∈ entriesOf declaration) : entry.2.qualifiedName = entry.1 := by
  cases declaration with
  | enum location name members =>
      obtain rfl | h := List.mem_cons.mp h
      · rfl
      · obtain ⟨member, -, rfl⟩ := List.mem_map.mp h
        rfl
  | _ =>
      obtain rfl := List.mem_singleton.mp h
      rfl

theorem depth_le_of_mem_entriesOf {entry : String × Declaration}
    (h : entry ∈ entriesOf declaration) : entry.2.depth ≤ declaration.depth := by
  cases declaration with
  | enum location name members =>
      obtain rfl | h := List.mem_cons.mp h
      · exact Nat.le.refl
      · obtain ⟨member, -, rfl⟩ := List.mem_map.mp h
        exact Nat.zero_le _
  | _ =>
      obtain rfl := List.mem_singleton.mp h
      exact Nat.le.refl

theorem qualifiedName_of_mem_declarations
    (h : declaration ∈ (ofList declarations).declarations name) :
    declaration.qualifiedName = name := by
  rw [mem_declarations, ofList_entries] at h
  obtain ⟨source, -, hentry⟩ := List.mem_flatMap.mp h
  exact qualifiedName_of_mem_entriesOf hentry

end TypeSchema.DeclarationTable
