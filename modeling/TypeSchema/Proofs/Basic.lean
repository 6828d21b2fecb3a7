import Mathlib.Data.List.Nodup
import Mathlib.Data.List.Pairwise

/-!
# Look-ups and steps that can be refused

A look-up finds the first entry of a name; where names are distinct, that is the only one. A chain
of steps yields a value exactly if each step yields one for the next to go on with, and it is
refused only for what one of the steps is refused for.
-/

namespace TypeSchema

section Lookup

variable {α : Type} {name : String} {value : α} {entries : List (String × α)}

theorem lookup_cons (entry : String × α) (entries : List (String × α)) :
    (entry :: entries).lookup name =
      if name = entry.1 then some entry.2 else entries.lookup name := by
  by_cases h : name = entry.1
  · rw [if_pos h, List.lookup_cons, beq_iff_eq.mpr h]
  · rw [if_neg h, List.lookup_cons, beq_eq_false_iff_ne.mpr h]

theorem not_mem_of_lookup (h : entries.lookup name = none) : name ∉ entries.map Prod.fst := by
  rw [List.lookup_eq_none_iff] at h
  intro hmem
  obtain ⟨entry, hentry, rfl⟩ := List.mem_map.mp hmem
  simpa using h entry hentry

theorem mem_of_lookup (h : entries.lookup name = some value) : (name, value) ∈ entries := by
  rw [List.lookup_eq_some_iff] at h
  obtain ⟨front, back, hentries, -⟩ := h
  simp [hentries]

theorem lookup_eq_some_iff_mem (distinct : (entries.map Prod.fst).Nodup) :
    entries.lookup name = some value ↔ (name, value) ∈ entries := by
  constructor
  · exact mem_of_lookup
  · intro hmem
    cases hlookup : entries.lookup name with
    | none => exact absurd (List.mem_map_of_mem hmem) (not_mem_of_lookup hlookup)
    | some other =>
        have hsame := List.inj_on_of_nodup_map distinct (mem_of_lookup hlookup) hmem rfl
        exact congrArg (fun entry => some entry.2) hsame

theorem filterMap_eq_toList_lookup (distinct : (entries.map Prod.fst).Nodup) (name : String) :
    (entries.filterMap fun entry => if entry.1 = name then some entry.2 else none) =
      (entries.lookup name).toList := by
  induction entries with
  | nil => rfl
  | cons entry rest ih =>
      obtain ⟨hfirst, hrest⟩ := List.nodup_cons.mp distinct
      rw [lookup_cons, List.filterMap_cons]
      by_cases hname : entry.1 = name
      · have hnone : rest.lookup name = none := by
          rw [List.lookup_eq_none_iff]
          intro other hother
          rw [bne_iff_ne]
          rintro rfl
          exact hfirst (hname ▸ List.mem_map_of_mem hother)
        rw [if_pos hname, if_pos hname.symm, ih hrest, hnone]
        rfl
      · rw [if_neg hname, if_neg fun h => hname h.symm, ih hrest]

end Lookup

/-- In a list without repetitions everything comes from one source. -/
theorem eq_of_mem_flatMap {α β : Type} {sources : List α} {f : α → List β} {a b : α} {x : β}
    (distinct : (sources.flatMap f).Nodup) (ha : a ∈ sources) (hb : b ∈ sources) (hxa : x ∈ f a)
    (hxb : x ∈ f b) : a = b := by
  by_contra hne
  have hpairwise := (List.nodup_flatMap.mp distinct).2
  have : Std.Symm (Function.onFun List.Disjoint f) := ⟨fun _ _ h => List.disjoint_symm h⟩
  exact hpairwise.forall ha hb hne hxa hxb

section Except

variable {ε α β : Type} {x : Except ε α}

theorem except_bind_eq_ok_iff {f : α → Except ε β} {b : β} :
    x >>= f = .ok b ↔ ∃ a, x = .ok a ∧ f a = .ok b := by
  cases x <;> simp [bind, Except.bind]

theorem except_map_eq_ok_iff {f : α → β} {b : β} :
    f <$> x = .ok b ↔ ∃ a, x = .ok a ∧ f a = b := by
  cases x <;> simp [Functor.map, Except.map]

theorem except_pure_eq_ok_iff {a b : α} : (pure a : Except ε α) = .ok b ↔ a = b := by
  simp [pure, Except.pure]

theorem except_toOption_eq_some_iff {a : α} : x.toOption = some a ↔ x = .ok a := by
  cases x <;> simp [Except.toOption]

/-- A chain of steps behind a check. -/
theorem except_unless_eq_ok_iff {c : Prop} [Decidable c] {error : ε} {next : Unit → Except ε α}
    {a : α} : (if c then throw error >>= next else next ()) = .ok a ↔ ¬ c ∧ next () = .ok a := by
  by_cases hc : c <;> simp [hc, throw, throwThe, MonadExceptOf.throw, bind, Except.bind]

/-- If the step is refused, then for a reason that has the property. -/
def FailsOnly (P : ε → Prop) (x : Except ε α) : Prop := ∀ error, x = .error error → P error

variable {P : ε → Prop}

theorem failsOnly_ok (a : α) : FailsOnly P (.ok a : Except ε α) := by
  intro error h
  cases h

theorem failsOnly_error {error : ε} (h : P error) : FailsOnly P (.error error : Except ε α) := by
  intro other hother
  obtain rfl := Except.error.inj hother
  exact h

theorem FailsOnly.bind {f : α → Except ε β} (hx : FailsOnly P x)
    (hf : ∀ a, x = .ok a → FailsOnly P (f a)) : FailsOnly P (x >>= f) := by
  cases x with
  | ok a => exact hf a rfl
  | error error => exact failsOnly_error (hx error rfl)

theorem FailsOnly.bind_of_ok {f : α → Except ε β} {a : α} (hx : x = .ok a)
    (hf : FailsOnly P (f a)) : FailsOnly P (x >>= f) := by
  rw [hx]
  exact hf

theorem FailsOnly.mono {Q : ε → Prop} (hx : FailsOnly P x) (h : ∀ error, P error → Q error) :
    FailsOnly Q x := fun error herror => h error (hx error herror)

theorem FailsOnly.map (hx : FailsOnly P x) (f : α → β) : FailsOnly P (f <$> x) := by
  cases x with
  | ok a => exact failsOnly_ok (f a)
  | error error => exact failsOnly_error (hx error rfl)

section Lists

variable {f : α → Except ε (List β)} {xs : List α}

theorem FailsOnly.flatMapM (h : ∀ x ∈ xs, FailsOnly P (f x)) : FailsOnly P (xs.flatMapM f) := by
  induction xs with
  | nil => exact failsOnly_ok []
  | cons x rest ih =>
      obtain ⟨hfirst, hrest⟩ := List.forall_mem_cons.mp h
      rw [List.flatMapM_cons]
      exact hfirst.bind fun _ _ => (ih hrest).bind fun _ _ => failsOnly_ok _

theorem flatMapM_eq_ok {g : α → List β} (h : ∀ x ∈ xs, f x = .ok (g x)) :
    xs.flatMapM f = .ok (xs.flatMap g) := by
  induction xs with
  | nil => rfl
  | cons x rest ih =>
      obtain ⟨hfirst, hrest⟩ := List.forall_mem_cons.mp h
      rw [List.flatMapM_cons, hfirst, ih hrest]
      rfl

theorem forall_ok_of_flatMapM {ys : List β} (h : xs.flatMapM f = .ok ys) :
    ∀ x ∈ xs, ∃ zs, f x = .ok zs := by
  induction xs generalizing ys with
  | nil => exact List.forall_mem_nil _
  | cons x rest ih =>
      rw [List.flatMapM_cons] at h
      obtain ⟨first, hfirst, h⟩ := except_bind_eq_ok_iff.mp h
      obtain ⟨others, hothers, -⟩ := except_bind_eq_ok_iff.mp h
      exact List.forall_mem_cons.mpr ⟨⟨first, hfirst⟩, ih hothers⟩

end Lists

theorem forall_of_mapM {f : α → Except ε β} {Q : β → Prop} {xs : List α} {ys : List β}
    (hf : ∀ x ∈ xs, ∀ y, f x = .ok y → Q y) (h : xs.mapM f = .ok ys) : ∀ y ∈ ys, Q y := by
  induction xs generalizing ys with
  | nil =>
      cases h
      exact List.forall_mem_nil _
  | cons x rest ih =>
      obtain ⟨hfirst, hrest⟩ := List.forall_mem_cons.mp hf
      rw [List.mapM_cons] at h
      obtain ⟨y, hy, h⟩ := except_bind_eq_ok_iff.mp h
      obtain ⟨others, hothers, ⟨⟩⟩ := except_bind_eq_ok_iff.mp h
      exact List.forall_mem_cons.mpr ⟨hfirst y hy, ih hrest hothers⟩

end Except

end TypeSchema
