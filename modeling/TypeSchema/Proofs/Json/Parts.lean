import TypeSchema.Json.Display
import TypeSchema.Proofs.Basic

/-!
# Parts of values

A part of a value is less deep than the value, and a long integer in the part is one in the value. A
value that is set out is stopped at one of the two: at a part that lies as deep as there is room, or
at a long integer. So a value is set out completely only if it holds no long integer, however much
room there is.
-/

namespace TypeSchema.Json

variable {json value : Json} {key : String} {room : Nat}

/-! ### Fields by name -/

theorem insertField_of_mem {fields : List (String × Json)} (h : key ∈ fields.map Prod.fst) :
    insertField fields key value =
      fields.map fun field => if field.1 = key then (key, value) else field := by
  refine if_pos ?_
  obtain ⟨field, hfield, rfl⟩ := List.mem_map.mp h
  exact List.any_eq_true.mpr ⟨field, hfield, decide_eq_true rfl⟩

theorem insertField_of_not_mem {fields : List (String × Json)} (h : key ∉ fields.map Prod.fst) :
    insertField fields key value = fields ++ [(key, value)] := by
  refine if_neg fun hany => h ?_
  obtain ⟨field, hfield, hname⟩ := List.any_eq_true.mp hany
  exact List.mem_map.mpr ⟨field, hfield, of_decide_eq_true hname⟩

/-! ### Depths -/

theorem depth_le_depthOfItems {items : List Json} (h : value ∈ items) :
    value.depth ≤ depthOfItems items := by
  induction items with
  | nil => cases h
  | cons first rest ih =>
      rw [depthOfItems]
      obtain rfl | h := List.mem_cons.mp h
      · exact Nat.le_max_left _ _
      · exact Nat.le_trans (ih h) (Nat.le_max_right _ _)

theorem depth_le_depthOfFields {fields : List (String × Json)} (h : (key, value) ∈ fields) :
    value.depth ≤ depthOfFields fields := by
  induction fields with
  | nil => cases h
  | cons first rest ih =>
      rw [depthOfFields]
      obtain rfl | h := List.mem_cons.mp h
      · exact Nat.le_max_left _ _
      · exact Nat.le_trans (ih h) (Nat.le_max_right _ _)

theorem depth_lt_of_get? (h : json.get? key = some value) : value.depth < json.depth := by
  cases json with
  | object fields => exact Nat.lt_succ_of_le (depth_le_depthOfFields (mem_of_lookup h))
  | _ => cases h

/-! ### Long integers -/

theorem anyLongInteger_eq_any (items : List Json) :
    anyLongInteger items = items.any hasLongInteger := by
  induction items with
  | nil => rfl
  | cons first rest ih => rw [anyLongInteger, List.any_cons, ih]

theorem anyLongIntegerField_eq_any (fields : List (String × Json)) :
    anyLongIntegerField fields = fields.any (·.2.hasLongInteger) := by
  induction fields with
  | nil => rfl
  | cons first rest ih => rw [anyLongIntegerField, List.any_cons, ih]

theorem hasLongInteger_of_mem {items : List Json} (h : value ∈ items)
    (hlong : value.hasLongInteger) : (array items).hasLongInteger := by
  rw [hasLongInteger, anyLongInteger_eq_any, List.any_eq_true]
  exact ⟨value, h, hlong⟩

theorem hasLongInteger_of_get? (h : json.get? key = some value) (hlong : value.hasLongInteger) :
    json.hasLongInteger := by
  cases json with
  | object fields =>
      rw [hasLongInteger, anyLongIntegerField_eq_any, List.any_eq_true]
      exact ⟨(key, value), mem_of_lookup h, hlong⟩
  | _ => cases h

theorem hasLongInteger_of_follow? {steps : List Step} (h : json.follow? steps = some value)
    (hlong : value.hasLongInteger) : json.hasLongInteger := by
  induction steps generalizing json with
  | nil =>
      obtain rfl := Option.some.inj h
      exact hlong
  | cons step rest ih =>
      cases step with
      | field name =>
          obtain ⟨inner, hinner, hrest⟩ := Option.bind_eq_some_iff.mp h
          exact hasLongInteger_of_get? hinner (ih hrest)
      | index position =>
          obtain ⟨inner, hinner, hrest⟩ := Option.bind_eq_some_iff.mp h
          cases json with
          | array items => exact hasLongInteger_of_mem (List.mem_of_getElem? hinner) (ih hrest)
          | _ => cases hinner

/-! ### What a value is stopped at -/

theorem stopInItems?_eq_findSome? (items : List Json) :
    stopInItems? room items = items.findSome? (stop? room) := by
  induction items with
  | nil => rfl
  | cons first rest ih =>
      rw [stopInItems?, List.findSome?_cons, ih]
      cases first.stop? room <;> rfl

theorem stopInFields?_eq_findSome? (fields : List (String × Json)) :
    stopInFields? room fields = fields.findSome? (·.2.stop? room) := by
  induction fields with
  | nil => rfl
  | cons first rest ih =>
      rw [stopInFields?, List.findSome?_cons, ih]
      cases first.2.stop? room <;> rfl

/-- A value is stopped for its depth only if it is as deep as there is room. -/
theorem le_depth_of_stop? (h : json.stop? room = some .tooDeep) : room ≤ json.depth := by
  induction room generalizing json with
  | zero => exact Nat.zero_le _
  | succ room ih =>
      cases json with
      | array items =>
          rw [stop?, stopInItems?_eq_findSome?] at h
          obtain ⟨item, hitem, hstop⟩ := List.exists_of_findSome?_eq_some h
          exact Nat.succ_le_succ (Nat.le_trans (ih hstop) (depth_le_depthOfItems hitem))
      | object fields =>
          rw [stop?, stopInFields?_eq_findSome?] at h
          obtain ⟨⟨key, item⟩, hitem, hstop⟩ := List.exists_of_findSome?_eq_some h
          exact Nat.succ_le_succ (Nat.le_trans (ih hstop) (depth_le_depthOfFields hitem))
      | number n =>
          rw [stop?] at h
          split at h <;> cases h
      | _ => cases h

theorem hasLongInteger_of_stop? (h : json.stop? room = some .integerTooLong) :
    json.hasLongInteger := by
  induction room generalizing json with
  | zero =>
      rw [stop?] at h
      cases h
  | succ room ih =>
      cases json with
      | array items =>
          rw [stop?, stopInItems?_eq_findSome?] at h
          obtain ⟨item, hitem, hstop⟩ := List.exists_of_findSome?_eq_some h
          exact hasLongInteger_of_mem hitem (ih hstop)
      | object fields =>
          rw [stop?, stopInFields?_eq_findSome?] at h
          obtain ⟨field, hfield, hstop⟩ := List.exists_of_findSome?_eq_some h
          rw [hasLongInteger, anyLongIntegerField_eq_any, List.any_eq_true]
          exact ⟨field, hfield, ih hstop⟩
      | number n =>
          rw [stop?] at h
          split at h
          · next hlong => exact hlong
          · cases h
      | _ => cases h

/-- Whatever the room, a value that is not stopped holds no long integer. -/
theorem hasLongInteger_eq_false_of_stop? (h : json.stop? room = none) :
    json.hasLongInteger = false := by
  induction room generalizing json with
  | zero =>
      rw [stop?] at h
      cases h
  | succ room ih =>
      cases json with
      | array items =>
          rw [stop?, stopInItems?_eq_findSome?, List.findSome?_eq_none_iff] at h
          rw [hasLongInteger, anyLongInteger_eq_any, List.any_eq_false]
          exact fun item hitem => Bool.not_eq_true _ ▸ ih (h item hitem)
      | object fields =>
          rw [stop?, stopInFields?_eq_findSome?, List.findSome?_eq_none_iff] at h
          rw [hasLongInteger, anyLongIntegerField_eq_any, List.any_eq_false]
          exact fun field hfield => Bool.not_eq_true _ ▸ ih (h field hfield)
      | number n =>
          rw [stop?] at h
          split at h
          · cases h
          · next hshort => exact Bool.not_eq_true _ ▸ hshort
      | _ => rfl

/-! ### Values that are shown -/

variable {showing : Nat}

theorem stop?_of_display_eq_error {excess : Excess} (h : json.display showing = .error excess) :
    json.stop? (showing + 1) = some excess := by
  cases json with
  | text s => cases h
  | _ =>
      rw [display, quoted] at h
      · cases hstop : stop? (showing + 1) _ with
        | none =>
            rw [hstop] at h
            cases h
        | some excess =>
            rw [hstop] at h
            exact congrArg some (Except.error.inj h)
      · exact nofun

theorem stop?_of_display_eq_ok {shown : String} (h : json.display showing = .ok shown) :
    json = .text shown ∨ json.stop? (showing + 1) = none := by
  cases json with
  | text s => exact .inl (congrArg Json.text (Except.ok.inj h))
  | _ =>
      rw [display, quoted] at h
      · cases hstop : stop? (showing + 1) _ with
        | none => exact .inr rfl
        | some excess =>
            rw [hstop] at h
            cases h
      · exact nofun

end TypeSchema.Json
