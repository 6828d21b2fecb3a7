import TypeSchema.Json.Basic
import TypeSchema.Proofs.Number.Numeral

/-!
# Paths as texts

A location tells its place in a document by a text: the name of the document and then, behind a
slash each, the fields and positions that lead to the value. A reader who has nothing but the text
and the document follows it segment by segment; a segment names a field where an object stands, and
counts items where an array does. Pointers whose field names hold no slash are followed to the same
value by their texts as by their steps.
-/

namespace TypeSchema

namespace Json

/-- The part of a value that a segment of a path leads to. -/
def enter? (json : Json) (segment : List Char) : Option Json :=
  match json with
  | .object fields => fields.lookup (String.ofList segment)
  | .array items => (Numeral.natural? 10 segment).bind (items[·]?)
  | _ => none

/-- The value at the end of a path; what stands before the first slash is the document itself. -/
def followPath? (json : Json) (path : String) : Option Json :=
  (path.toList.splitOn '/').tail.foldlM enter? json

/-- What a step writes into a path. -/
def Step.segment : Step → List Char
  | .field name => name.toList
  | .index position => Nat.toDigits 10 position

variable {json value : Json}

theorem enter?_field (name : String) (h : json.get? name = some value) :
    json.enter? (Step.field name).segment = some value := by
  cases json with
  | object fields =>
      rw [enter?, Step.segment, String.ofList_toList]
      exact h
  | _ => cases h

theorem enter?_index (position : Nat) (h : json.item? position = some value) :
    json.enter? (Step.index position).segment = some value := by
  cases json with
  | array items =>
      rw [enter?, Step.segment, Numeral.natural?_toDigits (by decide) (by decide)]
      exact h
  | _ => cases h

/-- Segments lead wherever the steps do that wrote them. -/
theorem foldlM_enter?_segments {steps : List Step} (h : json.follow? steps = some value) :
    (steps.map Step.segment).foldlM enter? json = some value := by
  induction steps generalizing json with
  | nil => exact h
  | cons step rest ih =>
      rw [List.map_cons, List.foldlM_cons]
      cases step with
      | field name =>
          obtain ⟨inner, hinner, hrest⟩ := Option.bind_eq_some_iff.mp h
          rw [enter?_field name hinner]
          exact ih hrest
      | index position =>
          obtain ⟨inner, hinner, hrest⟩ := Option.bind_eq_some_iff.mp h
          rw [enter?_index position hinner]
          exact ih hrest

end Json

namespace Pointer

open Json

/-- No name in the pointer can be taken for two segments. -/
structure IsPlain (pointer : Pointer) : Prop where
  base : '/' ∉ pointer.base.toList
  names : ∀ name, Step.field name ∈ pointer.steps → '/' ∉ name.toList

theorem intercalate_append_cons (front back : List Char) (segments : List (List Char)) :
    ['/'].intercalate ((front ++ back) :: segments) =
      front ++ ['/'].intercalate (back :: segments) := by
  cases segments with
  | nil => rw [List.intercalate_singleton, List.intercalate_singleton]
  | cons segment rest =>
      rw [List.intercalate_cons_cons, List.intercalate_cons_cons]
      simp only [List.append_assoc]

theorem toList_render (pointer : Pointer) :
    pointer.render.toList =
      ['/'].intercalate (pointer.base.toList :: pointer.steps.map Step.segment) := by
  obtain ⟨base, steps⟩ := pointer
  induction steps generalizing base with
  | nil => simp [render]
  | cons step rest ih =>
      -- The first step moves into the base, and the rest is written behind that.
      have hbase : ∀ segment : String, segment.toList = step.segment →
          ['/'].intercalate ((base ++ "/" ++ segment).toList :: rest.map Step.segment) =
            ['/'].intercalate (base.toList :: (step :: rest).map Step.segment) := by
        intro segment hsegment
        rw [String.toList_append, String.toList_append, hsegment, intercalate_append_cons,
          List.map_cons, List.intercalate_cons_cons]
        rfl
      cases step with
      | field name =>
          rw [← hbase name rfl, ← ih]
          rfl
      | index position =>
          rw [← hbase (toString position) Nat.toList_repr, ← ih]
          rfl

theorem IsPlain.slashless {pointer : Pointer} (plain : pointer.IsPlain) :
    ∀ segment ∈ pointer.base.toList :: pointer.steps.map Step.segment, '/' ∉ segment := by
  intro segment hsegment
  obtain rfl | hsegment := List.mem_cons.mp hsegment
  · exact plain.base
  obtain ⟨step, hstep, rfl⟩ := List.mem_map.mp hsegment
  cases step with
  | field name => exact plain.names name hstep
  | index position =>
      have hdigits : ∀ c ∈ Nat.toDigits 10 position, c ≠ '/' :=
        Numeral.forall_mem_toDigits (by decide) (by decide) (by decide) position
      exact fun hslash => hdigits _ hslash rfl

/-- **The text of a plain pointer** leads to the value that the pointer leads to. -/
theorem IsPlain.followPath?_render {pointer : Pointer} {json value : Json}
    (plain : pointer.IsPlain) (h : json.follow? pointer.steps = some value) :
    json.followPath? pointer.render = some value := by
  rw [followPath?, toList_render,
    List.splitOn_intercalate '/' plain.slashless (List.cons_ne_nil _ _)]
  exact foldlM_enter?_segments h

end Pointer

end TypeSchema
