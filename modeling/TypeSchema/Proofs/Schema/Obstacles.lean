import Mathlib.Order.MinMax
import TypeSchema.Proofs.Number.Numeral
import TypeSchema.Schema.Parts

/-!
# What stops the writing of a schema

Writing a schema stops at one of its obstacles, and succeeds if it has none. The obstacles of a
schema are those of its parts, each with the room that the calls around it leave. So a schema is
written exactly when no foreign schema stands in it, no bigint literal of too many digits does, and
there is room for all its calls. Models and signatures are written schema by schema.
-/

namespace TypeSchema

namespace Schema

/-! ### Parts -/

mutual

/-- What holds of a schema as soon as it holds of its children holds of every schema. -/
theorem induction_on_children {P : Schema → Prop}
    (step : ∀ schema : Schema, (∀ child ∈ schema.children, P child) → P schema) :
    ∀ schema : Schema, P schema
  | any | bigInt | number | string | boolean | null | undefined | booleanLiteral _
  | stringLiteral _ | numberLiteral _ | bigIntLiteral _ | reference _ | foreign _ =>
      step _ fun _ hchild => absurd hchild List.not_mem_nil
  | array inner | tupleElement _ inner | member _ _ inner | enumMember _ inner =>
      step _ fun _ hchild => List.mem_singleton.mp hchild ▸ induction_on_children step inner
  | union parts | intersection parts | tuple parts | object parts | enum _ parts =>
      step _ (forall_of_children step parts)

theorem forall_of_children {P : Schema → Prop}
    (step : ∀ schema : Schema, (∀ child ∈ schema.children, P child) → P schema) :
    ∀ schemas : List Schema, ∀ schema ∈ schemas, P schema
  | [] => fun _ h => absurd h List.not_mem_nil
  | first :: rest =>
      List.forall_mem_cons.mpr ⟨induction_on_children step first, forall_of_children step rest⟩

end

theorem contains_iff {schema part : Schema} :
    schema.Contains part ↔ part = schema ∨ ∃ child ∈ schema.children, child.Contains part := by
  constructor
  · intro h
    cases h with
    | here => exact .inl rfl
    | deeper hchild hpart => exact .inr ⟨_, hchild, hpart⟩
  · rintro (rfl | ⟨child, hchild, hpart⟩)
    · exact .here _
    · exact .deeper hchild hpart

end Schema

/-! ### Obstacles -/

section Obstacles

variable {schemas others : List Schema} {calls calls' room extra : Nat} {error : EncodeError}

theorem areWritable_iff :
    AreWritable schemas calls room ↔ ∀ error, ¬ IsObstacle schemas calls room error := by
  constructor
  · rintro ⟨hknown, hshort, hshallow⟩ error h
    cases h with
    | unknownKind hschema hpart => exact hknown _ hschema _ hpart
    | tooManyDigits hschema hpart long =>
        exact Nat.not_lt.mpr long (hshort _ hschema _ hpart)
    | tooDeep deep => exact Nat.not_lt.mpr hshallow deep
  · intro h
    refine ⟨?_, ?_, ?_⟩
    · exact fun _ hschema _ hpart => h _ (.unknownKind hschema hpart)
    · intro _ hschema n hpart
      by_contra hlong
      exact h _ (.tooManyDigits hschema hpart (Nat.not_lt.mp hlong))
    · exact Nat.not_lt.mp fun deep => h _ (.tooDeep deep)

/-- Two lists of schemas have their obstacles together, if each needs its calls. -/
theorem isObstacle_append :
    IsObstacle (schemas ++ others) (max calls calls') room error ↔
      IsObstacle schemas calls room error ∨ IsObstacle others calls' room error := by
  constructor
  · intro h
    cases h with
    | unknownKind hschema hpart =>
        exact (List.mem_append.mp hschema).imp (.unknownKind · hpart) (.unknownKind · hpart)
    | tooManyDigits hschema hpart long =>
        exact (List.mem_append.mp hschema).imp (.tooManyDigits · hpart long)
          (.tooManyDigits · hpart long)
    | tooDeep deep => exact (lt_max_iff.mp deep).imp .tooDeep .tooDeep
  · rintro (h | h)
    · cases h with
      | unknownKind hschema hpart => exact .unknownKind (List.mem_append_left _ hschema) hpart
      | tooManyDigits hschema hpart long =>
          exact .tooManyDigits (List.mem_append_left _ hschema) hpart long
      | tooDeep deep => exact .tooDeep (lt_max_of_lt_left deep)
    · cases h with
      | unknownKind hschema hpart => exact .unknownKind (List.mem_append_right _ hschema) hpart
      | tooManyDigits hschema hpart long =>
          exact .tooManyDigits (List.mem_append_right _ hschema) hpart long
      | tooDeep deep => exact .tooDeep (lt_max_of_lt_right deep)

/-- Inside more calls there is less room. -/
theorem isObstacle_add :
    IsObstacle schemas (calls + extra) room error ↔
      (room < extra ∧ error = .tooDeep) ∨ IsObstacle schemas calls (room - extra) error := by
  constructor
  · intro h
    cases h with
    | unknownKind hschema hpart => exact .inr (.unknownKind hschema hpart)
    | tooManyDigits hschema hpart long => exact .inr (.tooManyDigits hschema hpart long)
    | tooDeep deep =>
        by_cases hextra : room < extra
        · exact .inl ⟨hextra, rfl⟩
        · exact .inr (.tooDeep (by omega))
  · rintro (⟨hextra, rfl⟩ | h)
    · exact .tooDeep (by omega)
    · cases h with
      | unknownKind hschema hpart => exact .unknownKind hschema hpart
      | tooManyDigits hschema hpart long => exact .tooManyDigits hschema hpart long
      | tooDeep deep => exact .tooDeep (by omega)

/-- A schema around others has their obstacles, unless it is one itself. -/
theorem isObstacle_singleton {schema : Schema} (hforeign : ∀ word, schema ≠ .foreign word)
    (hliteral : ∀ n, schema ≠ .bigIntLiteral n) :
    IsObstacle [schema] calls room error ↔ IsObstacle schema.children calls room error := by
  constructor
  · intro h
    cases h with
    | unknownKind hschema hpart =>
        cases List.mem_singleton.mp hschema
        obtain hself | ⟨child, hchild, hpart⟩ := Schema.contains_iff.mp hpart
        · exact absurd hself.symm (hforeign _)
        · exact .unknownKind hchild hpart
    | tooManyDigits hschema hpart long =>
        cases List.mem_singleton.mp hschema
        obtain hself | ⟨child, hchild, hpart⟩ := Schema.contains_iff.mp hpart
        · exact absurd hself.symm (hliteral _)
        · exact .tooManyDigits hchild hpart long
    | tooDeep deep => exact .tooDeep deep
  · intro h
    cases h with
    | unknownKind hchild hpart =>
        exact .unknownKind (List.mem_singleton_self _) (.deeper hchild hpart)
    | tooManyDigits hchild hpart long =>
        exact .tooManyDigits (List.mem_singleton_self _) (.deeper hchild hpart) long
    | tooDeep deep => exact .tooDeep deep

end Obstacles

/-! ### Stopping at obstacles -/

/-- A writing of schemas that stops at one of their obstacles, and succeeds if there are none. -/
inductive Stops (schemas : List Schema) (calls room : Nat) {α : Type} : Except EncodeError α → Prop
  | never (a : α) (h : ∀ error, ¬ IsObstacle schemas calls room error) :
      Stops schemas calls room (.ok a)
  | at {error : EncodeError} (h : IsObstacle schemas calls room error) :
      Stops schemas calls room (.error error)

section Writings

variable {α β : Type} {x : Except EncodeError α} {f : α → Except EncodeError β}
  {body : Nat → Except EncodeError α} {schemas others : List Schema}
  {calls calls' room room' extra : Nat}

theorem Stops.congr (hx : Stops schemas calls room x)
    (h : ∀ error, IsObstacle schemas calls room error ↔ IsObstacle others calls' room' error) :
    Stops others calls' room' x := by
  cases hx with
  | never a hnone => exact .never a fun error herror => hnone error ((h error).mpr herror)
  | «at» herror => exact .at ((h _).mp herror)

theorem Stops.bind (hx : Stops schemas calls room x) (hf : ∀ a, Stops others calls' room (f a)) :
    Stops (schemas ++ others) (max calls calls') room (x >>= f) := by
  cases hx with
  | «at» herror => exact .at (isObstacle_append.mpr (.inl herror))
  | never a hnone =>
      change Stops _ _ _ (f a)
      have hadded : ∀ error, ¬ IsObstacle schemas calls room error := hnone
      refine (hf a).congr fun error => ?_
      rw [isObstacle_append, or_iff_right (hadded error)]

theorem Stops.map (hx : Stops schemas calls room x) (g : α → β) :
    Stops schemas calls room (x >>= fun a => pure (g a)) := by
  cases hx with
  | «at» herror => exact .at herror
  | never a hnone => exact .never (g a) hnone

theorem Stops.inCalls (h : Stops schemas calls (room - extra) (body (room - extra))) :
    Stops schemas (calls + extra) room (Schema.inCalls extra room body) := by
  rw [Schema.inCalls]
  split
  · next hextra => exact .at (isObstacle_add.mpr (.inl ⟨hextra, rfl⟩))
  · next hextra =>
      refine h.congr fun error => ?_
      rw [isObstacle_add, or_iff_right fun hshort => hextra hshort.1]

theorem Stops.exists_ok_iff (hx : Stops schemas calls room x) :
    (∃ a, x = .ok a) ↔ AreWritable schemas calls room := by
  rw [areWritable_iff]
  cases hx with
  | never a hnone => exact iff_of_true ⟨a, rfl⟩ hnone
  | «at» herror => exact iff_of_false (fun ⟨_, h⟩ => nomatch h) fun hnone => hnone _ herror

theorem Stops.isObstacle {error : EncodeError} (hx : Stops schemas calls room x)
    (h : x = .error error) : IsObstacle schemas calls room error := by
  cases hx with
  | never a _ => cases h
  | «at» herror =>
      cases h
      exact herror

theorem stops_nil (a : α) : Stops [] 0 room (.ok a) :=
  .never a fun _ h => by
    cases h with
    | unknownKind hschema _ | tooManyDigits hschema _ _ => exact absurd hschema List.not_mem_nil
    | tooDeep deep => exact absurd deep (Nat.not_lt_zero _)

theorem stops_mapM {ι : Type} {run : ι → Except EncodeError α} {found : ι → List Schema}
    {count : ι → Nat} (h : ∀ i, Stops (found i) (count i) room (run i)) (is : List ι) :
    Stops (is.flatMap found) ((is.map count).foldr max 0) room (is.mapM run) := by
  induction is with
  | nil => exact stops_nil _
  | cons i is ih =>
      rw [List.flatMap_cons, List.mapM_cons]
      exact (h i).bind fun _ => ih.map _

end Writings

/-! ### Schemas, models and signatures -/

namespace Schema

/-- The writing of a schema around others takes a call, and theirs inside it. -/
theorem stops_of_children {schema : Schema} {calls room : Nat} {α : Type}
    {body : Nat → Except EncodeError α} (hforeign : ∀ word, schema ≠ .foreign word)
    (hliteral : ∀ n, schema ≠ .bigIntLiteral n)
    (h : Stops schema.children calls (room - 1) (body (room - 1))) :
    Stops [schema] (calls + 1) room (inCalls 1 room body) :=
  Stops.inCalls (h.congr fun _ => (isObstacle_singleton hforeign hliteral).symm)

theorem stops_leaf {schema : Schema} {room : Nat} (json : Json) (hchildren : schema.children = [])
    (hforeign : ∀ word, schema ≠ .foreign word) (hliteral : ∀ n, schema ≠ .bigIntLiteral n) :
    Stops [schema] 1 room (inCalls 1 room fun _ => .ok json) := by
  have h : Stops schema.children 0 (room - 1) (.ok json) := hchildren ▸ stops_nil json
  exact stops_of_children hforeign hliteral h

theorem contains_bigIntLiteral {n : Int} {part : Schema} (h : (bigIntLiteral n).Contains part) :
    part = bigIntLiteral n := by
  obtain hself | ⟨_, hchild, _⟩ := contains_iff.mp h
  · exact hself
  · exact absurd hchild List.not_mem_nil

theorem digits_stops (n : Int) (room : Nat) :
    Stops [bigIntLiteral n] 0 room (digits n) := by
  rw [digits]
  split
  · next hlong =>
      exact .at (.tooManyDigits (List.mem_singleton_self _) (.here _)
        (Number.isTooLong_integer_iff.mp hlong))
  · next hshort =>
      refine .never _ fun error h => ?_
      cases h with
      | unknownKind hschema hpart =>
          cases List.mem_singleton.mp hschema
          cases contains_bigIntLiteral hpart
      | tooManyDigits hschema hpart hlong =>
          cases List.mem_singleton.mp hschema
          cases contains_bigIntLiteral hpart
          exact hshort (Number.isTooLong_integer_iff.mpr hlong)
      | tooDeep deep => exact absurd deep (Nat.not_lt_zero _)

theorem stops_bigIntLiteral (listing room : Nat) (n : Int) :
    Stops [bigIntLiteral n] (0 + 1) room ((bigIntLiteral n).encode listing room) := by
  rw [encode]
  exact Stops.inCalls ((digits_stops n _).map _)

theorem stops_foreign (listing room : Nat) (word : String) :
    Stops [foreign word] (0 + 1) room ((foreign word).encode listing room) :=
  Stops.inCalls (.at (.unknownKind (List.mem_singleton_self _) (.here _)))

mutual

theorem encode_stops (listing : Nat) : ∀ (schema : Schema) (room : Nat),
    Stops [schema] (schema.calls listing) room (schema.encode listing room)
  | any, _ | bigInt, _ | number, _ | string, _ | boolean, _ | null, _ | undefined, _
  | booleanLiteral _, _ | stringLiteral _, _ | numberLiteral _, _ | reference _, _ =>
      stops_leaf _ rfl nofun nofun
  | foreign word, _ => stops_foreign listing _ word
  | bigIntLiteral n, _ => stops_bigIntLiteral listing _ n
  | array inner, _ | tupleElement _ inner, _ | member _ _ inner, _ | enumMember _ inner, _ =>
      stops_of_children nofun nofun ((encode_stops listing inner _).map _)
  | union parts, _ | intersection parts, _ | tuple parts, _ | object parts, _ | enum _ parts, _ =>
      stops_of_children nofun nofun (Stops.inCalls (encodeAll_stops listing parts _) |>.map _)

theorem encodeAll_stops (listing : Nat) : ∀ (schemas : List Schema) (room : Nat),
    Stops schemas (callsOfAll listing schemas) room (encodeAll listing room schemas)
  | [], _ => stops_nil _
  | first :: rest, _ =>
      (encode_stops listing first _).bind fun _ => (encodeAll_stops listing rest _).map _

end

end Schema

theorem encodeDeps_stops (listing room : Nat) (deps : List (String × Schema)) :
    Stops (deps.map Prod.snd) (Schema.callsOfAll listing (deps.map Prod.snd)) room
      (encodeDeps listing room deps) := by
  induction deps with
  | nil => exact stops_nil _
  | cons entry rest ih => exact (entry.2.encode_stops listing room).bind fun _ => ih.map _

theorem Model.encodeFields_stops (listing room : Nat) (model : Model) :
    Stops model.schemas (model.calls listing) room (model.encodeFields listing room) :=
  Stops.inCalls <| (model.root.encode_stops listing _).bind fun _ =>
    (Stops.inCalls (encodeDeps_stops listing _ model.deps)).map _

theorem Model.encode_stops (listing room : Nat) (model : Model) :
    Stops model.schemas (model.calls listing) room (model.encode listing room) := by
  rw [encode, map_eq_pure_bind]
  exact (model.encodeFields_stops listing room).map _

theorem ParameterSchema.encode_stops (listing room : Nat) (parameter : ParameterSchema) :
    Stops parameter.model.schemas (parameter.model.calls listing) room
      (parameter.encode listing room) :=
  (parameter.model.encodeFields_stops listing room).map _

theorem SignatureSchema.encode_stops (listing room : Nat) (signature : SignatureSchema) :
    Stops signature.schemas (signature.calls listing) room (signature.encode listing room) :=
  Stops.inCalls <|
    (Stops.inCalls (stops_mapM (ParameterSchema.encode_stops listing _)
      signature.parameters)).bind fun _ => (signature.returns.encode_stops listing _).map _

end TypeSchema
