import TypeSchema.Proofs.Basic
import TypeSchema.Proofs.Schema.Obstacles
import TypeSchema.Schema.Decoder

/-!
# Written schemas read back

Whatever is written reads back as the schema it was written from, so no two schemas have the same
JSON form. The induction is on the schema; the decoder reads the schemas inside the fields of an
object before it looks at the kind, so the induction hypothesis rewrites the fields, and the kind
then picks the constructor. Models and signatures inherit this from their schemas.
-/

namespace TypeSchema

namespace Schema

theorem decimal?_of_digits {n : Int} {text : String} (h : digits n = .ok text) :
    Json.decimal? (.text text) = some n := by
  unfold digits at h
  split at h
  · cases h
  · next hshort =>
      cases h
      exact Numeral.decimalInteger?_toString hshort

/-- The tag of an object is no schema, and its other fields are read one by one. -/
theorem decode?_tagged (kind : String) (fields : List (String × Json)) :
    decode? (tagged kind fields) =
      ofFields? (("type", ⟨.text kind, none, none⟩) :: decodeFields fields) := rfl

theorem decodeItems?_array (items : List Json) : decodeItems? (.array items) = decodeAll? items :=
  rfl

theorem decode?_bigIntLiteral (literal : Json) :
    decode? (tagged "bigIntLiteral" [("literal", literal)]) =
      literal.decimal?.map bigIntLiteral := by
  cases h : literal.decimal? <;>
    simp [decode?_tagged, decodeFields, ofFields?, lookup_cons, Json.text?, h]

mutual

theorem decode?_of_encode (listing : Nat) : ∀ (schema : Schema) {room : Nat} {json : Json},
    schema.encode listing room = .ok json → decode? json = some schema
  | any | bigInt | number | string | boolean | null | undefined | booleanLiteral _
  | stringLiteral _ | numberLiteral _ | reference _ => by
      intro h
      cases inCalls_eq_ok h
      rfl
  | foreign _ => by
      intro h
      cases inCalls_eq_ok h
  | bigIntLiteral n => by
      intro h
      rw [encode] at h
      obtain ⟨text, htext, ⟨⟩⟩ := except_bind_eq_ok_iff.mp (inCalls_eq_ok h)
      rw [decode?_bigIntLiteral, decimal?_of_digits htext]
      rfl
  | array inner | tupleElement _ inner | member _ _ inner | enumMember _ inner => by
      intro h
      obtain ⟨item, hitem, ⟨⟩⟩ := except_bind_eq_ok_iff.mp (inCalls_eq_ok h)
      simp only [decode?_tagged, decodeFields, decode?_of_encode listing inner hitem]
      rfl
  | union parts | intersection parts | tuple parts | object parts | enum _ parts => by
      intro h
      obtain ⟨items, hitems, ⟨⟩⟩ := except_bind_eq_ok_iff.mp (inCalls_eq_ok h)
      simp only [decode?_tagged, decodeFields, decodeItems?_array,
        decodeAll?_of_encodeAll listing parts (inCalls_eq_ok hitems)]
      rfl

theorem decodeAll?_of_encodeAll (listing : Nat) :
    ∀ (schemas : List Schema) {room : Nat} {items : List Json},
      encodeAll listing room schemas = .ok items → decodeAll? items = some schemas
  | [] => by
      intro h
      cases h
      rfl
  | first :: rest => by
      intro h
      obtain ⟨item, hitem, hrest⟩ := except_bind_eq_ok_iff.mp h
      obtain ⟨others, hothers, ⟨⟩⟩ := except_bind_eq_ok_iff.mp hrest
      rw [decodeAll?, decode?_of_encode listing first hitem,
        decodeAll?_of_encodeAll listing rest hothers]
      rfl

end

end Schema

theorem mapM_of_mapM {α β : Type} {write : α → Except EncodeError β} {read? : β → Option α}
    (h : ∀ a b, write a = .ok b → read? b = some a) {as : List α} {bs : List β}
    (hwrite : as.mapM write = .ok bs) : bs.mapM read? = some as := by
  induction as generalizing bs with
  | nil =>
      cases hwrite
      rfl
  | cons a as ih =>
      rw [List.mapM_cons] at hwrite
      obtain ⟨b, hb, hrest⟩ := except_bind_eq_ok_iff.mp hwrite
      obtain ⟨others, hothers, ⟨⟩⟩ := except_bind_eq_ok_iff.mp hrest
      rw [List.mapM_cons, h a b hb, ih hothers]
      rfl

section Reading

variable {listing room : Nat}

theorem Model.decodeDeps_of_encodeDeps {deps : List (String × Schema)}
    {fields : List (String × Json)} (h : encodeDeps listing room deps = .ok fields) :
    fields.mapM decodeDep? = some deps := by
  induction deps generalizing fields with
  | nil =>
      cases h
      rfl
  | cons entry rest ih =>
      obtain ⟨item, hitem, hrest⟩ := except_bind_eq_ok_iff.mp h
      obtain ⟨others, hothers, ⟨⟩⟩ := except_bind_eq_ok_iff.mp hrest
      rw [List.mapM_cons, decodeDep?, Schema.decode?_of_encode listing entry.2 hitem, ih hothers]
      rfl

/-- A model is read from every object that has its two fields. -/
theorem Model.decode?_of_encodeFields {model : Model} {fields : List (String × Json)} {json : Json}
    (h : model.encodeFields listing room = .ok fields)
    (hroot : json.get? "root" = fields.lookup "root")
    (hdeps : json.get? "deps" = fields.lookup "deps") : decode? json = some model := by
  obtain ⟨root, hencoded, hrest⟩ := except_bind_eq_ok_iff.mp (Schema.inCalls_eq_ok h)
  obtain ⟨deps, hentries, ⟨⟩⟩ := except_bind_eq_ok_iff.mp hrest
  have hroot' : (json.get? "root").bind Schema.decode? = some model.root := by
    rw [hroot]
    exact Schema.decode?_of_encode listing model.root hencoded
  have hdeps' : ((json.get? "deps").bind Json.fields?).bind (·.mapM decodeDep?) =
      some model.deps := by
    rw [hdeps]
    exact decodeDeps_of_encodeDeps (Schema.inCalls_eq_ok hentries)
  rw [decode?, hroot', hdeps']
  rfl

theorem Model.decode?_of_encode {model : Model} {json : Json}
    (h : model.encode listing room = .ok json) : decode? json = some model := by
  rw [encode, map_eq_pure_bind, except_bind_eq_ok_iff] at h
  obtain ⟨fields, hfields, ⟨⟩⟩ := h
  exact decode?_of_encodeFields hfields rfl rfl

theorem ParameterSchema.decode?_of_encode {parameter : ParameterSchema} {json : Json}
    (h : parameter.encode listing room = .ok json) : decode? json = some parameter := by
  obtain ⟨fields, hfields, ⟨⟩⟩ := except_bind_eq_ok_iff.mp h
  have hmodel : Model.decode? (.object (("name", .text parameter.name) ::
      ("optional", .bool parameter.optional) :: fields)) = some parameter.model :=
    Model.decode?_of_encodeFields hfields rfl rfl
  rw [decode?, hmodel]
  rfl

theorem SignatureSchema.decode?_of_encode {signature : SignatureSchema} {json : Json}
    (h : signature.encode listing room = .ok json) : decode? json = some signature := by
  obtain ⟨parameters, hparameters, hrest⟩ := except_bind_eq_ok_iff.mp (Schema.inCalls_eq_ok h)
  obtain ⟨returns, hreturns, ⟨⟩⟩ := except_bind_eq_ok_iff.mp hrest
  have hread : parameters.mapM ParameterSchema.decode? = some signature.parameters :=
    mapM_of_mapM (fun _ _ => ParameterSchema.decode?_of_encode) (Schema.inCalls_eq_ok hparameters)
  have hreturns' : Model.decode? returns = some signature.returns :=
    Model.decode?_of_encode hreturns
  change ((parameters.mapM ParameterSchema.decode?).bind fun parameters =>
    (Model.decode? returns).bind fun returns =>
      some (SignatureSchema.mk signature.name parameters returns)) = some signature
  rw [hread, hreturns']
  rfl

end Reading

/-- A value that loses nothing in writing, whatever room there is. It is written exactly if it has
no obstacles, and refused only for one that it has. A foreign schema at any depth refuses it, and
does so by itself where there is room for the calls. What is written reads back, so nothing else is
written the same way. -/
structure Lossless {α : Type} (write : Nat → α → Except EncodeError Json) (read? : Json → Option α)
    (schemas : α → List Schema) (calls : α → Nat) (a : α) : Prop where
  written_iff : ∀ room, (∃ json, write room a = .ok json) ↔ AreWritable (schemas a) (calls a) room
  obstacle : ∀ room error, write room a = .error error →
    IsObstacle (schemas a) (calls a) room error
  refused : ∀ schema ∈ schemas a, ∀ word, schema.Contains (.foreign word) →
    ∀ room, ∃ error, write room a = .error error ∧ (calls a ≤ room → error ≠ .tooDeep)
  reads_back : ∀ room json, write room a = .ok json → read? json = some a
  injective : ∀ b room room' json, write room a = .ok json → write room' b = .ok json → a = b

theorem lossless_of_stops {α : Type} {write : Nat → α → Except EncodeError Json}
    {read? : Json → Option α} {schemas : α → List Schema} {calls : α → Nat} (a : α)
    (stops : ∀ room, Stops (schemas a) (calls a) room (write room a))
    (reads : ∀ a room json, write room a = .ok json → read? json = some a) :
    Lossless write read? schemas calls a where
  written_iff room := (stops room).exists_ok_iff
  obstacle room _ := (stops room).isObstacle
  refused := by
    intro schema hschema word hpart room
    cases hwrite : write room a with
    | ok json =>
        have hwritable := (stops room).exists_ok_iff.mp ⟨json, hwrite⟩
        exact absurd hpart (hwritable.known schema hschema word)
    | error error =>
        refine ⟨error, rfl, ?_⟩
        rintro hroom rfl
        cases (stops room).isObstacle hwrite with
        | tooDeep deep => exact Nat.not_lt.mpr hroom deep
  reads_back := reads a
  injective := by
    intro b room room' json ha hb
    have hread : some a = some b := (reads a room json ha).symm.trans (reads b room' json hb)
    exact Option.some.inj hread

/-- **Nothing is lost in writing.** Schemas, models and signatures are written exactly when no
foreign schema and no bigint literal of too many digits stands in them and there is room for the
calls, and what is written reads back as what it was. -/
theorem writing_lossless (listing : Nat) (schema : Schema) (model : Model)
    (signature : SignatureSchema) :
    Lossless (Schema.encode listing) Schema.decode? (fun schema => [schema])
        (Schema.calls listing) schema ∧
      Lossless (Model.encode listing) Model.decode? Model.schemas (Model.calls listing) model ∧
      Lossless (SignatureSchema.encode listing) SignatureSchema.decode? SignatureSchema.schemas
        (SignatureSchema.calls listing) signature := by
  refine ⟨lossless_of_stops schema ?_ ?_, lossless_of_stops model ?_ ?_,
    lossless_of_stops signature ?_ ?_⟩
  · exact schema.encode_stops listing
  · exact fun _ _ _ => Schema.decode?_of_encode listing _
  · exact fun room => model.encode_stops listing room
  · exact fun _ _ _ => Model.decode?_of_encode
  · exact fun room => signature.encode_stops listing room
  · exact fun _ _ _ => SignatureSchema.decode?_of_encode

/-- No reader gets back every schema that holds no foreign one: the least integer of too many
digits is not written in the first place, however much room there is. -/
theorem not_every_schema_reads_back :
    ¬ ∃ read? : Json → Option Schema, ∀ schema : Schema,
      (∀ word, ¬ schema.Contains (.foreign word)) →
        ∃ listing room json, schema.encode listing room = .ok json ∧ read? json = some schema := by
  rintro ⟨read?, hread⟩
  have hknown : ∀ (n : Int) (word : String),
      ¬ (Schema.bigIntLiteral n).Contains (.foreign word) := by
    intro n word hpart
    cases Schema.contains_bigIntLiteral hpart
  obtain ⟨listing, room, json, hwritten, -⟩ :=
    hread (.bigIntLiteral (10 ^ Number.digitLimit : Nat)) (hknown _)
  have hwritable := (Schema.encode_stops listing _ room).exists_ok_iff.mp ⟨json, hwritten⟩
  have hshort := hwritable.short _ (List.mem_singleton_self _) _ (.here _)
  exact Nat.not_lt.mpr (Int.natAbs_natCast _).ge hshort

end TypeSchema
