import TypeSchema.Format.Reader
import TypeSchema.Proofs.Basic
import TypeSchema.Proofs.Format.Rules
import TypeSchema.Source.Unlocated

/-!
# The file of a document

A reader of documents is told now and then which file its documents come from, and it falls back to
the last one that it was told. Two readings of one document that fall back to different files end
with the same error, or with documents that differ in their locations only. That is stated as a
relation of two readings and carried from the readers of the parts to those of the nodes.

A document that is rejected, however, may have told its file before it was rejected, and that file
is remembered. So the rejected documents of a session show in the locations of later ones: exactly
where a later document comes without a file and the last file told before it belongs to one that was
rejected.
-/

namespace TypeSchema.Format

/-! ### Two readings of one value -/

/-- Two readings end with the same error, or with results that agree in what is kept of them. -/
def Agree {α β : Type} (keep : α → β) (x x' : Except Error α) : Prop := x.map keep = x'.map keep

/-- Wherever the two readers are called, their readings agree. -/
def ReadAlike {α β : Type} (keep : α → β) (read read' : Json → Pointer → Except Error α) : Prop :=
  ∀ json pointer, Agree keep (read json pointer) (read' json pointer)

section Steps

variable {α β γ δ : Type} {keep : α → β} {keep' : γ → δ} {x x' : Except Error α}

theorem agree_refl (keep : α → β) (x : Except Error α) : Agree keep x x := rfl

theorem agree_ok {a a' : α} (h : keep a = keep a') :
    Agree keep (.ok a : Except Error α) (.ok a') :=
  congrArg Except.ok h

theorem Agree.bind {f f' : α → Except Error γ} (h : Agree keep x x')
    (hf : ∀ a a', keep a = keep a' → Agree keep' (f a) (f' a')) :
    Agree keep' (x >>= f) (x' >>= f') := by
  cases x with
  | error error =>
      cases x' with
      | error error' =>
          obtain rfl := Except.error.inj h
          exact agree_refl keep' _
      | ok a' => cases h
  | ok a =>
      cases x' with
      | error error' => cases h
      | ok a' => exact hf a a' (Except.ok.inj h)

/-- A step that does not depend on the file comes before both readings. -/
theorem agree_bind (x : Except Error α) {f f' : α → Except Error γ}
    (hf : ∀ a, Agree keep' (f a) (f' a)) : Agree keep' (x >>= f) (x >>= f') := by
  refine (agree_refl id x).bind ?_
  rintro a _ rfl
  exact hf a

theorem Agree.map {f f' : α → γ} (h : Agree keep x x')
    (hf : ∀ a a', keep a = keep a' → keep' (f a) = keep' (f' a')) :
    Agree keep' (f <$> x) (f' <$> x') := by
  cases x with
  | error error =>
      cases x' with
      | error error' =>
          obtain rfl := Except.error.inj h
          exact agree_refl keep' _
      | ok a' => cases h
  | ok a =>
      cases x' with
      | error error' => cases h
      | ok a' => exact agree_ok (hf a a' (Except.ok.inj h))

theorem Agree.isOk_eq (h : Agree keep x x') : x.isOk = x'.isOk := by
  cases x with
  | error error =>
      cases x' with
      | error error' => rfl
      | ok a' => cases h
  | ok a =>
      cases x' with
      | error error' => cases h
      | ok a' => rfl

end Steps

/-! ### Readers of fields -/

section Parts

variable {α β : Type} {keep : α → β} {read read' : Json → Pointer → Except Error α}
  (h : ReadAlike keep read read')

include h

theorem ReadAlike.each (pointer : Pointer) (position : Nat) (items : List Json) :
    Agree (List.map keep) (readEach read pointer position items)
      (readEach read' pointer position items) := by
  induction items generalizing position with
  | nil => rfl
  | cons item rest ih =>
      rw [readEach, readEach]
      refine (h item _).bind fun first first' hfirst => ?_
      refine (ih (position + 1)).bind fun others others' hothers => ?_
      refine agree_ok ?_
      rw [List.map_cons, List.map_cons, hfirst, hothers]

theorem ReadAlike.all (json : Json) (field : String) (pointer : Pointer) :
    Agree (List.map keep) (readAll read json field pointer) (readAll read' json field pointer) :=
  agree_bind _ fun items => h.each _ 0 items

theorem ReadAlike.optional (json : Json) (field : String) (pointer : Pointer) :
    Agree (Option.map keep) (readOptional read json field pointer)
      (readOptional read' json field pointer) := by
  rw [readOptional.eq_def, readOptional.eq_def]
  split
  · rfl
  · rfl
  · exact (h _ _).map fun a a' ha => congrArg some ha

theorem ReadAlike.required (missing : Problem) (json : Json) (field : String) (pointer : Pointer) :
    Agree keep (readRequired read missing json field pointer)
      (readRequired read' missing json field pointer) := by
  rw [readRequired.eq_def, readRequired.eq_def]
  split
  · exact h _ _
  · rfl

theorem ReadAlike.atOutermost : ReadAlike keep (atOutermost read) (atOutermost read') := by
  intro json pointer
  have hread := h json pointer
  rw [Format.atOutermost, Format.atOutermost]
  cases hx : read json pointer with
  | error error =>
      cases hx' : read' json pointer with
      | error error' =>
          rw [hx, hx'] at hread
          obtain rfl := Except.error.inj hread
          rfl
      | ok a' =>
          rw [hx, hx'] at hread
          cases hread
  | ok a =>
      cases hx' : read' json pointer with
      | error error' =>
          rw [hx, hx'] at hread
          cases hread
      | ok a' =>
          rw [hx, hx'] at hread
          exact hread

end Parts

/-! ### Readers of nodes -/

section Nodes

variable {showing : Nat} (file file' : String)

/-- Nothing is kept of a location, as it may be that of the file. -/
theorem readLocation_alike :
    ReadAlike (fun _ => ()) (readLocation ⟨file, showing⟩) (readLocation ⟨file', showing⟩) := by
  intro json pointer
  have hfile : ∀ loc, Agree (fun _ => ()) (readFile file loc pointer)
      (readFile file' loc pointer) := by
    intro loc
    rw [readFile.eq_def, readFile.eq_def]
    split <;> rfl
  cases hloc : json.get? "loc" with
  | none =>
      rw [readLocation, readLocation, hloc]
      rfl
  | some loc =>
      cases loc with
      | object fields =>
          rw [readLocation_of_object hloc, readLocation_of_object hloc]
          refine (hfile _).bind fun _ _ _ => ?_
          refine agree_bind _ fun line => ?_
          exact agree_bind _ fun column => rfl
      | _ =>
          rw [readLocation, readLocation, hloc]
          rfl

theorem readLiteralOf_alike (kind : LiteralKind) :
    ReadAlike Literal.unlocated (readLiteralOf ⟨file, showing⟩ kind)
      (readLiteralOf ⟨file', showing⟩ kind) := by
  intro json pointer
  refine agree_bind _ fun text => ?_
  exact (readLocation_alike file file' json pointer).bind fun _ _ _ => rfl

theorem readLiteral_alike :
    ReadAlike Literal.unlocated (readLiteral ⟨file, showing⟩) (readLiteral ⟨file', showing⟩) := by
  intro json pointer
  refine agree_bind _ fun kind => ?_
  split
  · exact readLiteralOf_alike file file' _ json pointer
  · rfl

theorem readInitializer_alike :
    ReadAlike Literal.unlocated (readInitializer ⟨file, showing⟩)
      (readInitializer ⟨file', showing⟩) :=
  fun json pointer => agree_bind _ fun _ => readLiteralOf_alike file file' _ json pointer

theorem readName_alike :
    ReadAlike PropertyName.unlocated (readName ⟨file, showing⟩)
      (readName ⟨file', showing⟩) := by
  intro json pointer
  rw [readName.eq_def, readName.eq_def]
  split
  · rfl
  · refine agree_bind _ fun kind => ?_
    split
    · refine agree_bind _ fun text => ?_
      exact (readLocation_alike file file' _ pointer).bind fun _ _ _ => rfl
    · rfl

theorem readMemberName_alike :
    ReadAlike PropertyName.unlocated (readMemberName ⟨file, showing⟩)
      (readMemberName ⟨file', showing⟩) :=
  fun _ _ => readName_alike file file' _ _

section Types

variable {file file'} {reader reader' : TypeReader}
  (h : ReadAlike TypeExpr.unlocated reader reader')

include h

theorem ReadAlike.property (location location' : Location) :
    ReadAlike Member.unlocated
      (fun json pointer => readProperty ⟨file, showing⟩ reader json pointer location)
      (fun json pointer => readProperty ⟨file', showing⟩ reader' json pointer location') := by
  intro json pointer
  refine (readMemberName_alike file file' json pointer).bind fun name name' hname => ?_
  refine (h.optional json "type" pointer).bind fun type type' htype => agree_ok ?_
  rw [Member.unlocated, Member.unlocated, TypeExpr.unlocatedOption_eq_map,
    TypeExpr.unlocatedOption_eq_map, hname, htype]

theorem ReadAlike.index (location location' : Location) :
    ReadAlike Member.unlocated
      (fun json pointer => readIndex ⟨file, showing⟩ reader json pointer location)
      (fun json pointer => readIndex ⟨file', showing⟩ reader' json pointer location') := by
  intro json pointer
  refine agree_bind _ fun parameters => ?_
  refine agree_bind _ fun _ => ?_
  refine agree_bind _ fun name => ?_
  refine (h.optional _ "type" _).bind fun key key' hkey => ?_
  refine (h.optional json "type" pointer).bind fun type type' htype => agree_ok ?_
  simp only [Member.unlocated, TypeExpr.unlocatedOption_eq_map, hkey, htype]

theorem ReadAlike.member :
    ReadAlike Member.unlocated (readMember ⟨file, showing⟩ reader)
      (readMember ⟨file', showing⟩ reader') := by
  intro json pointer
  refine agree_bind _ fun kind => ?_
  refine (readLocation_alike file file' json pointer).bind fun location location' _ => ?_
  split_ifs
  · exact h.property location location' json pointer
  · exact h.index location location' json pointer
  · refine ((readName_alike file file').optional json "name" pointer).bind fun name name' hname =>
      agree_ok ?_
    rw [Member.unlocated, Member.unlocated, hname]
  · rfl

theorem ReadAlike.members (json : Json) (pointer : Pointer) :
    Agree (List.map Member.unlocated)
      (readAll (readMember ⟨file, showing⟩ reader) json "members" pointer)
      (readAll (readMember ⟨file', showing⟩ reader') json "members" pointer) :=
  h.member.all json "members" pointer

theorem ReadAlike.typeStep :
    ReadAlike TypeExpr.unlocated (readTypeStep ⟨file, showing⟩ reader)
      (readTypeStep ⟨file', showing⟩ reader') := by
  intro json pointer
  refine agree_bind _ fun kind => ?_
  refine (readLocation_alike file file' json pointer).bind fun location location' _ => ?_
  cases keywordKinds.lookup kind with
  | some keyword => rfl
  | none =>
      dsimp only
      split
      · refine ((readLiteral_alike file file').required _ json _ pointer).map ?_
        intro literal literal' hliteral
        rw [TypeExpr.unlocated, TypeExpr.unlocated, hliteral]
      · refine (h.required _ json _ pointer).map fun type type' htype => ?_
        rw [TypeExpr.unlocated, TypeExpr.unlocated, htype]
      · refine (h.all json _ pointer).map fun types types' htypes => ?_
        simp only [TypeExpr.unlocated, TypeExpr.unlocatedAll_eq_map, htypes]
      · refine (h.all json _ pointer).map fun types types' htypes => ?_
        simp only [TypeExpr.unlocated, TypeExpr.unlocatedAll_eq_map, htypes]
      · refine (h.required _ json _ pointer).map fun type type' htype => ?_
        rw [TypeExpr.unlocated, TypeExpr.unlocated, htype]
      · refine (h.all json _ pointer).map fun types types' htypes => ?_
        simp only [TypeExpr.unlocated, TypeExpr.unlocatedAll_eq_map, htypes]
      · refine (h.members json pointer).map fun members members' hmembers => ?_
        simp only [TypeExpr.unlocated, Member.unlocatedAll_eq_map, hmembers]
      · refine agree_bind _ fun name => ?_
        refine (h.all json _ pointer).bind fun types types' htypes => agree_ok ?_
        simp only [TypeExpr.unlocated, TypeExpr.unlocatedAll_eq_map, htypes]
      · rfl

/-- A base is a reference whatever its location is. -/
theorem ReadAlike.base : ReadAlike BaseType.unlocated (readBase reader) (readBase reader') := by
  intro json pointer
  refine (h json pointer).bind fun type type' htype => ?_
  cases type with
  | reference location name arguments =>
      cases type' with
      | reference location' name' arguments' =>
          obtain ⟨-, rfl, harguments⟩ := TypeExpr.reference.inj htype
          refine agree_ok ?_
          rw [TypeExpr.unlocatedAll_eq_map, TypeExpr.unlocatedAll_eq_map] at harguments
          rw [BaseType.unlocated, BaseType.unlocated, harguments]
      | _ => cases htype
  | _ =>
      cases type' with
      | reference => cases htype
      | _ => rfl

end Types

theorem readType_alike (budget : Nat) :
    ReadAlike TypeExpr.unlocated (readType ⟨file, showing⟩ budget)
      (readType ⟨file', showing⟩ budget) := by
  induction budget with
  | zero => exact fun _ _ => rfl
  | succ budget ih => exact ih.typeStep

theorem readEnumMember_alike (enumName : String) :
    ReadAlike EnumMember.unlocated (readEnumMember ⟨file, showing⟩ enumName)
      (readEnumMember ⟨file', showing⟩ enumName) := by
  intro json pointer
  refine agree_bind _ fun _ => ?_
  refine (readMemberName_alike file file' json pointer).bind fun name name' hname => ?_
  refine ((readInitializer_alike file file').optional json _ pointer).bind
    fun initializer initializer' hinitializer => ?_
  refine (readLocation_alike file file' json pointer).bind fun _ _ _ => agree_ok ?_
  have htext : name.text = name'.text :=
    (congrArg PropertyName.text hname : name.unlocated.text = name'.unlocated.text)
  simp only [EnumMember.unlocated, hname, hinitializer, htext]

theorem readDeclaration_alike (budget : Nat) :
    ReadAlike Declaration.unlocated (readDeclaration ⟨file, showing⟩ budget)
      (readDeclaration ⟨file', showing⟩ budget) := by
  intro json pointer
  have htype : ReadAlike TypeExpr.unlocated (readType ⟨file, showing⟩ budget)
      (readType ⟨file', showing⟩ budget) := readType_alike file file' budget
  refine agree_bind _ fun kind => ?_
  refine agree_bind _ fun name => ?_
  refine (readLocation_alike file file' json pointer).bind fun location location' _ => ?_
  dsimp only
  split
  · refine ((readEnumMember_alike file file' name).all json _ pointer).map ?_
    intro members members' hmembers
    rw [Declaration.unlocated, Declaration.unlocated, hmembers]
  · refine (htype.base.all json _ pointer).bind fun bases bases' hbases => ?_
    refine (htype.members json pointer).bind fun members members' hmembers => agree_ok ?_
    rw [Declaration.unlocated, Declaration.unlocated, hbases, hmembers]
  · refine (htype.required _ json _ pointer).map fun type type' htype => ?_
    rw [Declaration.unlocated, Declaration.unlocated, htype]
  · rfl

theorem readParameter_alike (budget : Nat) :
    ReadAlike Parameter.unlocated (readParameter ⟨file, showing⟩ (readType ⟨file, showing⟩ budget))
      (readParameter ⟨file', showing⟩ (readType ⟨file', showing⟩ budget)) := by
  intro json pointer
  refine agree_bind _ fun _ => ?_
  refine agree_bind _ fun name => ?_
  refine ((readType_alike file file' budget).optional json _ pointer).bind
    fun type type' htype => ?_
  refine (readLocation_alike file file' json pointer).bind fun _ _ _ => agree_ok ?_
  simp only [Parameter.unlocated, htype]

theorem readSignature_alike (budget : Nat) :
    ReadAlike Signature.unlocated (readSignature ⟨file, showing⟩ budget)
      (readSignature ⟨file', showing⟩ budget) := by
  intro json pointer
  refine agree_bind _ fun _ => ?_
  refine ((readParameter_alike file file' budget).all json _ pointer).bind
    fun parameters parameters' hparameters => ?_
  refine agree_bind _ fun name => ?_
  refine ((readType_alike file file' budget).optional json _ pointer).bind
    fun type type' htype => ?_
  refine (readLocation_alike file file' json pointer).bind fun _ _ _ => agree_ok ?_
  simp only [Signature.unlocated, hparameters, htype]

end Nodes

/-! ### Documents -/

/-- What a document holds, up to locations, and without the file that it is said to come from. -/
def contentOf (document : Document) : List Declaration × List Signature :=
  (document.declarations.map Declaration.unlocated, document.functions.map Signature.unlocated)

variable {limits : Limits}

theorem readDocument_alike (file file' : String) (json : Json) :
    Agree contentOf (readDocument limits file json) (readDocument limits file' json) := by
  rw [readDocument, readDocument, readDocumentWithin, readDocumentWithin]
  split
  · rfl
  · refine ((readDeclaration_alike file file' limits.parsing).atOutermost.all json _ _).bind
      fun declarations declarations' hdeclarations => ?_
    refine ((readSignature_alike file file' limits.parsing).atOutermost.all json _ _).bind
      fun functions functions' hfunctions => agree_ok ?_
    rw [contentOf, contentOf, hdeclarations, hfunctions]

theorem sourceFile_of_readDocument {file : String} {json : Json} {document : Document}
    (h : readDocument limits file json = .ok document) : document.sourceFile = file := by
  obtain ⟨_, _, _, _, _, rfl⟩ := readDocumentWithin_eq_ok_iff.mp h
  rfl

/-! ### Sessions -/

/-- The results of a session that are kept: all but those of documents rejected for their form. -/
def isKept : Except Error Document → Bool
  | .ok _ => true
  | .error error => !error.problem.isFormal

theorem isKept_of_isOk {result : Except Error Document} (h : result.isOk) : isKept result := by
  cases result with
  | ok document => rfl
  | error error => cases h

theorem Agree.isKept_eq {x x' : Except Error Document} (h : Agree contentOf x x') :
    isKept x = isKept x' := by
  cases x with
  | error error =>
      cases x' with
      | error error' =>
          obtain rfl := Except.error.inj h
          rfl
      | ok document' => cases h
  | ok document =>
      cases x' with
      | error error' => cases h
      | ok document' => rfl

theorem isObject_of_isKept {file : String} {json : Json}
    (h : isKept (readDocument limits file json)) : json.isObject := by
  cases hobject : json.isObject with
  | true => rfl
  | false =>
      rw [readDocument, readDocumentWithin, hobject] at h
      cases h

/-- A document to be read, and the file that is told with it, if any. -/
structure Call where
  json : Json
  file : Option String := none

/-- A document is accepted by every reader or by none. -/
def Call.isAccepted (limits : Limits) (call : Call) : Bool :=
  (readDocument limits "" call.json).isOk

/-- A document is rejected for its form by every reader or by none. -/
def Call.isKept (limits : Limits) (call : Call) : Bool :=
  Format.isKept (readDocument limits "" call.json)

namespace DocumentReader

def answer (limits : Limits) (reader : DocumentReader) (call : Call) : Except Error Document :=
  (reader.read limits call.json call.file).1

def next (limits : Limits) (reader : DocumentReader) (call : Call) : DocumentReader :=
  (reader.read limits call.json call.file).2

/-- The reader as it is after some calls. -/
def after (limits : Limits) (reader : DocumentReader) (calls : List Call) : DocumentReader :=
  calls.foldl (next limits) reader

/-- What the calls of a session end with, one after the other. -/
def answers (limits : Limits) : DocumentReader → List Call → List (Except Error Document)
  | _, [] => []
  | reader, call :: rest =>
    reader.answer limits call :: (reader.next limits call).answers limits rest

section Calls

variable {limits : Limits} (reader reader' : DocumentReader) {call : Call}

theorem isOk_answer (call : Call) : (reader.answer limits call).isOk = call.isAccepted limits :=
  (readDocument_alike _ _ call.json).isOk_eq

theorem isKept_answer (call : Call) : isKept (reader.answer limits call) = call.isKept limits :=
  (readDocument_alike _ _ call.json).isKept_eq

theorem answer_alike (call : Call) :
    Agree contentOf (reader.answer limits call) (reader'.answer limits call) :=
  readDocument_alike _ _ call.json

theorem next_of_isKept (hkept : call.isKept limits) :
    reader.next limits call = ⟨call.file.getD reader.file⟩ :=
  congrArg DocumentReader.mk (if_pos (isObject_of_isKept hkept))

/-- An accepted call shows the file of the reader if no file comes with it; what a call that is kept
without being accepted ends with does not depend on the reader. -/
theorem answer_eq_iff (hkept : call.isKept limits) :
    reader.answer limits call = reader'.answer limits call ↔
      (call.isAccepted limits → call.file = none → reader.file = reader'.file) := by
  have hread : ∀ reader : DocumentReader, reader.answer limits call =
      readDocument limits (call.file.getD reader.file) call.json := fun reader =>
    congrArg (readDocument limits · call.json)
      (congrArg DocumentReader.file (reader.next_of_isKept hkept))
  constructor
  · intro h haccepted hnone
    have hok := (reader.isOk_answer call).trans haccepted
    cases hanswer : reader.answer limits call with
    | error error =>
        rw [hanswer] at hok
        cases hok
    | ok document =>
        have hfile := sourceFile_of_readDocument ((hread reader).symm.trans hanswer)
        have hfile' := sourceFile_of_readDocument
          ((hread reader').symm.trans (h.symm.trans hanswer))
        rw [hnone] at hfile hfile'
        exact hfile.symm.trans hfile'
  · intro h
    by_cases haccepted : call.isAccepted limits
    · rw [hread, hread]
      cases hfile : call.file with
      | none => rw [h haccepted hfile]
      | some file => rfl
    · have halike : Agree contentOf (reader.answer limits call) (reader'.answer limits call) :=
        answer_alike reader reader' call
      rw [← reader.isOk_answer call] at haccepted
      cases hanswer : reader.answer limits call with
      | ok document =>
          rw [hanswer] at haccepted
          exact absurd rfl haccepted
      | error error =>
          cases hanswer' : reader'.answer limits call with
          | ok document =>
              rw [hanswer, hanswer'] at halike
              cases halike
          | error error' =>
              rw [hanswer, hanswer'] at halike
              exact congrArg Except.error (Except.error.inj halike)

end Calls

end DocumentReader

/-- What holds wherever a list is split holds at its head and wherever its tail is split. -/
theorem forall_split_cons {α : Type} {P : List α → α → Prop} {x : α} {xs : List α} :
    (∀ front y back, x :: xs = front ++ y :: back → P front y) ↔
      P [] x ∧ ∀ front y back, xs = front ++ y :: back → P (x :: front) y := by
  constructor
  · intro h
    exact ⟨h [] x xs rfl, fun front y back hxs => h (x :: front) y back (congrArg (x :: ·) hxs)⟩
  · rintro ⟨hhead, htail⟩ front y back hsplit
    cases front with
    | nil =>
        obtain ⟨rfl, -⟩ := List.cons.inj hsplit
        exact hhead
    | cons z front =>
        obtain ⟨rfl, hxs⟩ := List.cons.inj hsplit
        exact htail front y back hxs

namespace DocumentReader

variable {limits : Limits}

theorem isOk_answers (reader : DocumentReader) (calls : List Call) :
    (reader.answers limits calls).map Except.isOk = calls.map (Call.isAccepted limits) := by
  induction calls generalizing reader with
  | nil => rfl
  | cons call rest ih => exact congrArg₂ List.cons (reader.isOk_answer call) (ih _)

theorem isKept_answers (reader : DocumentReader) (calls : List Call) :
    (reader.answers limits calls).map isKept = calls.map (Call.isKept limits) := by
  induction calls generalizing reader with
  | nil => rfl
  | cons call rest ih => exact congrArg₂ List.cons (reader.isKept_answer call) (ih _)

theorem answers_cons_of_isKept (reader : DocumentReader) {call : Call} (rest : List Call)
    (h : call.isKept limits) : (reader.answers limits (call :: rest)).filter isKept =
      reader.answer limits call :: ((reader.next limits call).answers limits rest).filter isKept :=
  List.filter_cons_of_pos ((reader.isKept_answer call).trans h)

theorem answers_cons_of_not_isKept (reader : DocumentReader) {call : Call} (rest : List Call)
    (h : ¬ call.isKept limits) : (reader.answers limits (call :: rest)).filter isKept =
      ((reader.next limits call).answers limits rest).filter isKept :=
  List.filter_cons_of_neg fun hkept => h ((reader.isKept_answer call).symm.trans hkept)

/-- Without its rejected calls a session gives the same documents up to locations. -/
theorem content_without_rejections (reader reader' : DocumentReader) (calls : List Call) :
    ((reader.answers limits calls).filter isKept).map (Except.map contentOf) =
      (reader'.answers limits (calls.filter (Call.isKept limits))).map (Except.map contentOf) := by
  induction calls generalizing reader reader' with
  | nil => rfl
  | cons call rest ih =>
      by_cases hkept : call.isKept limits
      · rw [reader.answers_cons_of_isKept rest hkept, List.filter_cons_of_pos hkept]
        exact congrArg₂ List.cons (answer_alike _ _ call) (ih _ _)
      · rw [reader.answers_cons_of_not_isKept rest hkept, List.filter_cons_of_neg hkept]
        exact ih _ _

/-- The induction is on the session, for two readers: from the first rejected call on, the session
and the one without rejected calls are in different states. -/
theorem answers_eq_iff (reader reader' : DocumentReader) (calls : List Call) :
    (reader.answers limits calls).filter isKept =
        reader'.answers limits (calls.filter (Call.isKept limits)) ↔
      ∀ before call later, calls = before ++ call :: later →
        call.isAccepted limits → call.file = none → (reader.after limits before).file =
          (reader'.after limits (before.filter (Call.isKept limits))).file := by
  induction calls generalizing reader reader' with
  | nil => simp [answers]
  | cons call rest ih =>
      rw [forall_split_cons (P := fun before call => call.isAccepted limits → call.file = none →
        (reader.after limits before).file =
          (reader'.after limits (before.filter (Call.isKept limits))).file)]
      by_cases hkept : call.isKept limits
      · have hafter (before : List Call) :
            reader'.after limits ((call :: before).filter (Call.isKept limits)) =
              (reader'.next limits call).after limits (before.filter (Call.isKept limits)) := by
          rw [List.filter_cons_of_pos hkept]
          rfl
        simp only [hafter]
        rw [reader.answers_cons_of_isKept rest hkept, List.filter_cons_of_pos hkept, answers,
          List.cons.injEq, answer_eq_iff reader reader' hkept, ih]
        rfl
      · have haccepted : ¬ call.isAccepted limits := fun h => hkept (isKept_of_isOk h)
        have hafter (before : List Call) :
            reader'.after limits ((call :: before).filter (Call.isKept limits)) =
              reader'.after limits (before.filter (Call.isKept limits)) := by
          rw [List.filter_cons_of_neg hkept]
        simp only [hafter]
        rw [reader.answers_cons_of_not_isKept rest hkept, List.filter_cons_of_neg hkept, ih]
        exact ⟨fun h => ⟨fun h' => absurd h' haccepted, h⟩, And.right⟩

/-- **What rejected documents leave behind.** Whether a call of a session is accepted, and whether
it is rejected for its form, depends on its document only. Deleting the rejected calls keeps the
documents that the others give, up to locations; it keeps the locations as well exactly if every
accepted call that comes without a file falls back to the file it would fall back to without the
rejected calls before it. -/
theorem rejections_unseen_iff (limits : Limits) (reader : DocumentReader) (calls : List Call) :
    (reader.answers limits calls).map Except.isOk = calls.map (Call.isAccepted limits) ∧
      (reader.answers limits calls).map isKept = calls.map (Call.isKept limits) ∧
      ((reader.answers limits calls).filter isKept).map (Except.map contentOf) =
        (reader.answers limits (calls.filter (Call.isKept limits))).map
          (Except.map contentOf) ∧
      ((reader.answers limits calls).filter isKept =
          reader.answers limits (calls.filter (Call.isKept limits)) ↔
        ∀ before call later, calls = before ++ call :: later →
          call.isAccepted limits → call.file = none → (reader.after limits before).file =
            (reader.after limits (before.filter (Call.isKept limits))).file) :=
  ⟨reader.isOk_answers calls, reader.isKept_answers calls,
    reader.content_without_rejections reader calls, reader.answers_eq_iff reader calls⟩

/-- A function without a name, from a file of its own, and then one with a name and no file. -/
def fallingBack : List Call :=
  [⟨.object [("functions", .array [.object []])], some "broken.json"⟩,
    ⟨.object [("functions", .array [.object [("name", .text "f")]])], none⟩]

def functionIn (file : String) : Document :=
  ⟨[], [⟨some ⟨file, 0, 0, ⟨"#", [.field "functions", .index 0]⟩⟩, "f", [], none⟩], file⟩

theorem rejections_not_always_unseen :
    ¬ ∀ (limits : Limits) (reader : DocumentReader) (calls : List Call),
      (reader.answers limits calls).filter isKept =
        reader.answers limits (calls.filter (Call.isKept limits)) := by
  intro h
  have hwith : (answers .usual ⟨""⟩ fallingBack).filter isKept =
      [.ok (functionIn "broken.json")] := rfl
  have hwithout : answers .usual ⟨""⟩ (fallingBack.filter (Call.isKept .usual)) =
      [.ok (functionIn "")] := rfl
  have heq := (hwith.symm.trans (h .usual ⟨""⟩ fallingBack)).trans hwithout
  have hfile := congrArg Document.sourceFile (Except.ok.inj (List.cons.inj heq).1)
  exact absurd hfile (by decide)

end DocumentReader

end TypeSchema.Format
