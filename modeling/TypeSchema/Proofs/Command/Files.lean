import Mathlib.Data.List.Infix
import Mathlib.Tactic.MkIffOfInductiveProp
import TypeSchema.Command.Parameters
import TypeSchema.Proofs.Command.Recording

/-!
# Files of the working directory

A file of the working directory has two paths: its last name, and the text that its place is written
as. The one leads to it when it is read as an argument. The other is what a run holds on to, and it
is shortened to the last name when the command line is recorded, unless it is too long a path.
-/

namespace TypeSchema.Command

/-- A text that is split at the character between its parts. -/
theorem splitOn_intercalate {separator : String} {c : Char} {parts : List String}
    (hseparator : separator.toList = [c]) (h : ∀ part ∈ parts, c ∉ part.toList)
    (nonempty : parts ≠ []) :
    ((separator.intercalate parts).toList.splitOn c).map String.ofList = parts := by
  have hparts : ∀ chars ∈ parts.map String.toList, c ∉ chars := by
    simpa using h
  rw [String.toList_intercalate, hseparator,
    List.splitOn_intercalate c hparts (mt List.map_eq_nil_iff.mp nonempty), List.map_map]
  exact (List.map_congr_left fun part _ => String.ofList_toList).trans (List.map_id _)

theorem not_mem_intercalate {separator : List Char} {c : Char} {parts : List (List Char)}
    (hseparator : c ∉ separator) (h : ∀ part ∈ parts, c ∉ part) :
    c ∉ separator.intercalate parts := by
  induction parts with
  | nil => exact List.not_mem_nil
  | cons first rest ih =>
      obtain ⟨hfirst, hrest⟩ := List.forall_mem_cons.mp h
      cases rest with
      | nil => rwa [List.intercalate_singleton]
      | cons =>
          rw [List.intercalate_cons_cons]
          simp [hfirst, hseparator, ih hrest]

theorem splitSlashes_eq_splitOn (cs : List Char) : splitSlashes cs = cs.splitOn '/' := by
  induction cs with
  | nil => rfl
  | cons c rest ih =>
      have hnonempty : rest.splitOn '/' ≠ [] := List.splitOn_ne_nil '/' rest
      rw [splitSlashes, ih, List.splitOn_cons_eq_if_modifyHead]
      cases hrest : rest.splitOn '/' with
      | nil => exact absurd hrest hnonempty
      | cons part parts => simp

theorem pathNames_eq_filter (path : String) :
    pathNames path = ((path.toList.splitOn '/').map String.ofList).filter (· ≠ "") := by
  rw [pathNames, splitSlashes_eq_splitOn, List.filter_map]
  refine congrArg (List.map String.ofList) (List.filter_congr fun chars _ => ?_)
  have hempty : String.ofList chars = "" ↔ chars = [] := by
    rw [← String.toList_inj, String.toList_ofList, String.toList_empty]
  simp [hempty]

/-! ### Places -/

/-- A name that a file or a directory can have. -/
@[mk_iff]
structure IsFileName (name : String) : Prop where
  nonempty : name ≠ ""
  slashless : '/' ∉ name.toList
  noNull : '\x00' ∉ name.toList
  ne_here : name ≠ "."
  ne_parent : name ≠ ".."

instance : DecidablePred IsFileName := fun name => decidable_of_iff _ (isFileName_iff name).symm

namespace Place

variable {place : Place}

theorem render_ne_empty (place : Place) : place.render ≠ "" := by
  intro h
  have hlist := congrArg String.toList h
  rw [render, String.toList_append] at hlist
  cases hlist

theorem toList_render (h : place ≠ []) :
    place.render.toList = (String.intercalate "/" ("" :: place)).toList := by
  obtain ⟨first, rest, rfl⟩ := List.exists_cons_of_ne_nil h
  rw [render, String.toList_append, String.toList_intercalate, String.toList_intercalate,
    List.map_cons, List.map_cons, List.map_cons, List.intercalate_cons_cons]
  rfl

theorem movingNames_render (names : ∀ name ∈ place, IsFileName name) (h : place ≠ []) :
    movingNames place.render = place := by
  have hslashless : ∀ name ∈ "" :: place, '/' ∉ name.toList :=
    List.forall_mem_cons.mpr ⟨List.not_mem_nil, fun name hname => (names name hname).slashless⟩
  have hnames : pathNames place.render = place := by
    rw [pathNames_eq_filter, toList_render h,
      splitOn_intercalate rfl hslashless (List.cons_ne_nil _ _), List.filter_cons_of_neg (by simp),
      List.filter_eq_self]
    simpa using fun name hname => (names name hname).nonempty
  rw [movingNames, hnames, List.filter_eq_self]
  simpa using fun name hname => (names name hname).ne_here

theorem holdsNull_render (names : ∀ name ∈ place, IsFileName name) :
    holdsNull place.render = false := by
  have hparts : ∀ part ∈ place.map String.toList, '\x00' ∉ part := by
    simpa using fun name hname => (names name hname).noNull
  rw [holdsNull, decide_eq_false_iff_not, render, String.toList_append, String.toList_intercalate]
  exact not_or.mpr ⟨by decide, not_mem_intercalate (by decide) hparts⟩ ∘ List.mem_append.mp

end Place

section Texts

variable {showing : Nat} {workspace : Workspace} {text : String}

/-- A text that leads to nothing is recorded as it stands. -/
theorem valueWord_of_missing (missing : ∀ place, workspace.find text ≠ .ok place)
    (short : workspace.find text ≠ .error .nameTooLong) :
    valueWord showing workspace (.text text) = .ok text := by
  rw [valueWord]
  split
  · next place hplace => exact absurd hplace (missing place)
  · next hlong => exact absurd hlong short
  · rfl

/-- A single name is recorded as it stands, whether it leads to something or not. -/
theorem valueWord_of_isFileName (name : IsFileName text)
    (short : workspace.find text ≠ .error .nameTooLong) :
    valueWord showing workspace (.text text) = .ok text := by
  rw [valueWord]
  split
  · rw [lastName, movingNames_single name.slashless name.nonempty name.ne_here]
    rfl
  · next hlong => exact absurd hlong short
  · rfl

theorem find_ne_nameTooLong_of_isFileName (name : IsFileName text)
    (short : text.utf8ByteSize ≤ nameLimit) : workspace.find text ≠ .error .nameTooLong := by
  have hmoving := movingNames_single name.slashless name.nonempty name.ne_here
  have hleading : leadingSlashes text = "" := by
    have htake : text.toList.takeWhile (· = '/') = [] := by
      cases hchars : text.toList with
      | nil => rfl
      | cons c rest =>
          have hne : ¬ c = '/' := fun heq => name.slashless (by simp [hchars, heq])
          exact List.takeWhile_cons_of_neg (by simpa using hne)
    rw [leadingSlashes, htake]
    rfl
  have htidy : tidyPath text = text := by
    rw [tidyPath, hleading, hmoving, String.empty_append]
    exact if_neg name.nonempty
  have hpath : ¬ pathLimit < (tidyPath text).utf8ByteSize := by
    rw [htidy]
    exact Nat.not_lt.mpr (short.trans (by decide))
  rw [Workspace.find, if_neg hpath, hmoving, Workspace.walk, if_neg name.ne_here,
    if_neg name.ne_parent, if_neg (Nat.not_lt.mpr short)]
  split_ifs <;> simp [Workspace.walk]

/-- A path that is read leads to something that exists and may be read. -/
theorem existing_eq_ok_iff {parameter path : String} {place : Place} :
    existing workspace parameter path = .ok place ↔ checkPath path = .ok () ∧
      workspace.resolve path = place ∧ workspace.contains place ∧ workspace.mayRead place := by
  rw [existing, except_bind_eq_ok_iff]
  constructor
  · rintro ⟨⟨⟩, hcheck, h⟩
    obtain ⟨hcontains, h⟩ := except_unless_eq_ok_iff.mp h
    obtain ⟨hreadable, h⟩ := except_unless_eq_ok_iff.mp h
    obtain rfl := except_pure_eq_ok_iff.mp h
    exact ⟨hcheck, rfl, by simpa using hcontains, by simpa using hreadable⟩
  · rintro ⟨hcheck, rfl, hcontains, hreadable⟩
    refine ⟨(), hcheck, except_unless_eq_ok_iff.mpr ⟨by simpa using hcontains, ?_⟩⟩
    exact except_unless_eq_ok_iff.mpr ⟨by simpa using hreadable, rfl⟩

end Texts

namespace Workspace

variable {showing : Nat} {workspace : Workspace} {place : Place}

theorem isDirectory_of_prefix {front : Place} (h : front <+: workspace.directory) :
    workspace.isDirectory front := by
  simp [isDirectory, h]

/-- A file in the working directory itself. -/
structure HoldsFile (workspace : Workspace) (place : Place) : Prop where
  inside : place = workspace.directory ++ [place.name]
  contents : (workspace.contents? place).isSome
  names : ∀ name ∈ place, IsFileName name

namespace HoldsFile

variable (file : workspace.HoldsFile place)
include file

theorem ne_nil : place ≠ [] := by
  rw [file.inside]
  simp

theorem isFileName : IsFileName place.name := by
  refine file.names _ ?_
  rw [file.inside]
  simp [Place.name]

/-- Everything on the way to the file exists. -/
theorem contains_of_prefix {front : Place} (h : front <+: place) : workspace.contains front := by
  rw [file.inside, List.prefix_concat_iff] at h
  rw [Workspace.contains, Bool.or_eq_true]
  obtain heq | hprefix := h
  · left
    rw [heq, ← file.inside]
    exact file.contents
  · right
    exact isDirectory_of_prefix hprefix

/-- Everything before the file is a directory. -/
theorem isDirectory_of_before {front : Place} {next : String} (h : front ++ [next] <+: place) :
    workspace.isDirectory front := by
  refine isDirectory_of_prefix ?_
  rw [file.inside, List.prefix_concat_iff] at h
  obtain heq | hprefix := h
  · rw [(List.append_inj' heq rfl).1]
  · exact (List.prefix_append front [next]).trans hprefix

/-- The way to the file can be gone unless one of its names is too long. -/
theorem walk_rest {front rest : Place} (h : place = front ++ rest) :
    workspace.walk front rest = .ok place ∨ workspace.walk front rest = .error .nameTooLong := by
  induction rest generalizing front with
  | nil =>
      left
      rw [walk, h, List.append_nil]
  | cons name rest ih =>
      have hprefix : front ++ [name] <+: place := ⟨rest, by simp [h]⟩
      have hname : IsFileName name := file.names name (by simp [h])
      rw [walk, if_neg (by simp [file.isDirectory_of_before hprefix]), if_neg hname.ne_here,
        if_neg hname.ne_parent, if_pos (file.contains_of_prefix hprefix)]
      split_ifs
      · exact .inr rfl
      · exact ih (by simp [h])

theorem find_render (short : workspace.find place.render ≠ .error .nameTooLong) :
    workspace.find place.render = .ok place := by
  have hstart : workspace.start place.render = [] := if_pos (by simp [isAbsolute, Place.render])
  have hmoving : movingNames place.render = place := Place.movingNames_render file.names file.ne_nil
  have hnull : ¬ holdsNull place.render := by
    rw [Place.holdsNull_render file.names]
    exact Bool.false_ne_true
  rw [find, if_neg hnull, hstart, hmoving] at short ⊢
  split_ifs at short ⊢
  · exact absurd rfl short
  · exact (file.walk_rest rfl).resolve_right short

/-- What a run holds on to is shortened to the last name. -/
theorem valueWord_render (short : workspace.find place.render ≠ .error .nameTooLong) :
    valueWord showing workspace (.text place.render) = .ok place.name := by
  rw [valueWord, file.find_render short, lastName,
    Place.movingNames_render file.names file.ne_nil]
  rfl

/-- The last name leads back to the file. -/
theorem existing_name (readable : workspace.mayRead place) (parameter : String) :
    existing workspace parameter place.name = .ok place := by
  have hname := file.isFileName
  have hresolve : workspace.resolve place.name = place := by
    rw [resolve, start_single workspace hname.slashless,
      movingNames_single hname.slashless hname.nonempty hname.ne_here]
    exact (if_neg hname.ne_parent).trans file.inside.symm
  have hnull : checkPath place.name = .ok () := if_neg (by simpa [holdsNull] using hname.noNull)
  exact existing_eq_ok_iff.mpr
    ⟨hnull, hresolve, file.contains_of_prefix List.prefix_rfl, readable⟩

end HoldsFile

end Workspace

end TypeSchema.Command
