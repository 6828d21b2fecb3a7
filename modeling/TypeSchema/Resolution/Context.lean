import TypeSchema.Resolution.Table

/-!
# The state of a resolution

A resolution carries the table of finished definitions, the stack of the names of the declarations
that are being resolved, innermost first, and the names that were met again while they were being
resolved. What happens is recorded on the way. A resolution that fails keeps its state, and the
stack is popped however the resolution of a declaration ends.
-/

namespace TypeSchema

structure Context where
  deps : List (String × Schema) := []
  resolving : List String := []
  recursive : List String := []
  events : List Event := []

namespace Context

def note (context : Context) (events : List Event) : Context :=
  { context with events := context.events ++ events }

def enter (context : Context) (name : String) : Context :=
  { context with resolving := name :: context.resolving }

/-- Forgets the declaration that was entered last. -/
def leave (context : Context) : Context :=
  { context with resolving := context.resolving.tail }

/-- Notes that a declaration was met again while it is being resolved. -/
def mark (context : Context) (name : String) : Context :=
  { context with recursive := name :: context.recursive }

def define (context : Context) (name : String) (schema : Schema) : Context :=
  { context with deps := context.deps ++ [(name, schema)] }

variable {c : Context} {events : List Event} {name : String} {s : Schema}

@[simp] theorem note_deps : (c.note events).deps = c.deps := rfl
@[simp] theorem note_resolving : (c.note events).resolving = c.resolving := rfl
@[simp] theorem note_recursive : (c.note events).recursive = c.recursive := rfl

@[simp] theorem enter_deps : (c.enter name).deps = c.deps := rfl
@[simp] theorem enter_resolving : (c.enter name).resolving = name :: c.resolving := rfl
@[simp] theorem enter_recursive : (c.enter name).recursive = c.recursive := rfl

@[simp] theorem leave_deps : c.leave.deps = c.deps := rfl
@[simp] theorem leave_resolving : c.leave.resolving = c.resolving.tail := rfl
@[simp] theorem leave_recursive : c.leave.recursive = c.recursive := rfl

@[simp] theorem mark_deps : (c.mark name).deps = c.deps := rfl
@[simp] theorem mark_resolving : (c.mark name).resolving = c.resolving := rfl
@[simp] theorem mark_recursive : (c.mark name).recursive = name :: c.recursive := rfl

@[simp] theorem define_deps : (c.define name s).deps = c.deps ++ [(name, s)] := rfl
@[simp] theorem define_resolving : (c.define name s).resolving = c.resolving := rfl
@[simp] theorem define_recursive : (c.define name s).recursive = c.recursive := rfl

@[simp] theorem note_nil : c.note [] = c := by simp [note]

theorem note_note (first second : List Event) :
    (c.note first).note second = c.note (first ++ second) := by
  simp [note]

end Context

/-- Why a resolution stops without a schema. -/
inductive Interruption where
  | fault (fault : Fault)
  | depthExceeded

abbrev Resolve := EStateM Interruption Context

namespace Resolve

def fail {α : Type} (problem : Problem) (node : Node) : Resolve α :=
  throw (.fault (.failure ⟨problem, some node⟩))

def ofExcept {α : Type} : Except Failure α → Resolve α
  | .ok a => pure a
  | .error failure => throw (.fault (.failure failure))

def ofInteger {α : Type} : Except Json.IntegerProblem α → Resolve α
  | .ok a => pure a
  | .error problem => throw (.fault (.notInteger problem))

def record (events : List Event) : Resolve Unit :=
  modify fun context => context.note events

def markRecursive (name : String) : Resolve Unit :=
  modify fun context => context.mark name

def define (name : String) (schema : Schema) : Resolve Unit :=
  modify fun context => context.define name schema

/-- Runs the resolution of a declaration under its name. -/
def within {α : Type} (name : String) (body : Resolve α) : Resolve α := fun context =>
  match body (context.enter name) with
  | .ok a after => .ok a after.leave
  | .error interruption after => .error interruption after.leave

end Resolve

end TypeSchema
