import TypeSchema.Json.Basic

/-!
# Locations

Every node of a document knows where it comes from: a file with a line and a column when the
front-end tells them, and in any case a pointer to the JSON value it was read from.
-/

namespace TypeSchema

structure Location where
  file : String
  line : Int
  column : Int
  pointer : Pointer
  deriving DecidableEq

/-- A location in messages. Without a file name or a line, the pointer takes their place. -/
def Location.render (location : Location) : String :=
  if location.file ≠ "" ∧ location.line ≠ 0 then
    s!"{location.file}:{location.line}:{location.column}"
  else location.file ++ location.pointer.render

end TypeSchema
