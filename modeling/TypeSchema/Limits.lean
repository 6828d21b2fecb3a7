/-!
# Limits

The interpreter of a run lets calls be nested only so deep. What reads, shows, resolves or writes a
nested value goes into its parts by such calls, and stops where the limit is reached. How deep a
value may be nested for that depends on how many calls each level takes, so there is a number for
every way in which values are gone through. Nothing is assumed of these numbers.
-/

namespace TypeSchema

structure Limits where
  /-- Arrays and objects in a JSON text, one inside the other. -/
  reading : Nat
  /-- Values inside a value that is shown as a text. -/
  showing : Nat
  /-- Types of a document, one inside the other. -/
  parsing : Nat
  /-- Type expressions that are being resolved, one inside the other. -/
  resolving : Nat
  /-- Calls that are nested while a signature is written as JSON. -/
  encoding : Nat
  /-- Calls among these for each list of schemas, besides those for the schemas. -/
  listing : Nat
  /-- Values in the result of a run, one inside the other. -/
  writing : Nat
  deriving DecidableEq

/-- Numbers that an interpreter allows which stops at about a thousand calls. -/
def Limits.usual : Limits where
  reading := 960
  showing := 900
  parsing := 256
  resolving := 400
  encoding := 960
  listing := 1
  writing := 960

end TypeSchema
