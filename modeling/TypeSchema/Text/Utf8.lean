import TypeSchema.Text.CodePoint

/-!
# Decoding UTF-8

The bytes of a file are decoded strictly. Bytes that are the UTF-8 form of no text are refused with
the place of the first that cannot be decoded. Up to three of them are told together: those that
could have been the beginning of a character.
-/

namespace TypeSchema.Text

inductive ByteFault where
  | invalidStart
  | invalidContinuation
  | unexpectedEnd
  deriving DecidableEq

def ByteFault.message : ByteFault → String
  | invalidStart => "invalid start byte"
  | invalidContinuation => "invalid continuation byte"
  | unexpectedEnd => "unexpected end of data"

/-- Bytes that cannot be decoded: how many, from which position on and which is the first. -/
structure DecodeProblem where
  fault : ByteFault
  position : Nat
  count : Nat
  byte : Nat
  deriving DecidableEq

def DecodeProblem.message (problem : DecodeProblem) : String :=
  let bytes :=
    if problem.count = 1 then
      s!"byte 0x{String.ofList (hexPadded 2 problem.byte)} in position {problem.position}"
    else s!"bytes in position {problem.position}-{problem.position + problem.count - 1}"
  s!"'utf-8' codec can't decode {bytes}: {problem.fault.message}"

/-- How many bytes have to follow the first byte of a character. -/
def continuationCount (byte : Nat) : Nat :=
  if 0xC2 ≤ byte ∧ byte ≤ 0xDF then 1
  else if 0xE0 ≤ byte ∧ byte ≤ 0xEF then 2
  else if 0xF0 ≤ byte ∧ byte ≤ 0xF4 then 3
  else 0

/-- Whether a byte may follow the first byte of a character as its second. -/
def mayFollow (first second : Nat) : Bool :=
  let least := if first = 0xE0 then 0xA0 else if first = 0xF0 then 0x90 else 0x80
  let greatest := if first = 0xED then 0x9F else if first = 0xF4 then 0x8F else 0xBF
  least ≤ second && second ≤ greatest

/-- How many of the bytes after the first byte of a character continue it. -/
def continued (first : Nat) : List Nat → Nat
  | [] => 0
  | second :: rest =>
    if mayFollow first second then
      1 + (rest.takeWhile fun byte => 0x80 ≤ byte && byte ≤ 0xBF).length
    else 0

/-- The problem with bytes of which the first ones are not a character. -/
def decodeProblem (position : Nat) : List Nat → DecodeProblem
  | [] => ⟨.unexpectedEnd, position, 0, 0⟩
  | first :: rest =>
    let expected := rest.take (continuationCount first)
    let count := continued first expected
    let fault :=
      if continuationCount first = 0 then .invalidStart
      else if count = expected.length then .unexpectedEnd
      else .invalidContinuation
    ⟨fault, position, 1 + count, first⟩

/-- The position of the first byte from which on no character can be decoded. -/
def firstUndecodable (bytes : ByteArray) : (fuel position : Nat) → Nat
  | 0, position => position
  | fuel + 1, position =>
    match bytes.utf8DecodeChar? position with
    | some c => firstUndecodable bytes fuel (position + c.utf8Size)
    | none => position

/-- The text that bytes are the UTF-8 form of. -/
def decode (bytes : ByteArray) : Except DecodeProblem String :=
  match String.fromUTF8? bytes with
  | some s => .ok s
  | none =>
    let position := firstUndecodable bytes bytes.size 0
    .error (decodeProblem position ((bytes.toList.drop position).map UInt8.toNat))

@[simp] theorem decode_toUTF8 (s : String) : decode s.toUTF8 = .ok s := by
  have hvalid : String.fromUTF8? s.toUTF8 = some s := dif_pos s.isValidUTF8
  rw [decode, hvalid]

end TypeSchema.Text
