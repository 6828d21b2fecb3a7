/-!
# Similar texts

Two texts are compared by the characters that they have in common: the longest block that occurs in
both, and then the same again to its left and to its right. Texts are similar when these characters
make up at least three fifths of both texts together.
-/

namespace TypeSchema.Text

def commonStart : List Char → List Char → Nat
  | c :: first, d :: second => if c = d then commonStart first second + 1 else 0
  | _, _ => 0

structure Block where
  inFirst : Nat
  inSecond : Nat
  length : Nat

/-- The longest common block; of several the one that comes first in the first text, and then the
one that comes first in the second. -/
def longestBlock (first second : List Char) : Block :=
  (List.range first.length).foldl
    (fun best i =>
      (List.range second.length).foldl
        (fun best j =>
          let length := commonStart (first.drop i) (second.drop j)
          if best.length < length then ⟨i, j, length⟩ else best)
        best)
    ⟨0, 0, 0⟩

/-- The number of characters in common blocks, splitting the first text so many times at most. -/
def commonWithin : (splits : Nat) → List Char → List Char → Nat
  | 0, _, _ => 0
  | splits + 1, first, second =>
    let block := longestBlock first second
    if block.length = 0 then 0
    else
      block.length +
        commonWithin splits (first.take block.inFirst) (second.take block.inSecond) +
        commonWithin splits (first.drop (block.inFirst + block.length))
          (second.drop (block.inSecond + block.length))

def common (first second : List Char) : Nat :=
  commonWithin first.length first second

/-- A candidate with what it has in common with a word, and the length of both together. -/
structure Candidate where
  text : String
  common : Nat
  total : Nat

namespace Candidate

def ofText (word text : String) : Candidate :=
  ⟨text, Text.common text.toList word.toList, text.length + word.length⟩

def isSimilar (candidate : Candidate) : Bool :=
  3 * candidate.total ≤ 10 * candidate.common

/-- Whether a candidate goes before another one: it has the greater share in common, or the same
share and the greater text. -/
def isBefore (first second : Candidate) : Bool :=
  second.common * first.total < first.common * second.total ||
    (second.common * first.total = first.common * second.total && second.text ≤ first.text)

end Candidate

/-- Up to three texts that are most similar to a word, in alphabetical order. -/
def similarTo (word : String) (texts : List String) : List String :=
  let candidates := (texts.map (Candidate.ofText word)).filter Candidate.isSimilar
  let best := (candidates.mergeSort Candidate.isBefore).take 3
  (best.map (·.text)).mergeSort (· ≤ ·)

end TypeSchema.Text
