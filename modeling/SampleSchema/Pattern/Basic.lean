/-!
# Patterns of texts

A pattern denotes a set of texts. Its matches are found for all starts at once: from a set of
positions in the text, `advance` computes the set of positions where a match that begins in
one of them can end. Greedy and lazy repetition denote the same set, so one form serves both.

A repetition without an upper bound is a closure. Each round keeps only the positions that
are new, and a text has finitely many, so one round more than the text has characters always
reaches the end.
-/

namespace SampleSchema

/-- A set of characters: ranges, or all characters outside them. -/
structure CharSet where
  negated : Bool
  ranges : List (Char × Char)
deriving DecidableEq

namespace CharSet

def single (c : Char) : CharSet := ⟨false, [(c, c)]⟩

/-- All characters but the line feed. -/
def anyOnLine : CharSet := ⟨true, [('\n', '\n')]⟩

def contains (set : CharSet) (c : Char) : Bool :=
  (set.ranges.any fun (first, last) => first ≤ c && c ≤ last) != set.negated

end CharSet

/-- A pattern. The two anchors match no character: the start of the text, and its end or the
place before a line feed that ends it. -/
inductive Pattern where
  | empty
  | char (set : CharSet)
  | start
  | finish
  | sequence (first second : Pattern)
  | choice (first second : Pattern)
  | repetition (body : Pattern) (least : Nat) (most : Option Nat)
deriving DecidableEq

namespace Pattern

/-- The positions of both sets, each once. -/
def union (a b : List Nat) : List Nat :=
  a ++ b.filter fun i => !a.contains i

/-- The set reached by exactly `count` steps. -/
def stepTimes (step : List Nat → List Nat) : Nat → List Nat → List Nat
  | 0, positions => positions
  | count + 1, positions => stepTimes step count (step positions)

/-- The set reached by at most `rounds` steps from `frontier`, beside the positions in
`reached`. Only new positions are followed further. -/
def closure (step : List Nat → List Nat) : Nat → List Nat → List Nat → List Nat
  | 0, _, reached => reached
  | rounds + 1, frontier, reached =>
    if frontier.isEmpty then reached
    else
      let fresh := (step frontier).filter fun i => !reached.contains i
      closure step rounds fresh (reached ++ fresh)

/-- Whether the position is at the end of the text, or before a line feed that ends it. -/
def isFinish (text : Array Char) (i : Nat) : Bool :=
  i == text.size || (i + 1 == text.size && text[i]? == some '\n')

/-- The positions where a match that begins at one of the given positions can end. -/
def advance (text : Array Char) : Pattern → List Nat → List Nat
  | .empty, positions => positions
  | .char set, positions =>
    positions.filterMap fun i =>
      match text[i]? with
      | some c => if set.contains c then some (i + 1) else none
      | none => none
  | .start, positions => positions.filter (· == 0)
  | .finish, positions => positions.filter (isFinish text)
  | .sequence p q, positions => q.advance text (p.advance text positions)
  | .choice p q, positions => union (p.advance text positions) (q.advance text positions)
  | .repetition p least most, positions =>
    let begun := stepTimes (p.advance text) least positions
    let rounds :=
      match most with
      | some most => most - least
      | none => text.size + 1
    closure (p.advance text) rounds begun begun

/-- Whether the whole text matches. -/
def accepts (p : Pattern) (s : String) : Bool :=
  let text := s.toList.toArray
  (p.advance text [0]).contains text.size

end Pattern

end SampleSchema
