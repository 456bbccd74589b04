import SampleSchema.Pattern.Basic
/-!
# Reading patterns

The notation: characters that stand for themselves, a dot, character classes, groups,
alternatives, the two anchors, and counted repetitions with an optional mark for laziness. A
backslash makes punctuation stand for itself.

Alternatives bind weakest, then sequences, then repetitions. A repetition needs something
before it that is neither an anchor nor a repetition. An opening brace that no count follows
stands for itself.

The notation has forms that are refused here as if they were malformed: a backslash
before a letter or digit (classes such as `\d`, `\w`, `\s` and their complements, boundaries,
characters by number or name, references to groups), every group that opens with a question mark
but the one that only binds (groups with a name, looking ahead and behind, atomic groups,
conditions, comments, flags), and repetitions that give nothing back. A run takes the reader of
patterns from its host, and what is proved of runs holds with any other one.
-/

namespace SampleSchema.Pattern

/-! ## Characters -/

/-- The character that an escape stands for: letters and digits have no escapes. -/
def escapedChar? (c : Char) : Option Char :=
  if c.isAlphanum then none else some c

/-- The characters that mean something outside classes, and cannot stand for themselves. -/
def isReserved (c : Char) : Bool :=
  "\\|()[*+?".toList.contains c

/-! ## Classes -/

/-- A character of a class, and what follows it. -/
def classChar? : List Char → Option (Char × List Char)
  | '\\' :: c :: rest => (escapedChar? c).map (·, rest)
  | ['\\'] => none
  | c :: rest => some (c, rest)
  | [] => none

/-- The ranges of a class up to its closing bracket, and what follows that. A closing bracket
that comes first is an ordinary character; a hyphen before the closing bracket is one too.
The count of steps bounds the number of ranges. -/
def classRanges? : Nat → Bool → List Char → Option (List (Char × Char) × List Char)
  | 0, _, _ => none
  | steps + 1, isFirst, cs =>
    match isFirst, cs with
    | false, ']' :: rest => some ([], rest)
    | _, cs =>
      match classChar? cs with
      | none => none
      | some (low, rest) =>
        match rest with
        | ['-'] => none
        | '-' :: ']' :: tail => some ([(low, low), ('-', '-')], tail)
        | '-' :: tail =>
          match classChar? tail with
          | some (high, tail) =>
            if low ≤ high then
              (classRanges? steps false tail).map fun (ranges, tail) =>
                ((low, high) :: ranges, tail)
            else none
          | none => none
        | rest =>
          (classRanges? steps false rest).map fun (ranges, tail) => ((low, low) :: ranges, tail)

/-- The class behind an opening bracket. -/
def class? (cs : List Char) : Option (CharSet × List Char) :=
  let (negated, body) :=
    match cs with
    | '^' :: rest => (true, rest)
    | _ => (false, cs)
  (classRanges? (body.length + 1) true body).map fun (ranges, rest) => (⟨negated, ranges⟩, rest)

/-! ## Counts -/

/-- The number of digits of ASCII, absent if there are none. -/
def count? (digits : List Char) : Option Nat :=
  if digits.isEmpty then none
  else some (digits.foldl (fun n c => 10 * n + (c.toNat - '0'.toNat)) 0)

/-- The bounds of a repetition in braces behind the opening one: a number, or two with a
comma between them, each of which may be missing. Braces with nothing inside are no bounds. -/
def bounds? (cs : List Char) : Option ((Nat × Option Nat) × List Char) :=
  if cs.head? = some '\x7d' then none
  else
    let least := count? (cs.takeWhile Char.isDigit)
    match cs.dropWhile Char.isDigit with
    | ',' :: rest =>
      match rest.dropWhile Char.isDigit with
      | '\x7d' :: tail => some ((least.getD 0, count? (rest.takeWhile Char.isDigit)), tail)
      | _ => none
    | '\x7d' :: tail => some ((least.getD 0, least), tail)
    | _ => none

/-- The bounds of a repetition at the start of a text. -/
def repetition? : List Char → Option ((Nat × Option Nat) × List Char)
  | '*' :: rest => some ((0, none), rest)
  | '+' :: rest => some ((1, none), rest)
  | '?' :: rest => some ((0, some 1), rest)
  | '\x7b' :: rest => bounds? rest
  | _ => none

/-- Whether bounds are in order. -/
def inOrder (least : Nat) : Option Nat → Bool
  | some most => least ≤ most
  | none => true

/-- The repetition of a body, if one follows it. One repetition cannot follow another. -/
def repeated? (body : Pattern) (cs : List Char) : Option (Pattern × List Char) :=
  match repetition? cs with
  | none => some (body, cs)
  | some ((least, most), rest) =>
    let rest :=
      match rest with
      | '?' :: tail => tail
      | _ => rest
    if inOrder least most && (repetition? rest).isNone then
      some (.repetition body least most, rest)
    else none

/-- An anchor, which nothing can repeat. -/
def anchored? (anchor : Pattern) (cs : List Char) : Option (Pattern × List Char) :=
  if (repetition? cs).isNone then some (anchor, cs) else none

/-! ## Patterns -/

mutual

/-- Alternatives, up to a closing parenthesis or the end. -/
def readChoice : Nat → List Char → Option (Pattern × List Char)
  | 0, _ => none
  | steps + 1, cs => do
    let (first, rest) ← readSequence steps cs
    match rest with
    | '|' :: rest =>
      let (second, rest) ← readChoice steps rest
      return (.choice first second, rest)
    | rest => return (first, rest)

/-- A sequence of repeated items. -/
def readSequence : Nat → List Char → Option (Pattern × List Char)
  | 0, _ => none
  | steps + 1, cs =>
    match cs with
    | [] => some (.empty, [])
    | '|' :: _ => some (.empty, cs)
    | ')' :: _ => some (.empty, cs)
    | cs => do
      let (first, rest) ← readItem steps cs
      let (second, rest) ← readSequence steps rest
      return (.sequence first second, rest)

/-- A character, class, group or anchor, with its repetition. -/
def readItem : Nat → List Char → Option (Pattern × List Char)
  | 0, _ => none
  | steps + 1, cs =>
    match cs with
    | '(' :: '?' :: ':' :: rest => readGroup steps rest
    | '(' :: '?' :: _ => none
    | '(' :: rest => readGroup steps rest
    | '[' :: rest => do
      let (set, rest) ← class? rest
      repeated? (.char set) rest
    | '\\' :: c :: rest => do
      repeated? (.char (.single (← escapedChar? c))) rest
    | '^' :: rest => anchored? .start rest
    | '$' :: rest => anchored? .finish rest
    | '.' :: rest => repeated? (.char .anyOnLine) rest
    | c :: rest =>
      if isReserved c || (repetition? cs).isSome then none
      else repeated? (.char (.single c)) rest
    | [] => none

/-- The rest of a group behind its opening, with its repetition. -/
def readGroup : Nat → List Char → Option (Pattern × List Char)
  | 0, _ => none
  | steps + 1, cs => do
    match ← readChoice steps cs with
    | (body, ')' :: rest) => repeated? body rest
    | _ => none

end

/-- The pattern that a text denotes, if it is well formed. Every step of reading consumes a
character or descends one of four levels, so the count of steps suffices. -/
def ofString? (s : String) : Option Pattern :=
  match readChoice (4 * s.length + 4) s.toList with
  | some (pattern, []) => some pattern
  | _ => none

/-- The test that a text describes as a pattern: whether a whole text matches. -/
def test? (s : String) : Option (String → Bool) :=
  (ofString? s).map accepts

end SampleSchema.Pattern
