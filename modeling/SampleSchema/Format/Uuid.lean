/-!
# Universally unique identifiers

Thirty-six characters: groups of eight, four, four, four and twelve hexadecimal digits with
hyphens between them. The third group starts with the version, one to five, and the fourth
with the variant.
-/

namespace SampleSchema.Format

def isHexDigit (c : Char) : Bool :=
  c.isDigit || ('a' ≤ c && c ≤ 'f') || ('A' ≤ c && c ≤ 'F')

def isUuidVersion (c : Char) : Bool :=
  '1' ≤ c && c ≤ '5'

def isUuidVariant (c : Char) : Bool :=
  c == '8' || c == '9' || c == 'a' || c == 'b' || c == 'A' || c == 'B'

/-- What each character of an identifier has to be. -/
def uuidShape : List (Char → Bool) :=
  let hex (count : Nat) := List.replicate count isHexDigit
  let hyphen : List (Char → Bool) := [(· == '-')]
  hex 8 ++ hyphen ++ hex 4 ++ hyphen ++ isUuidVersion :: hex 3 ++ hyphen ++
    isUuidVariant :: hex 3 ++ hyphen ++ hex 12

/-- Whether the characters are as many as the tests and pass them one by one. -/
def fitsShape : List (Char → Bool) → List Char → Bool
  | [], [] => true
  | test :: tests, c :: cs => test c && fitsShape tests cs
  | _, _ => false

/-- Whether the text is an identifier. -/
def isUuid (s : String) : Bool :=
  fitsShape uuidShape s.toList

end SampleSchema.Format
