import SampleSchema.Text.Digit
/-!
# Tokens of record paths

A path is cut into tokens one character at a time. Names, numbers, quoted names and the two
dots of a descent are finished by the character behind them, so the scanner keeps what has
begun. Spaces, tabs and line feeds separate tokens. A character that can neither begin nor
continue a token ends the scan with a fault, and so does a quote that is not closed. The signs
that combine whole paths are tokens, although they fit nowhere in a single path.
-/

namespace SampleSchema.RecordPath

inductive Token where
  | root
  | dot
  | descent
  | star
  | comma
  | colon
  | openBracket
  | closeBracket
  | operator
  | name (text : String)
  | number (n : Int)
  | fault
deriving DecidableEq

/-- What has begun: nothing, a first dot, a minus sign, a number, a name, a quoted name with
its quote, or an escape inside one. Characters are kept in reverse. -/
inductive Pending where
  | nothing
  | dot
  | minus
  | number (negative : Bool) (magnitude : Nat)
  | name (reversed : List Char)
  | quoted (quote : Char) (reversed : List Char)
  | escape (quote : Char) (reversed : List Char)

/-- Whether a name can begin with the character. -/
def beginsName (c : Char) : Bool :=
  c.isAlpha || c == '_' || c == '@'

/-- Whether the character can stand inside a name. -/
def continuesName (c : Char) : Bool :=
  c.isAlphanum || c == '_' || c == '@' || c == '-'

/-- The token of a name in reverse. -/
def nameToken (reversed : List Char) : Token :=
  .name (String.ofList reversed.reverse)

def numberToken (negative : Bool) (magnitude : Nat) : Token :=
  .number (if negative then -(magnitude : Int) else magnitude)

/-- The tokens that a character finishes and what it begins, when nothing has begun; `none`
for a character that begins no token. -/
def begin? (c : Char) : Option (List Token × Pending) :=
  if c = ' ' ∨ c = '\t' ∨ c = '\n' then some ([], .nothing)
  else if c = '$' then some ([.root], .nothing)
  else if c = '*' then some ([.star], .nothing)
  else if c = ',' then some ([.comma], .nothing)
  else if c = ':' then some ([.colon], .nothing)
  else if c = '[' then some ([.openBracket], .nothing)
  else if c = ']' then some ([.closeBracket], .nothing)
  else if "()|&~".toList.contains c then some ([.operator], .nothing)
  else if c = '.' then some ([], .dot)
  else if c = '-' then some ([], .minus)
  else if c = '\'' ∨ c = '"' then some ([], .quoted c [])
  else if beginsName c then some ([], .name [c])
  else (Text.decimalValue? c).map fun digit => ([], .number false digit)

/-- Puts a finished token in front of what the next character gives. -/
def finishing (token : Token) (c : Char) : Option (List Token × Pending) :=
  match begin? c with
  | some (tokens, pending) => some (token :: tokens, pending)
  | none => some ([token, .fault], .nothing)

/-- The tokens that a character finishes and what has begun behind it. -/
def advance (pending : Pending) (c : Char) : Option (List Token × Pending) :=
  match pending with
  | .nothing => begin? c
  | .dot => if c = '.' then some ([.descent], .nothing) else finishing .dot c
  | .minus => (Text.decimalValue? c).map fun digit => ([], .number true digit)
  | .number negative magnitude =>
    match Text.decimalValue? c with
    | some digit => some ([], .number negative (10 * magnitude + digit))
    | none => finishing (numberToken negative magnitude) c
  | .name reversed =>
    if continuesName c then some ([], .name (c :: reversed)) else finishing (nameToken reversed) c
  | .quoted quote reversed =>
    if c = quote then some ([nameToken reversed], .nothing)
    else if c = '\\' then some ([], .escape quote reversed)
    else some ([], .quoted quote (c :: reversed))
  | .escape quote reversed =>
    if c = '\n' then none else some ([], .quoted quote (c :: reversed))

/-- The tokens that the end of the path finishes. -/
def finish : Pending → List Token
  | .nothing => []
  | .dot => [.dot]
  | .number negative magnitude => [numberToken negative magnitude]
  | .name reversed => [nameToken reversed]
  | .minus | .quoted .. | .escape .. => [.fault]

/-- The tokens of the rest of a path. -/
def scan (pending : Pending) : List Char → List Token
  | [] => finish pending
  | c :: rest =>
    match advance pending c with
    | some (tokens, pending) => tokens ++ scan pending rest
    | none => [.fault]

/-- The tokens of a path, up to the first fault. -/
def tokens (path : String) : List Token :=
  scan .nothing path.toList

end SampleSchema.RecordPath
