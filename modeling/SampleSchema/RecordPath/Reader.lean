import SampleSchema.Error
import SampleSchema.RecordPath.Basic
import SampleSchema.RecordPath.Token
/-!
# Reading record paths

A path begins with an operand: the root, names, a star, a number that serves as a name, or a
selection in brackets. Further operands follow behind a dot or a descent, and selections in
brackets follow directly. The first token that does not fit is the fault of a path; whether
it is a token at all decides how the fault is reported.

The notation has forms that are refused here: two paths joined by a bar, an ampersand or a word
(`where` and its negation), paths in parentheses, operators named between backquotes, members by
tilde, and filters. A run takes the reader of paths from its host, and what is proved of runs
holds with any other one.
-/

namespace SampleSchema.RecordPath

/-- The fault at the first token that does not fit. -/
def misfit {α : Type} : List Token → Except Error α
  | .fault :: _ => .error .badPathToken
  | _ => .error .badPath

/-- The names that follow a name behind commas. -/
def readNames : List Token → Except Error (List String × List Token)
  | .comma :: .name name :: rest => do
    let (names, rest) ← readNames rest
    return (name :: names, rest)
  | .comma :: rest => misfit rest
  | rest => .ok ([], rest)

/-- The numbers that follow a number behind commas. -/
def readNumbers : List Token → Except Error (List Int × List Token)
  | .comma :: .number n :: rest => do
    let (numbers, rest) ← readNumbers rest
    return (n :: numbers, rest)
  | .comma :: rest => misfit rest
  | rest => .ok ([], rest)

/-- A bound of a slice, which may be missing. -/
def readBound : List Token → Option Int × List Token
  | .number n :: rest => (some n, rest)
  | rest => (none, rest)

/-- A slice behind its first bound: a colon, the last bound, and perhaps a step. -/
def readSlice (first : Option Int) : List Token → Except Error (Selector × List Token)
  | .colon :: rest =>
    let (last, rest) := readBound rest
    match rest with
    | .colon :: rest =>
      let (step, rest) := readBound rest
      .ok (.slice first last step, rest)
    | rest => .ok (.slice first last none, rest)
  | rest => misfit rest

/-- What stands in brackets. -/
def readSelection : List Token → Except Error (Selector × List Token)
  | .star :: rest => .ok (.all, rest)
  | .name name :: rest => do
    let (names, rest) ← readNames rest
    return (.names (name :: names), rest)
  | .number n :: .colon :: rest => readSlice (some n) (.colon :: rest)
  | .number n :: rest => do
    let (numbers, rest) ← readNumbers rest
    return (.indices (n :: numbers), rest)
  | rest => readSlice none rest

/-- A selection behind its opening bracket, up to the closing one. -/
def readBrackets (cs : List Token) : Except Error (Selector × List Token) := do
  match ← readSelection cs with
  | (selector, .closeBracket :: rest) => return (selector, rest)
  | (_, rest) => misfit rest

/-- An operand. -/
def readOperand : List Token → Except Error (Selector × List Token)
  | .root :: rest => .ok (.root, rest)
  | .star :: rest => .ok (.all, rest)
  | .number n :: rest => .ok (.names [toString n], rest)
  | .name name :: rest => do
    let (names, rest) ← readNames rest
    return (.names (name :: names), rest)
  | .openBracket :: rest => readBrackets rest
  | rest => misfit rest

/-- The steps behind the first one. Each of them takes a token, so the number of tokens
bounds their number. -/
def readSteps : Nat → List Token → Except Error (List PathStep)
  | _, [] => .ok []
  | 0, rest => misfit rest
  | count + 1, .dot :: rest => do
    let (selector, rest) ← readOperand rest
    return ⟨false, selector⟩ :: (← readSteps count rest)
  | count + 1, .descent :: rest => do
    let (selector, rest) ← readOperand rest
    return ⟨true, selector⟩ :: (← readSteps count rest)
  | count + 1, .openBracket :: rest => do
    let (selector, rest) ← readBrackets rest
    return ⟨false, selector⟩ :: (← readSteps count rest)
  | _ + 1, rest => misfit rest

/-- The steps of a path. -/
def ofString (path : String) : Except Error (List PathStep) := do
  let tokens := tokens path
  let (selector, rest) ← readOperand tokens
  return ⟨false, selector⟩ :: (← readSteps tokens.length rest)

/-- What a path leads to in a document. -/
def follow (path : String) (document : Value) : Except Error (List Value) := do
  return records (← ofString path) document

/-- The records of a document: the document itself if the path says nothing, and what the
path leads to otherwise. -/
def recordsAt (path document : Value)
    (follow : String → Value → Except Error (List Value) := RecordPath.follow) :
    Except Error (List Value) :=
  if !path.truthy then .ok [document]
  else
    match path with
    | .str path => follow path document
    | .list _ => .error .pathIsArray
    | v => .error (.pathNotText v)

end SampleSchema.RecordPath
