import SampleSchema.Text.Digit
import SampleSchema.Text.Quoted
/-!
# Faults of a JSON text

A fault says what was expected or found, and where. Places count characters; a line is
counted by the line feeds before the place, and a column from the last of them.
-/

namespace SampleSchema.Json

/-- A place in a text. -/
structure Place where
  offset : Nat
  line : Nat
  column : Nat
deriving DecidableEq

/-- The place at an offset: the column starts anew behind each line feed. -/
def Place.ofOffset (text : List Char) (offset : Nat) : Place :=
  let before := text.take offset
  let sinceLineFeed := before.reverse.takeWhile (· != '\n')
  ⟨offset, before.count '\n' + 1, sinceLineFeed.length + 1⟩

/-- What is wrong at a place. -/
inductive Cause where
  | noValue
  | noValueOrBracket
  | noDelimiterOrBracket
  | noNameOrBrace
  | noName
  | noColon
  | noDelimiterOrBrace
  | openString
  | controlCharacter (c : Char)
  | unknownEscape (c : Char)
  | badUnicodeEscape
  | extraData
deriving DecidableEq

/-- Why a text is no JSON text. Behind the place of a fault stands the end of the text, which
a fault about trailing data mentions. An integer with too many digits is no fault of the text
but a limit of reading. -/
inductive Fault where
  | malformed (cause : Cause) (place : Place) (finish : Place)
  | tooManyDigits
deriving DecidableEq

def Cause.message : Cause → String
  | .noValue => "Expecting value"
  | .noValueOrBracket => "Expecting value or ']'"
  | .noDelimiterOrBracket => "Expecting ',' delimiter or ']'"
  | .noNameOrBrace => "Expecting property name enclosed in double quotes or '\x7d'"
  | .noName => "Expecting property name enclosed in double quotes"
  | .noColon => "Expecting ':' delimiter"
  | .noDelimiterOrBrace => "Expecting ',' delimiter or '\x7d'"
  | .openString => "Unterminated string starting at"
  | .controlCharacter c =>
    "Invalid control character " ++ String.ofList (Text.quoted [c]) ++ " at"
  | .unknownEscape _ => "Invalid \\X escape sequence '\\\\'"
  | .badUnicodeEscape => "Invalid \\uXXXX escape sequence"
  | .extraData => "Extra data"

/-- Line and column of a place. -/
def Place.lineText (place : Place) : String :=
  "line " ++ toString place.line ++ " column " ++ toString place.column

def Fault.message : Fault → String
  | .malformed .extraData place finish =>
    Cause.extraData.message ++ ": " ++ place.lineText ++ " - " ++ finish.lineText ++
      " (char " ++ toString place.offset ++ " - " ++ toString finish.offset ++ ")"
  | .malformed cause place _ =>
    cause.message ++ ": " ++ place.lineText ++ " (char " ++ toString place.offset ++ ")"
  | .tooManyDigits => "Exceeds the limit for integers of " ++ toString Text.digitLimit ++ " digits"

end SampleSchema.Json
