import SampleSchema.Settings
import SampleSchema.Text.Split
/-!
# Arguments of the command line

The words of a command line are first told apart: options, values, and the mark behind which
every word is a value. Then the options take their values, and the values that are left over
name the sample files. They have to stand together: a second group of them is refused.

A long option may be shortened as long as no other one begins the same way. A value may be
attached to its option, behind an equals sign or, for a short option, directly. Short options
without values may be written together.
-/

namespace SampleSchema.CommandLine

/-! ## Options and their names -/

inductive Flag where
  | help
  | config
  | load
  | output
  | lines
  | maxSamples
  | schemaVersion
  | examples
  | indent
deriving DecidableEq

namespace Flag

/-- All names of options. -/
def named : List (String × Flag) :=
  [("-h", .help), ("--help", .help), ("-c", .config), ("--config", .config),
   ("--load", .load), ("-o", .output), ("--output", .output), ("-l", .lines),
   ("--lines", .lines), ("--max_samples", .maxSamples), ("--schema_version", .schemaVersion),
   ("--examples", .examples), ("--indent", .indent)]

def ofName? (name : String) : Option Flag :=
  Table.get? name named

/-- Whether a value belongs to the option. -/
def takesValue : Flag → Bool
  | .help | .lines => false
  | _ => true

end Flag

/-! ## Words -/

/-- What is attached to an option, and whether an equals sign stands between them. -/
structure Attachment where
  bySign : Bool
  text : List Char

/-- What a word of a command line is. An option knows whether it was written with one hyphen,
and what is attached to it: its value, or more short options. -/
inductive Word where
  | value (text : String)
  | mark
  | option (flag : Flag) (isShort : Bool) (attached : Option Attachment)
  | unknown

/-- How a command line ends before any work is done. -/
inductive Refusal where
  | help
  | misuse
deriving DecidableEq

/-- What stands before the first equals sign, and what it attaches if there is one. -/
def cutEquals (cs : List Char) : List Char × Option Attachment :=
  match Text.cutFirst? '=' cs with
  | some (name, text) => (name, some ⟨true, text⟩)
  | none => (cs, none)

/-- Whether the word is a negative number, whole or with a point, which is a value. -/
def isNegativeNumber (cs : List Char) : Bool :=
  let isDecimal (c : Char) : Bool := (Text.decimalValue? c).isSome
  match Text.dropFinalLineFeed cs with
  | '-' :: digits =>
    match digits.dropWhile isDecimal with
    | [] => !digits.isEmpty
    | '.' :: fraction => !fraction.isEmpty && fraction.all isDecimal
    | _ => false
  | _ => false

/-- The options that a word may mean: a long option by the beginning of its name, a short one
with something attached. -/
def candidates (cs : List Char) : List Word :=
  match cs with
  | '-' :: '-' :: _ =>
    let (name, attached) := cutEquals cs
    Flag.named.filterMap fun (known, flag) =>
      if name.isPrefixOf known.toList then some (.option flag false attached) else none
  | '-' :: letter :: attached =>
    match Flag.ofName? (String.ofList ['-', letter]) with
    | some flag => [.option flag true (some ⟨false, attached⟩)]
    | none => []
  | _ => []

/-- The option of a name. -/
def Word.ofName? (name : List Char) (attached : Option Attachment) : Option Word :=
  (Flag.ofName? (String.ofList name)).map fun flag => .option flag (name.length == 2) attached

/-- What a word is that has no mark before it. -/
def Word.ofString (word : String) : Except Refusal Word :=
  let cs := word.toList
  if cs.head? != some '-' || cs.length == 1 then .ok (.value word)
  else
    let (name, attached) := cutEquals cs
    let whole := Word.ofName? cs none
    let cut := attached.bind fun _ => Word.ofName? name attached
    match whole.or cut with
    | some found => .ok found
    | none =>
      match candidates cs with
      | [found] => .ok found
      | [] =>
        if isNegativeNumber cs || cs.contains ' ' then .ok (.value word) else .ok .unknown
      | _ => .error .misuse

/-- The words of a command line. Behind the mark every word is a value. -/
def words : List String → Except Refusal (List Word)
  | [] => .ok []
  | word :: rest =>
    if word = "--" then .ok (.mark :: rest.map .value)
    else do
      let first ← Word.ofString word
      return first :: (← words rest)

/-! ## Arguments -/

/-- What a command line asks for. -/
structure Arguments where
  samples : List String := []
  config : Option String := none
  load : Option String := none
  output : Option String := none
  byLine : Bool := false
  maxSamples : Option Int := none
  schemaVersion : Option String := none
  examples : Option Bool := none
  indent : Option String := none

/-- The arguments after an option without a value. -/
def Arguments.raise (arguments : Arguments) : Flag → Except Refusal Arguments
  | .help => .error .help
  | .lines => .ok { arguments with byLine := true }
  | _ => .error .misuse

/-- The arguments after an option with its value, which may have to be a number or a truth
value. -/
def Arguments.assign (arguments : Arguments) (flag : Flag) (value : String) :
    Except Refusal Arguments :=
  match flag with
  | .config => .ok { arguments with config := some value }
  | .load => .ok { arguments with load := some value }
  | .output => .ok { arguments with output := some value }
  | .maxSamples =>
    match Text.integer? value.toList with
    | some n => .ok { arguments with maxSamples := some n }
    | none => .error .misuse
  | .schemaVersion => .ok { arguments with schemaVersion := some value }
  | .examples =>
    match switch (.str value) with
    | .ok b => .ok { arguments with examples := some b }
    | .error _ => .error .misuse
  | .indent => .ok { arguments with indent := some value }
  | .help | .lines => .error .misuse

/-- An option with everything that is attached to it: the short options without values that
are written together, and the last option with its attached value. There is no last option
when a letter names none. -/
structure Bundle where
  raised : List Flag
  last : Option (Flag × Option String)

/-- What follows a letter among short options that are written together. -/
def Attachment.ofLetters? : List Char → Option Attachment
  | [] => none
  | '=' :: text => some ⟨true, text⟩
  | letters => some ⟨false, letters⟩

/-- Takes short options apart that follow one without a value: letters, up to one that takes
a value, for which all the rest is meant. `steps` bounds the number of letters. -/
def unbundleLetters : Nat → Flag → Attachment → Except Refusal Bundle
  | 0, _, _ => .error .misuse
  | steps + 1, flag, ⟨bySign, letters⟩ =>
    match letters with
    | [] => .error .misuse
    | letter :: rest =>
      if bySign || letter == '-' then .error .misuse
      else
        match Flag.ofName? (String.ofList ['-', letter]), Attachment.ofLetters? rest with
        | none, _ => .ok ⟨[flag], none⟩
        | some next, none => .ok ⟨[flag], some (next, none)⟩
        | some next, some attached =>
          if next.takesValue then .ok ⟨[flag], some (next, some (String.ofList attached.text))⟩
          else do
            let bundle ← unbundleLetters steps next attached
            return { bundle with raised := flag :: bundle.raised }

/-- The options that a word with an option stands for. -/
def unbundle (flag : Flag) (isShort : Bool) (attached : Option Attachment) :
    Except Refusal Bundle :=
  match attached with
  | none => .ok ⟨[], some (flag, none)⟩
  | some attached =>
    if flag.takesValue then .ok ⟨[], some (flag, some (String.ofList attached.text))⟩
    else if isShort then unbundleLetters attached.text.length flag attached
    else .error .misuse

/-- Where the values for sample files stand: none were seen, their group is open, or it is
closed. -/
inductive Group where
  | awaited
  | opened
  | closed

/-- The group after an option. -/
def Group.close : Group → Group
  | .awaited => .awaited
  | _ => .closed

mutual

/-- Reads words on. `isClean` is lost with a word that belongs nowhere; the remaining options
still count, since one of them may ask for help. -/
def readWords (arguments : Arguments) (group : Group) (isClean : Bool) :
    List Word → Except Refusal Arguments
  | [] => if isClean && !arguments.samples.isEmpty then .ok arguments else .error .misuse
  | .value text :: rest =>
    match group with
    | .closed => readWords arguments .closed false rest
    | _ =>
      readWords { arguments with samples := arguments.samples ++ [text] } .opened isClean rest
  | .mark :: rest =>
    match group with
    | .closed => readWords arguments .closed false rest
    | _ => readWords arguments group isClean rest
  | .unknown :: rest => readWords arguments group.close false rest
  | .option flag isShort attached :: rest => do
    let bundle ← unbundle flag isShort attached
    match bundle.last with
    | none =>
      let arguments ← bundle.raised.foldlM Arguments.raise arguments
      readWords arguments group.close false rest
    | some (last, some value) =>
      let arguments ← bundle.raised.foldlM Arguments.raise arguments
      let arguments ← arguments.assign last value
      readWords arguments group.close isClean rest
    | some (last, none) =>
      if last.takesValue then readValue arguments group isClean bundle.raised last rest
      else
        let arguments ← (bundle.raised ++ [last]).foldlM Arguments.raise arguments
        readWords arguments group.close isClean rest

/-- Reads on after options of which the last one awaits its value. -/
def readValue (arguments : Arguments) (group : Group) (isClean : Bool) (raised : List Flag)
    (last : Flag) : List Word → Except Refusal Arguments
  | .value value :: rest => do
    let arguments ← raised.foldlM Arguments.raise arguments
    let arguments ← arguments.assign last value
    readWords arguments group.close isClean rest
  | _ => .error .misuse

end

/-- The arguments that a command line stands for. -/
def Arguments.ofWords (commandLine : List String) : Except Refusal Arguments := do
  readWords {} .awaited true (← words commandLine)

/-- The argument, unless it is empty. -/
def nonEmpty? (argument : Option String) : Option String :=
  argument.filter (· != "")

end SampleSchema.CommandLine
