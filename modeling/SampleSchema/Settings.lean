import SampleSchema.Document.Assembly
import SampleSchema.Mapping
import SampleSchema.Pattern.Reader
import SampleSchema.Text.Digit
/-!
# Settings

Settings come as values, from a settings file or from a caller, and are turned into options,
whose types say what a run can rely on. The order in which the settings are examined decides
which of several faults is reported.
-/

namespace SampleSchema

/-! ## Schema versions -/

def draft06Url : String := "http://json-schema.org/draft-06/schema#"

def draft07Url : String := "http://json-schema.org/draft-07/schema#"

/-- The version that a setting names: the short name or the address of a known version, the
newest one when nothing is said. -/
def schemaVersion (setting : Value) : Except Error Value :=
  if !setting.truthy then .ok (.str draft07Url)
  else if !Mapping.isName setting then .error (.versionNotName setting)
  else
    match setting with
    | .str "draft-06" => .ok (.str draft06Url)
    | .str "draft-07" => .ok (.str draft07Url)
    | .str url =>
      if url = draft06Url ∨ url = draft07Url then .ok setting else .error (.unknownVersion setting)
    | _ => .error (.unknownVersion setting)

/-! ## Indentation -/

/-- So many spaces, none for a negative number. -/
def spaces (count : Int) : String :=
  String.ofList (List.replicate count.toNat ' ')

/-- The indentation that a setting describes: a number of spaces, as an integer, a truth
value or a text of digits, or any other text as it is. -/
def indentation (setting : Value) : Except Error String :=
  match setting with
  | .null => .ok ""
  | .bool b => .ok (spaces (if b then 1 else 0))
  | .int n => .ok (spaces n)
  | .str s =>
    let cs := s.toList
    if !cs.isEmpty && cs.all Text.isDigit then
      match Text.natural? cs with
      | some n => .ok (spaces n)
      | none => .error (.indentNotDecimal s)
    else .ok s
  | v => .error (.indentNotText v)

/-! ## Switches -/

/-- The truth value that a word stands for, in any case of its letters. Octets are words too,
but none of these. -/
def switch (setting : Value) : Except Error Bool :=
  match setting with
  | .bool b => .ok b
  | .str s =>
    let word := s.map Char.toLower
    if ["yes", "true", "t", "y", "1"].contains word then .ok true
    else if ["no", "false", "f", "n", "0"].contains word then .ok false
    else .error (.badSwitch setting)
  | .bytes _ => .error (.badSwitch setting)
  | v => .error (.switchNotText v)

/-! ## Caps -/

/-- How many samples count. `stops` is the number of samples from which on further ones are
ignored; it is announced when it is reached, unless the cap itself lies between two
numbers. -/
inductive Cap where
  | unlimited
  | limited (stops : Nat) (isAnnounced : Bool)
deriving DecidableEq

namespace Cap

/-- The cap that a number of units sets; `units` of one are `Magnitude.unitsPerOne`. -/
def ofUnits (units : Nat) : Cap :=
  let one := Magnitude.unitsPerOne
  limited ((units + one - 1) / one) (units % one == 0)

/-- The cap that a setting describes. Zero and null set none, and neither do numbers that
are not reached by counting. -/
def ofValue (setting : Value) : Except Error Cap :=
  let ofInt (n : Int) : Except Error Cap :=
    if n < 0 then .error .negativeCap
    else .ok (if n = 0 then .unlimited else .limited n.toNat true)
  match setting with
  | .null => .ok .unlimited
  | .bool b => ofInt (if b then 1 else 0)
  | .int n => ofInt n
  | .float x =>
    if x.isNegative then .error .negativeCap
    else
      match x with
      | .finite _ magnitude => .ok (if x.isZero then .unlimited else ofUnits magnitude.units)
      | _ => .ok .unlimited
  | v => .error (.capNotNumber v)

/-- Whether further samples are ignored after so many. -/
def isReached (count : Nat) : Cap → Bool
  | unlimited => false
  | limited stops _ => stops ≤ count

/-- Whether it is announced that the cap is reached with so many samples. -/
def announces (count : Nat) : Cap → Bool
  | unlimited => false
  | limited stops isAnnounced => isAnnounced && stops == count

end Cap

/-! ## Options -/

/-- Settings as they were given, with the custom formats already read. -/
structure Settings where
  predefined : Mapping := []
  cap : Value := .int 0
  customFormats : List CustomFormat := []
  knownFormats : Value := .bool true
  version : Value := .str draft07Url
  examples : Value := .bool false
  indent : Value := .str ""

/-- What a run relies on. `predefined` prescribes the types of fields of the root. -/
structure Options where
  predefined : List (String × String)
  cap : Cap
  observer : Observer
  version : Option Value
  indent : String

/-- The prescribed types, all of which must be known. -/
def checkPredefined : Mapping → Except Error (List (String × String))
  | [] => .ok []
  | (name, type) :: rest =>
    match type with
    | .str text =>
      if predefinedTypes.contains text then do
        let others ← checkPredefined rest
        return (match name with
          | .str field => (field, text) :: others
          | _ => others)
      else .error (.unknownPredefined type name)
    | _ => .error (.unknownPredefined type name)

/-- The options that settings describe. -/
def Options.ofSettings (settings : Settings) : Except Error Options := do
  let predefined ← checkPredefined settings.predefined
  let cap ← Cap.ofValue settings.cap
  let detectors ← Detector.build settings.customFormats settings.knownFormats.truthy
  let indent ← indentation settings.indent
  return {
    predefined
    cap
    observer := ⟨settings.examples.truthy, detectors⟩
    version := settings.version.truthy?
    indent }

namespace Settings

/-! ## Settings files -/

/-- The test that a pattern describes: the whole text has to match. -/
def patternTest (pattern : Value) (test? : String → Option (String → Bool) := Pattern.test?) :
    Except Error (String → Bool) :=
  match pattern with
  | .str text =>
    match test? text with
    | some test => .ok test
    | none => .error (.badPattern text)
  | v => .error (.patternNotText v)

/-- The custom formats of a settings file: an object of patterns by name. -/
def readCustomFormats (setting : Value) (test? : String → Option (String → Bool)) :
    Except Error (List CustomFormat) :=
  if !setting.truthy then .ok []
  else
    match setting with
    | .object members => members.mapM fun (name, pattern) => do
      return ⟨name, some (← patternTest pattern test?)⟩
    | v => .error (.formatsNotObject v)

/-- The mapping of a setting that counts as none unless it counts as true. -/
def mappingUnlessFalse (setting : Value) : Except Error Mapping :=
  if setting.truthy then Mapping.ofValue setting else .ok []

/-- The settings that a settings file describes. A setting that counts as false is as good
as none, except that the known formats are wanted unless something else is said. -/
def ofConfig (config : Value) (test? : String → Option (String → Bool) := Pattern.test?) :
    Except Error Settings :=
  match config with
  | .object members => do
    let get (name : String) := Value.member name members
    let customFormats ← readCustomFormats (get "custom_formats") test?
    let predefined ← mappingUnlessFalse (get "predefined")
    let version ← schemaVersion (get "schema_version")
    let indent ← indentation (get "indent")
    return {
      predefined
      cap := (get "max_samples").truthy?.getD (.int 0)
      customFormats
      knownFormats := (get "builtin_formats").nonNull?.getD (.bool true)
      version
      examples := .bool (get "examples").truthy
      indent := .str indent }
  | v => .error (.settingsNotObject v)

/-! ## Settings of a caller -/

/-- Changes the settings by one that a caller names. -/
def set (settings : Settings) (name : String) (value : Value) : Except Error Settings :=
  match name with
  | "predefined" => do
    return { settings with predefined := ← mappingUnlessFalse value }
  | "max_samples" => .ok { settings with cap := value }
  | "custom_formats" => .ok settings
  | "builtin_formats" => .ok { settings with knownFormats := value }
  | "schema_version" => .ok { settings with version := value }
  | "examples" => .ok { settings with examples := value }
  | "indent" => .ok { settings with indent := value }
  | _ => .error (.unknownSetting name)

/-- The names that `set` knows. -/
def names : List String :=
  ["predefined", "max_samples", "custom_formats", "builtin_formats", "schema_version",
   "examples", "indent"]

/-- The settings of a caller. A name that is not known is a fault before any other. -/
def ofNamed (named : Table Value) (customFormats : List CustomFormat) :
    Except Error Settings :=
  match (Table.names named).find? fun name => !names.contains name with
  | some name => .error (.unknownSetting name)
  | none =>
    let initial : Settings := { customFormats }
    named.foldlM (fun settings (name, value) => settings.set name value) initial

end Settings

end SampleSchema
