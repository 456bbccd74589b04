import SampleSchema.CommandLine.Arguments
import SampleSchema.SampleFile
/-!
# Runs of the command line

A run reads its arguments, the settings file, the document to continue from and the sample
files, in this order, and then writes the document. It is a function of the arguments, of the
folder in which it takes place and of its host. The output file is opened as the last step before
the document is made, so a run that fails before that leaves it alone.
-/

namespace SampleSchema.CommandLine

/-! ## Folders -/

/-- The files that a run can see, with their octets, and the directories. Names lead to places,
and what is there is kept by its place. -/
structure Folder where
  files : List (String × List UInt8)
  directories : List String

namespace Folder

/-- The octets of a file. -/
def read (host : Host) (folder : Folder) (name : String) : Except Error (List UInt8) :=
  match Table.get? (host.place name) folder.files with
  | some octets => .ok octets
  | none =>
    if folder.directories.contains (host.place name) then .error (.isDirectory name)
    else .error (.noSuchFile name)

/-- The directory that a file is in. -/
def parent (name : String) : String :=
  match Text.cutLast? '/' name.toList with
  | some ([], _) => "/"
  | some (before, _) => String.ofList before
  | none => "."

/-- Whether a file can be opened for writing, which empties it. -/
def openOutput (host : Host) (folder : Folder) (name : String) : Except Error Unit :=
  if folder.directories.contains (host.place name) then .error (.isDirectory name)
  else if folder.directories.contains (host.place (parent name)) then .ok ()
  else .error (.noSuchFile name)

end Folder

/-! ## Outcomes -/

/-- How a run ends. -/
inductive Ending where
  | finished
  | refused (refusal : Refusal)
  | failed (error : Error)

/-- What can be seen of a run: standard output, the notices in order, the files it wrote, and
how it ended. -/
structure Outcome where
  output : String := ""
  notices : List Notice := []
  written : List (String × String) := []
  ending : Ending

/-! ## Steps of a run -/

/-- A computation that tells notices and may fail. -/
abbrev Telling (α : Type) := StateT (List Notice) (Except (List Notice × Error)) α

/-- Tells notices. -/
def tell (notices : List Notice) : Telling Unit :=
  modify (· ++ notices)

/-- Fails with what was told so far, if the result is an error. -/
def require {α : Type} (result : Except Error α) : Telling α :=
  fun told =>
    match result with
    | .ok value => .ok (value, told)
    | .error error => .error (told, error)

section

variable (host : Host) (folder : Folder)

/-- The value in a settings file. -/
def readConfig (name : String) : Except Error Value := do
  let text ← SampleFile.text (← folder.read host name)
  match Json.read host.settingsDialect text with
  | .ok value => return value
  | .error .tooManyDigits => .error .tooManyDigits
  | .error fault => .error (.badSettingsFile fault)

/-- The settings that the command line gives itself. -/
def overrides (arguments : Arguments) : List (String × Value) :=
  Document.keyword "max_samples" (arguments.maxSamples.map .int) ++
  Document.keyword "schema_version" (arguments.schemaVersion.map .str) ++
  Document.keyword "examples" (arguments.examples.map .bool) ++
  Document.keyword "indent" (arguments.indent.map .str)

/-- The settings of the file, overridden by those of the command line. -/
def configuration (arguments : Arguments) (file : Value) : Except Error (Table Value) := do
  let config := (← Mapping.ofValue file).named
  return (overrides arguments).foldl (fun config (name, value) => config.put name value) config

/-- The file of the document to continue from must exist. -/
def checkLoad (arguments : Arguments) : Except Error Unit :=
  match nonEmpty? arguments.load with
  | some name =>
    if (Table.get? (host.place name) folder.files).isSome then .ok ()
    else .error (.noSchemaFile name)
  | none => .ok ()

/-- The configuration of a run. -/
def configure (arguments : Arguments) : Except Error (Table Value) := do
  let file ←
    match nonEmpty? arguments.config with
    | some name => readConfig host folder name
    | none => .ok (.object [])
  checkLoad host folder arguments
  configuration arguments file

/-- Continues from the document in a file. -/
def loadFile (session : Session) (name : String) : Telling Session := do
  tell [.loading name]
  let text ← require ((folder.read host name).bind SampleFile.text)
  let document ← require (Session.parseIn host.sampleDialect (String.ofList text))
  let (session, notices) ← require (session.loadValue document)
  tell notices
  return session

/-- Takes in the samples of a file. -/
def takeFile (byLine : Bool) (path : Value) (session : Session) (name : String) :
    Telling Session := do
  let samples ← require ((folder.read host name).bind fun octets =>
    SampleFile.samples octets byLine path host)
  tell [.samplesRead samples.length name]
  let (session, notices) := session.addAll samples
  tell notices
  return session

/-- The session after everything was read. -/
def takeAll (arguments : Arguments) : Telling Session := do
  let config ← require (configure host folder arguments)
  let settings ← require (Settings.ofConfig (.object config) host.test?)
  let session ← require (Session.start settings)
  let session ←
    match nonEmpty? arguments.load with
    | some name => loadFile host folder session name
    | none => pure session
  let session ← arguments.samples.foldlM
    (takeFile host folder arguments.byLine (Value.member "record_list_level" config)) session
  tell [.generating session.count]
  return session

end

/-- The line that a run writes. -/
def documentLine (session : Session) : Except Error String := do
  return (← session.text) ++ "\n"

/-- A line as files and standard output take it. Half of a surrogate pair has no octets. -/
def encodable (host : Host) (line : String) : Except Error String :=
  match host.halves.position? line.toList with
  | none => .ok line
  | some position => .error (.fileNotText (.unencodable position))

/-- Writes the document to standard output. -/
def printOutcome (host : Host) (session : Session) (notices : List Notice) : Outcome :=
  match documentLine session >>= encodable host with
  | .ok line => { output := line, notices, ending := .finished }
  | .error error => { notices, ending := .failed error }

/-- Writes the document to a file. A document that cannot be made, or cannot be written, leaves
the file empty. -/
def writeOutcome (host : Host) (folder : Folder) (name : String) (session : Session)
    (notices : List Notice) : Outcome :=
  match folder.openOutput host name with
  | .error error => { notices, ending := .failed error }
  | .ok () =>
    match documentLine session >>= encodable host with
    | .ok line => { notices, written := [(name, line)], ending := .finished }
    | .error error => { notices, written := [(name, "")], ending := .failed error }

/-- A run with these arguments. -/
def runArguments (folder : Folder) (arguments : Arguments) (host : Host := .plain) : Outcome :=
  match takeAll host folder arguments [] with
  | .error (notices, error) => { notices, ending := .failed error }
  | .ok (session, notices) =>
    match nonEmpty? arguments.output with
    | some name => writeOutcome host folder name session notices
    | none => printOutcome host session notices

/-- A run of a command line. -/
def run (folder : Folder) (commandLine : List String) (host : Host := .plain) : Outcome :=
  match Arguments.ofWords commandLine with
  | .ok arguments => runArguments folder arguments host
  | .error refusal => { ending := .refused refusal }

/-- The files that a run reads. -/
def inputs (arguments : Arguments) : List String :=
  (nonEmpty? arguments.config).toList ++ (nonEmpty? arguments.load).toList ++ arguments.samples

end SampleSchema.CommandLine
