import SampleSchema.Host
import SampleSchema.Session
/-!
# Sample files

A file holds one document, or one document on each line that is not blank. Each document
gives the records that a path leads to as samples.
-/

namespace SampleSchema.SampleFile

/-- The text of a file: UTF-8, with line feeds for all newlines. -/
def text (octets : List UInt8) : Except Error (List Char) :=
  match Text.decodeUtf8 octets with
  | .ok cs => .ok (Text.unifyNewlines cs)
  | .error fault => .error (.fileNotText (.undecodable fault))

/-- The texts of the documents in a file. -/
def documentTexts (byLine : Bool) (cs : List Char) : List (List Char) :=
  if byLine then (Text.lines cs).filter fun line => !Text.isBlankText line else [cs]

/-- The samples in a file. All documents are read before the first path is followed. -/
def samples (octets : List UInt8) (byLine : Bool) (path : Value) (host : Host := .plain) :
    Except Error (List Value) := do
  let documents ← (documentTexts byLine (← text octets)).mapM fun cs =>
    Session.parseIn host.sampleDialect (String.ofList cs)
  let records ← documents.mapM fun document => RecordPath.recordsAt path document host.follow
  return records.flatten

end SampleSchema.SampleFile
