import SampleSchema.Json.Reader
import SampleSchema.Pattern.Reader
import SampleSchema.RecordPath.Reader
/-!
# Hosts

A run takes from its host what is not its own business: how patterns and record paths are read,
which characters stand for halves of surrogate pairs, and which file a name leads to. All of this
is open here, so that what is proved of runs holds wherever they take place.
-/

namespace SampleSchema

/-- What a run takes from where it takes place. -/
structure Host where
  /-- The test that a text describes as a pattern, if it is well formed. -/
  test? : String → Option (String → Bool)
  /-- The records that a path leads to in a document. -/
  follow : String → Value → Except Error (List Value)
  /-- The characters that stand for halves of surrogate pairs. -/
  halves : Text.Halves
  /-- The file or directory that a name leads to. Several names may lead to one. -/
  place : String → String

namespace Host

/-- The host with the patterns and record paths of this library, where every file has one name. -/
def plain : Host where
  test? := Pattern.test?
  follow := RecordPath.follow
  halves := .unassigned
  place := id

/-- The dialect of samples and documents. -/
def sampleDialect (host : Host) : Json.Dialect :=
  Json.Dialect.strict.withHalves host.halves

/-- The dialect of settings files. -/
def settingsDialect (host : Host) : Json.Dialect :=
  Json.Dialect.lenient.withHalves host.halves

end Host

end SampleSchema
