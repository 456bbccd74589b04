import SampleSchema.Json.Fault
import SampleSchema.Json.Printer
import SampleSchema.Value.Display
/-!
# What can go wrong

One type lists every cause for which an operation can fail, with the values that its message
mentions. The wording stands in one function.
-/

namespace SampleSchema

/-- Why an operation fails. -/
inductive Error where
  -- samples and documents
  | malformedSample (fault : Json.Fault)
  | undecodableSample (fault : Text.Utf8Fault)
  | tooManyDigits
  | noSamples
  | rootNotObject (type : Value)
  | notSchemaObject (found : Value)
  | badType (found : Value)
  | propertiesNotObject
  | notDocument (found : Value)
  | unprintable (fault : Json.PrintFault)
  | noSuchProperty (name : String)
  | noItem
  -- settings
  | settingsNotObject (found : Value)
  | unknownSetting (name : String)
  | notMapping (found : Value)
  | entryNotSequence (found : Value)
  | entryNotPair (found : Value)
  | keyNotName (found : Value)
  | unknownPredefined (type name : Value)
  | capNotNumber (found : Value)
  | negativeCap
  | versionNotName (found : Value)
  | unknownVersion (found : Value)
  | indentNotText (found : Value)
  | indentNotDecimal (found : String)
  | formatsNotObject (found : Value)
  | patternNotText (found : Value)
  | badPattern (pattern : String)
  | formatWithoutTest (name : String)
  | switchNotText (found : Value)
  | badSwitch (found : Value)
  -- record paths
  | pathNotText (found : Value)
  | pathIsArray
  | badPathToken
  | badPath
  -- files
  | noSuchFile (name : String)
  | isDirectory (name : String)
  | fileNotText (fault : Text.CodecFault)
  | noSchemaFile (name : String)
  | badSettingsFile (fault : Json.Fault)

/-- The text of an error for a reader. -/
def Error.message : Error → String
  | .malformedSample fault => "Failed to parse JSON: " ++ fault.message
  | .undecodableSample fault => "Failed to parse JSON: " ++ fault.message
  | .tooManyDigits => Json.Fault.tooManyDigits.message
  | .noSamples => "No samples added"
  | .rootNotObject type => "Only object schemas can be loaded, got: " ++ type.plainText
  | .notSchemaObject found => "Expected a schema object, got: " ++ found.kindName
  | .badType found => "Unsupported type format: " ++ found.quotedText
  | .propertiesNotObject => "properties must be an object"
  | .notDocument found => "A document must be an object, got: " ++ found.kindName
  | .unprintable .notFinite => "Numbers that are not finite have no JSON text"
  | .unprintable (.notText fault) => fault.message
  | .unprintable .tooManyDigits => Json.Fault.tooManyDigits.message
  | .noSuchProperty name => "No property " ++ name
  | .noItem => "No item was observed"
  | .settingsNotObject found => "Settings must be an object, got: " ++ found.kindName
  | .unknownSetting name => "Unknown setting " ++ name
  | .notMapping found => "A mapping is expected, got: " ++ found.kindName
  | .entryNotSequence found => "An entry of a mapping must be a pair, got: " ++ found.kindName
  | .entryNotPair found => "An entry of a mapping must be a pair, got: " ++ found.quotedText
  | .keyNotName found => "Not a name of a mapping: " ++ found.kindName
  | .unknownPredefined type name =>
    "Unknown predefined type " ++ type.plainText ++ " for " ++ name.plainText
  | .capNotNumber found => "max_samples must be a number, got: " ++ found.kindName
  | .negativeCap => "max_samples must be 0 or larger"
  | .versionNotName found => "A schema version must be a name, got: " ++ found.kindName
  | .unknownVersion found =>
    "Unknown schema version: " ++ found.plainText ++ ". Use one of ['draft-06', 'draft-07']"
  | .indentNotText found => "An indentation must be a text or a number, got: " ++ found.kindName
  | .indentNotDecimal found => "An indentation cannot be read as a number: " ++ found
  | .formatsNotObject found => "Custom formats must be an object, got: " ++ found.kindName
  | .patternNotText found => "A pattern must be a text, got: " ++ found.kindName
  | .badPattern pattern => "Malformed pattern " ++ pattern
  | .formatWithoutTest name => "Format detector for " ++ name ++ " is not callable"
  | .switchNotText found => "Boolean text expected, got: " ++ found.kindName
  | .badSwitch _ => "Boolean value expected."
  | .pathNotText found => "A record path must be a text, got: " ++ found.kindName
  | .pathIsArray => "A record path must be a text, got an array"
  | .badPathToken => "A record path has a character that starts no token"
  | .badPath => "Malformed record path"
  | .noSuchFile name => "No such file: " ++ name
  | .isDirectory name => "Is a directory: " ++ name
  | .fileNotText fault => fault.message
  | .noSchemaFile name => "Schema file " ++ name ++ " not found"
  | .badSettingsFile fault => fault.message

end SampleSchema
