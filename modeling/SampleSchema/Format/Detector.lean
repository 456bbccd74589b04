import SampleSchema.Error
import SampleSchema.Format.DateTime
import SampleSchema.Format.Email
import SampleSchema.Format.IpAddress
import SampleSchema.Format.Uri
import SampleSchema.Format.Uuid
/-!
# Detectors of formats

A detector is a name and a test of texts. A set of detectors is ordered: the known formats
first, in a fixed order, then the custom ones in the order in which they were registered.
Of the formats that fit all texts of a position, the earliest is reported.
-/

namespace SampleSchema

/-- A format: its name, and the texts that have it. -/
structure Detector where
  name : Value
  accepts : String → Bool

/-- A format that a user registers. One without a test cannot be used. -/
structure CustomFormat where
  name : String
  test : Option (String → Bool)

namespace Detector

/-- The known formats, in the order of precedence. -/
def known : List Detector :=
  [⟨.str "date-time", Format.isDateTime⟩, ⟨.str "email", Format.isEmail⟩,
   ⟨.str "uuid", Format.isUuid⟩, ⟨.str "ipv6", Format.isIpv6⟩, ⟨.str "ipv4", Format.isIpv4⟩,
   ⟨.str "uri", Format.isUri⟩]

/-- The format of a loaded document, of which no more than the name is known: it accepts
every text. -/
def always (name : Value) : Detector :=
  ⟨name, fun _ => true⟩

/-- The detector of a custom format, which must have a test. -/
def ofCustom (format : CustomFormat) : Except Error Detector :=
  match format.test with
  | some test => .ok ⟨.str format.name, test⟩
  | none => .error (.formatWithoutTest format.name)

/-- The set of the known formats, if they are wanted, and the custom ones behind them. -/
def build (custom : List CustomFormat) (withKnown : Bool) : Except Error (List Detector) := do
  return (if withKnown then known else []) ++ (← custom.mapM ofCustom)

/-- The text that describes a set of detectors. -/
def describe (detectors : List Detector) : String :=
  "FormatDetectorSet(" ++ ", ".intercalate (detectors.map (·.name.plainText)) ++ ")"

end Detector

end SampleSchema
