/-!
# Notices

What a run tells about its progress.
-/

namespace SampleSchema

inductive Notice where
  | capReached (samples : Nat)
  | documentLoaded (properties : Nat)
  | loading (name : String)
  | samplesRead (samples : Nat) (name : String)
  | generating (samples : Nat)
deriving DecidableEq

def Notice.message : Notice → String
  | .capReached samples =>
    "Max samples " ++ toString samples ++ " reached. Further samples will be ignored."
  | .documentLoaded properties => "Loaded schema with " ++ toString properties ++ " properties"
  | .loading name => "Loading schema from " ++ name
  | .samplesRead samples name => "Read " ++ toString samples ++ " samples from " ++ name
  | .generating samples => "Generating schema from " ++ toString samples ++ " samples"

end SampleSchema
