import SampleSchema.CommandLine.Run
/-!
# The program

Gathers the files that the arguments name, runs the command line on them, and shows the
outcome: the document on standard output or in a file, notices and errors on standard error.
-/

namespace SampleSchema.CommandLine

/-- How the program is used. -/
def usage : String :=
  "usage: sample-schema [-h] [-c CONFIG] [--load LOAD] [-o OUTPUT] [-l] " ++
    "[--max_samples MAX_SAMPLES] [--schema_version SCHEMA_VERSION] [--examples EXAMPLES] " ++
    "[--indent INDENT] samples [samples ...]"

/-- The folder with the files that the arguments name, as far as they can be read. Whether
the output can be written is left to the moment of writing. -/
def gather (arguments : Arguments) : IO Folder := do
  let mut files := []
  for name in inputs arguments do
    try
      let octets ← IO.FS.readBinFile name
      files := files ++ [(name, octets.toList)]
    catch _ => pure ()
  return ⟨files, [Folder.parent (arguments.output.getD "")]⟩

/-- Shows an outcome and gives the status to exit with. -/
def report (outcome : Outcome) : IO UInt32 := do
  for notice in outcome.notices do
    IO.eprintln ("INFO " ++ notice.message)
  for (name, text) in outcome.written do
    IO.FS.writeFile name text
  IO.print outcome.output
  match outcome.ending with
  | .finished => return 0
  | .refused .help =>
    IO.println usage
    return 0
  | .refused .misuse =>
    IO.eprintln usage
    return 2
  | .failed error =>
    IO.eprintln ("CRITICAL " ++ error.message)
    return 1

end SampleSchema.CommandLine

open SampleSchema.CommandLine in
/-- Runs the command line and exits with its status. -/
def main (commandLine : List String) : IO UInt32 := do
  match Arguments.ofWords commandLine with
  | .ok arguments => report (runArguments (← gather arguments) arguments)
  | .error refusal => report { ending := .refused refusal }
