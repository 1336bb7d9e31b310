import OneCounter.Command.Report

/-!
The command line program.
-/

namespace OneCounter.Command

def usage : String :=
  "usage: FILE [--node NODE] [--start INT] [--low BOUND] [--high BOUND] [--threshold INT] " ++
    "[--max-rounds INT] [--dot FILE] [--debug]"

def readContents (path : String) : IO (Option ByteArray) := do
  try
    return some (← IO.FS.readBinFile path)
  catch _ =>
    return none

def perform (options : Options) : IO UInt32 := do
  match options.run (← readContents options.file) with
  | .error fault =>
      IO.eprintln fault.message
      return 1
  | .ok result =>
      if let some (path, text) := result.written? then IO.FS.writeFile path text
      IO.print result.report
      return 0

end OneCounter.Command

def main (arguments : List String) : IO UInt32 := do
  match OneCounter.Command.Options.parse arguments with
  | .ok options => OneCounter.Command.perform options
  | .error stop =>
      IO.eprintln OneCounter.Command.usage
      return stop.exitCode
