import VhdlGates.CommandLine

/-! The program: reads one source file and prints what its options ask for. -/
namespace VhdlGates.CommandLine

/-- What the system says of a file that cannot be read. -/
def readFailure : IO.Error → ReadFailure
  | .noFileOrDirectory .. => .missing
  | .permissionDenied .. => .system 13 "PermissionDenied" "Permission denied"
  | .inappropriateType .. => .system 21 "IsADirectory" "Is a directory"
  | _ => .system 5 "Uncategorized" "Input/output error"

def readContents (path : String) : IO FileContents := do
  try return .ok (← IO.FS.readBinFile path)
  catch failure => return .error (readFailure failure)

def usage : String :=
  "usage: SOURCE_FILE [--emit tokens|ast|spec] [-p|--pretty] [-d|--description TEXT] " ++
    "[--log-level off|error|warn|info|debug|trace]"

/-- Runs the command line; a usage error has exit code two. -/
def runWords (words : List String) : IO UInt32 := do
  let some (path, options) := (do
      let invocation ← Invocation.readWords? {} words
      return (← invocation.path, ← Options.ofInvocation? invocation))
    | IO.eprintln usage
      return 2
  let exit := options.run path (← readContents path)
  IO.eprint exit.errors
  IO.print exit.output
  return exit.code

end VhdlGates.CommandLine

def main (words : List String) : IO UInt32 := VhdlGates.CommandLine.runWords words
