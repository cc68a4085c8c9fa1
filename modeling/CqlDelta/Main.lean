import CqlDelta.Program.Run

/-!
# The command line

Reads the files that a command line names, runs it, and writes what the run hands over.
-/

namespace CqlDelta
namespace Main

open Program

/-- The fault behind an error of the system. -/
def faultOf : IO.Error → DiskFault
  | .noFileOrDirectory .. => .notFound
  | .inappropriateType .. => .notDirectory
  | error => .other (toString error)

/-- Reads a file as text. -/
def readText (path : String) : IO (Except DiskFault String) := do
  try
    let bytes ← IO.FS.readBinFile path
    match String.fromUTF8? bytes with
    | some text => return .ok text
    | none => return .error .notText
  catch error => return .error (faultOf error)

/-- The files that a command line reads. -/
def inputs (invocation : Invocation) : List String :=
  let diff :=
    match invocation.command with
    | .script diff => [diff]
    | .plan diff => [diff]
    | .checkTypes _ _ => []
  diff ++ invocation.model.toList ++ invocation.typeNames.toList

/-- Reads the files that a command line names. -/
def readInputs (invocation : Invocation) : IO FileReader := do
  let texts ← (inputs invocation).mapM fun path => do return (path, ← readText path)
  return fun path => (Listing.get? path texts).getD (.error .notFound)

/-- Writes the file of a run, if it has one. -/
def writeFile? (target : Option (String × String)) : IO (Option DiskFault) := do
  match target with
  | none => return none
  | some (path, text) =>
      try
        IO.FS.writeFile path text
        return none
      catch error => return some (faultOf error)

/-- Shows a report. -/
def display (report : Report) : IO UInt32 := do
  IO.eprint report.diagnostics
  IO.print report.output
  return report.code.toUInt32

/-- Runs a command line. -/
def run (arguments : List String) : IO UInt32 := do
  let keyspace ← IO.getEnv keyspaceVariable
  match Invocation.ofArguments keyspace arguments with
  | .error stop =>
      if stop = .wrongUsage then IO.eprintln (usageLine .program)
      display (stop.report (programManual keyspace))
  | .ok invocation =>
      let work := workOf (← readInputs invocation) invocation
      let writing ← writeFile? (work.toWrite? invocation)
      display (work.report invocation writing)

end Main
end CqlDelta

def main (arguments : List String) : IO UInt32 :=
  CqlDelta.Main.run arguments
