import CqlDelta.Cql.Exchange
import CqlDelta.Plan.Compile
import CqlDelta.Program.Failure
import CqlDelta.Program.Manual

/-!
# Runs

A run does the work of a command line and then hands over what it produced, to the standard output
or to a file. The work depends on the files it reads, the report also on whether the file could be
written. A run that fails hands over nothing. A question for help or for the version is answered on
the standard output, whatever the files are.
-/

namespace CqlDelta
namespace Program

open Cql Plan Text

/-! ## The log -/

/-- A line of the log. Lines of detail are shown on demand. -/
structure LogLine where
  isDetail : Bool
  text : String
deriving DecidableEq, Repr

/-- A character of a logged text. Characters that act on a terminal are written as codes. -/
def logChar (c : Char) : List Char :=
  if c.toNat = 0x1B then ['\\', 'x', '1', 'b']
  else if c.toNat = 0x07 then ['\\', 'x', '0', '7']
  else if c.toNat = 0x08 then ['\\', 'x', '0', '8']
  else if c.toNat = 0x0C then ['\\', 'x', '0', 'c']
  else if c.toNat = 0x7F then ['\\', 'x', '7', 'f']
  else if 0x80 ≤ c.toNat && c.toNat ≤ 0x9F then codePointEscape c
  else [c]

/-- A text as it is logged. -/
def logText (text : String) : String :=
  String.ofList (text.toList.flatMap logChar)

/-- A line for everybody. -/
def LogLine.info (text : String) : LogLine :=
  ⟨false, " INFO " ++ logText text⟩

/-- A line of detail, with values behind its text. -/
def LogLine.detailWith (text values : String) : LogLine :=
  ⟨true, "DEBUG " ++ logText text ++ values⟩

/-- A line of detail. -/
def LogLine.detail (text : String) : LogLine :=
  .detailWith text ""

/-- The line for a note. -/
def noteLine : Note → LogLine
  | .legacyModel version =>
      .detailWith "legacy model, column type changes are altered in place when compatible"
        s!" version={showQuoted version}"
  | .defaultKeyspace type keyspace =>
      .detailWith "created type has no keyspace, using default"
        s!" udt={showQuoted type} keyspace={keyspace}"
  | .inconvertible old new =>
      .detailWith "incompatible field type change, not altered" s!" old_type={old} new_type={new}"
  | .creatingTable table => .detailWith "delegating table creation" s!" table={showQuoted table}"
  | .planned count => .detailWith "generated migration statements" s!" count={count}"

/-! ## The work -/

/-- What a command produces, and the log so far. -/
structure Work where
  log : List LogLine
  result : Except Failure String

/-- The context that a command line asks for. A given version goes before a model file. -/
def contextOf (files : FileReader) (invocation : Invocation) : Except Failure Context :=
  match invocation.version, invocation.model with
  | some version, _ => .ok (.ofVersion version)
  | none, some path =>
      (loadFile files readVersions path).map fun versions => { versions := versions }
  | none, none => .ok {}

/-- The names of types that a command line asks for. -/
def typeNamesOf (files : FileReader) (invocation : Invocation) : Except Failure Delta.TypeNames :=
  match invocation.typeNames with
  | some path => loadFile files Delta.readTypeNames path
  | none => .ok []

/-- Reads the comparison, the model and the names, in this order, and makes the plan. -/
def outcomeOf
    (files : FileReader)
    (invocation : Invocation)
    (diff : String) :
    Except Failure Outcome := do
  let document ← loadFile files Delta.readNode diff
  let context ← contextOf files invocation
  let names ← typeNamesOf files invocation
  return compile invocation.options names context document

/-- The work on a comparison, finished by what is to be done with the statements. -/
def planWork
    (files : FileReader)
    (invocation : Invocation)
    (diff : String)
    (finish : List Statement → List LogLine × String) :
    Work :=
  let reading := LogLine.detail s!"Reading diff from {diff}"
  match outcomeOf files invocation diff with
  | .error failure => ⟨[reading], .error failure⟩
  | .ok outcome =>
      let log := reading :: outcome.notes.map noteLine
      match outcome.result with
      | .error fault => ⟨log, .error (.key fault)⟩
      | .ok statements =>
          let (lines, text) := finish statements
          ⟨log ++ lines, .ok text⟩

/-- The script of statements. -/
def finishScript (statements : List Statement) : List LogLine × String :=
  let script := renderScript statements
  (if script.isEmpty then [.info "No changes detected."] else [], script)

/-- The statements as JSON. -/
def finishPlan (statements : List Statement) : List LogLine × String :=
  let destructive := (statements.filter Statement.isDestructive).length
  ( .info s!"Planned {statements.length} cassandra statement(s), {destructive} destructive"
      :: statements.map fun statement => .detail statement.description,
    (planValue statements).indented ++ "\n" )

/-- The verdict on a conversion. -/
def verdict (old new : String) : String :=
  if isConvertible old new then s!"{old} -> {new}: ALTER in place\n"
  else s!"{old} -> {new}: drop and re-add\n"

/-- The work of a command line. -/
def workOf (files : FileReader) (invocation : Invocation) : Work :=
  match invocation.command with
  | .script diff => planWork files invocation diff finishScript
  | .plan diff => planWork files invocation diff finishPlan
  | .checkTypes old new => ⟨[], .ok (verdict old new)⟩

/-! ## The report -/

/-- What a run leaves behind. -/
structure Report where
  code : Nat
  output : String := ""
  /-- The shown lines of the log. -/
  log : List String := []
  /-- The message of the failure. -/
  failure : Option String := none

/-- What stands before the message of a failure. -/
def failureMark : String :=
  "Error: "

/-- What a run writes beside its output: the shown lines of the log, then the failure. -/
def Report.diagnostics (report : Report) : String :=
  let failure := report.failure.map (failureMark ++ ·)
  String.join ((report.log ++ failure.toList).map (· ++ "\n"))

/-- The lines of the log that are shown. -/
def shownLines (invocation : Invocation) (log : List LogLine) : List String :=
  (log.filter fun line => invocation.verbose || !line.isDetail).map LogLine.text

/-- The report of a failure. -/
def Report.failed (invocation : Invocation) (log : List LogLine) (message : String) : Report :=
  { code := 1, log := shownLines invocation log, failure := some message }

/-- The file and the text that are to be written. -/
def Work.toWrite? (invocation : Invocation) (work : Work) : Option (String × String) :=
  match invocation.output, work.result with
  | some path, .ok text => some (path, text)
  | _, _ => none

/-- The report on work that is done, and on writing its file if it has one. -/
def Work.report (invocation : Invocation) (work : Work) (writing : Option DiskFault) : Report :=
  match work.result with
  | .error failure => .failed invocation work.log failure.message
  | .ok text =>
      match invocation.output, writing with
      | none, _ => { code := 0, output := text, log := shownLines invocation work.log }
      | some _, some fault => .failed invocation work.log fault.message
      | some path, none =>
          { code := 0, log := shownLines invocation (work.log ++ [.info s!"Wrote {path}"]) }

/-- The report on a command line that is not run. A question is answered, and of a wrong usage
nothing is said. -/
def Stop.report (manual : Manual) : Stop → Report
  | .wrongUsage => { code := 2 }
  | .asks question => { code := 0, output := manual question }

/-- Runs a command line on a disk: the report, and the disk afterwards. Whatever the manual says, it is
only asked where a command line is not run. -/
def runOn
    (disk : Disk)
    (keyspace : Option String)
    (arguments : List String)
    (manual : Manual := programManual keyspace) :
    Report × Disk :=
  match Invocation.ofArguments keyspace arguments with
  | .error stop => (stop.report manual, disk)
  | .ok invocation =>
      let work := workOf disk.read invocation
      match work.toWrite? invocation with
      | none => (work.report invocation none, disk)
      | some (path, text) =>
          match disk.write path text with
          | .error fault => (work.report invocation (some fault), disk)
          | .ok written => (work.report invocation none, written)

end Program
end CqlDelta
