import CqlDelta.Json.Reader
import CqlDelta.Json.Typed
import CqlDelta.Plan.Making
import CqlDelta.Program.Disk

/-!
# Failures

Everything that can go wrong between a file and a plan, and how it is worded.
-/

namespace CqlDelta
namespace Program

/-- Why there is no plan. -/
inductive Failure where
  /-- A file cannot be read. -/
  | disk (fault : DiskFault)
  /-- A file does not hold what it should. -/
  | unreadable (path : String) (error : Json.ReadError)
  /-- A text does not hold what it should. -/
  | rejected (error : Json.ReadError)
  /-- A key column has no identifier. -/
  | key (fault : Plan.KeyFault)

/-- The wording of a failure. -/
def Failure.message : Failure → String
  | .disk fault => s!"IO error: {fault.message}"
  | .unreadable path error => s!"Failed to parse '{path}': {error.message}"
  | .rejected error => s!"Serialization error: {error.message}"
  | .key fault => s!"Malformed diff at '{fault.table}/{fault.column}': key column has no GUID"

/-- How the text of a file is found. -/
abbrev FileReader := String → Except DiskFault String

/-- Reads a document from its text. -/
def readText {α : Type} (reader : Json.Reader α) (text : String) : Except Failure α :=
  match (Json.Document.ofText text).read reader with
  | .ok value => .ok value
  | .error error => .error (.rejected error)

/-- Reads a document from a file. -/
def loadFile
    {α : Type}
    (files : FileReader)
    (reader : Json.Reader α)
    (path : String) :
    Except Failure α :=
  match files path with
  | .error fault => .error (.disk fault)
  | .ok text =>
      match (Json.Document.ofText text).read reader with
      | .ok value => .ok value
      | .error error => .error (.unreadable path error)

end Program
end CqlDelta
