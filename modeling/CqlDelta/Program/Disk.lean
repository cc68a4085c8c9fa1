import CqlDelta.Listing

/-!
# A disk in memory

A disk holds files and directories below its root. A path that starts with a slash starts at the
root, and every other one at the disk's working directory, from which it can go up as far as the
root. Only what can go wrong with reading and writing whole files is modelled: a missing entry, a
directory in place of a file, a file in place of a directory, a name that no entry can have, and
bytes that are no text.
-/

namespace CqlDelta
namespace Program

/-- Why a file cannot be read or written. -/
inductive DiskFault where
  | notFound
  | isDirectory
  | notDirectory
  | nameTooLong
  | nulInName
  | notText
  | other (description : String)
deriving DecidableEq, Repr

/-- The wording of a disk fault. -/
def DiskFault.message : DiskFault → String
  | .notFound => "No such file or directory (os error 2)"
  | .isDirectory => "Is a directory (os error 21)"
  | .notDirectory => "Not a directory (os error 20)"
  | .nameTooLong => "File name too long (os error 36)"
  | .nulInName => "file name contained an unexpected NUL byte"
  | .notText => "stream did not contain valid UTF-8"
  | .other description => description

/-- An entry of a disk. -/
inductive DiskEntry where
  | file (bytes : ByteArray)
  | directory

/-- A place on a disk as the names on the way down from the root. -/
abbrev Steps := List (List Char)

/-- A disk: its working directory, and the entries by their steps. The directories above an entry
and the working directory need no entry of their own. -/
structure Disk where
  home : Steps := []
  entries : List (Steps × DiskEntry) := []

/-- The pieces of a path between its slashes. -/
def pathPieces (path : List Char) : Steps :=
  path.foldr
    (fun c pieces =>
      if c = '/' then [] :: pieces
      else
        match pieces with
        | [] => [[c]]
        | piece :: more => (c :: piece) :: more)
    [[]]

/-- Whether a piece of a path stays where it is. -/
def staysHere (piece : List Char) : Bool :=
  piece.isEmpty || piece == ['.']

/-- Whether a piece of a path goes up. -/
def goesUp (piece : List Char) : Bool :=
  piece == ['.', '.']

/-- The greatest number of bytes in a name. -/
def nameLimit : Nat := 255

/-- The greatest number of bytes in a path. -/
def pathLimit : Nat := 4095

/-- Goes on if a name is short enough. -/
def checkName (piece : List Char) : Except DiskFault Unit :=
  if (String.ofList piece).utf8ByteSize ≤ nameLimit then .ok () else .error .nameTooLong

/-- The pieces of a path that any entry could have. -/
def checkedPieces (path : String) : Except DiskFault Steps :=
  if path.toList.contains '\x00' then .error .nulInName
  else if pathLimit < path.utf8ByteSize then .error .nameTooLong
  else .ok (pathPieces path.toList)

namespace Disk

/-- The entry at some steps. The working directory and everything above it or above an entry is a
directory. -/
def at? (disk : Disk) (steps : Steps) : Option DiskEntry :=
  match disk.entries.find? fun entry => entry.1 == steps with
  | some entry => some entry.2
  | none =>
      if steps.isPrefixOf disk.home || disk.entries.any fun entry => steps.isPrefixOf entry.1 then
        some .directory
      else
        none

/-- Where a path starts. -/
def start (disk : Disk) (path : String) : Steps :=
  match path.toList with
  | '/' :: _ => []
  | _ => disk.home

/-- Follows pieces of a path from some steps. All but the last piece must lead to directories, and
going up from the root stays there. -/
def follow (disk : Disk) : Steps → Steps → Except DiskFault Steps
  | here, [] => .ok here
  | here, piece :: more =>
      match disk.at? here with
      | none => .error .notFound
      | some (.file _) => .error .notDirectory
      | some .directory =>
          if staysHere piece then follow disk here more
          else if goesUp piece then follow disk here.dropLast more
          else do
            checkName piece
            follow disk (here ++ [piece]) more

/-- The steps of a path. The empty path leads to the working directory. -/
def resolve (disk : Disk) (path : String) : Except DiskFault Steps := do
  disk.follow (disk.start path) (← checkedPieces path)

/-- The bytes of a file. -/
def bytesAt (disk : Disk) (path : String) : Except DiskFault ByteArray := do
  match disk.at? (← disk.resolve path) with
  | none => .error .notFound
  | some .directory => .error .isDirectory
  | some (.file bytes) => .ok bytes

/-- The text of a file. -/
def read (disk : Disk) (path : String) : Except DiskFault String := do
  match String.fromUTF8? (← disk.bytesAt path) with
  | some text => .ok text
  | none => .error .notText

/-- The pieces of a path without the empty ones at its end. -/
def withoutSlashes (pieces : Steps) : Steps :=
  (pieces.reverse.dropWhile List.isEmpty).reverse

/-- Where a text can be written. A path that ends with a slash names a directory, whether there is
one or not. -/
def target (disk : Disk) (path : String) : Except DiskFault Steps := do
  let pieces ← checkedPieces path
  let named := withoutSlashes pieces
  match named.getLast? with
  | none => .error .isDirectory
  | some last => do
      let above ← disk.follow (disk.start path) (named.dropLast ++ [[]])
      if staysHere last || goesUp last || named.length < pieces.length then
        .error .isDirectory
      else
        checkName last
        match disk.at? (above ++ [last]) with
        | some .directory => .error .isDirectory
        | _ => .ok (above ++ [last])

/-- Puts an entry at some steps. -/
def put (disk : Disk) (steps : Steps) (entry : DiskEntry) : Disk :=
  { disk with entries := (steps, entry) :: disk.entries.filter fun other => other.1 != steps }

/-- Writes a text. -/
def write (disk : Disk) (path text : String) : Except DiskFault Disk := do
  let steps ← disk.target path
  return disk.put steps (.file text.toUTF8)

/-- The place that a path without steps upwards names. -/
def place (disk : Disk) (path : String) : Steps :=
  disk.start path ++ (pathPieces path.toList).filter fun piece => !staysHere piece

/-- The disk of a working directory and named entries. -/
def ofEntries (home : Steps) (entries : Listing DiskEntry) : Disk :=
  entries.foldl (fun disk entry => disk.put (disk.place entry.1) entry.2) { home := home }

end Disk
end Program
end CqlDelta
