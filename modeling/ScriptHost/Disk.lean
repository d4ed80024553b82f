/-!
# Files to read

A disk answers each path with a directory, the bytes of a file, or nothing. Paths and the names along them
have a greatest size; a path is measured before it is followed, a name only when it is looked up, in a
directory that is there. `ReadFault` lists what can go wrong when bytes are read.
-/

namespace ScriptHost

inductive ReadFault where
  | notFound
  | isDirectory
  | nameTooLong
  | nulInPath
  | notUtf8
deriving DecidableEq, Repr

/-- The wording of the operating system, with its number for the error. -/
def ReadFault.message : ReadFault → String
  | .notFound => "No such file or directory (os error 2)"
  | .isDirectory => "Is a directory (os error 21)"
  | .nameTooLong => "File name too long (os error 36)"
  | .nulInPath => "file name contained an unexpected NUL byte"
  | .notUtf8 => "stream did not contain valid UTF-8"

namespace Disk

inductive Entry where
  | directory
  | file (bytes : List UInt8)

/-- Whether names can be looked up in the entry. -/
def Entry.isDirectory : Entry → Bool
  | .directory => true
  | .file _ => false

/-- What reading the entry yields; a directory can be opened but not read. -/
def Entry.bytes : Entry → Except ReadFault (List UInt8)
  | .directory => .error .isDirectory
  | .file bytes => .ok bytes

end Disk

abbrev Disk : Type := String → Option Disk.Entry

namespace Disk

def maxPathSize : Nat := 4095

def maxNameSize : Nat := 255

/-- The names along a path. Repeated separators and single dots lead nowhere else. -/
def names (path : String) : List String :=
  (path.splitOn "/").filter fun name => name ≠ "" && name ≠ "."

def fitsName (name : String) : Bool := name.utf8ByteSize ≤ maxNameSize

/-- The part of a path before the first name that fits no directory. -/
def wayBeforeLongName (path : String) : String :=
  "/" ++ "/".intercalate ((names path).takeWhile fitsName)

/-- Whether following a path leads to a name that fits no directory. -/
def meetsLongName (disk : Disk) (path : String) : Bool :=
  !(names path).all fitsName && (disk (wayBeforeLongName path)).any Entry.isDirectory

/-- What a path leads to, or the first reason why it leads nowhere. -/
def entryAt (disk : Disk) (path : String) : Except ReadFault Entry :=
  -- the path is measured before it is followed
  if path.toList.contains '\x00' then .error .nulInPath
  else if maxPathSize < path.utf8ByteSize ∨ disk.meetsLongName path then .error .nameTooLong
  else
    match disk path with
    | some entry => .ok entry
    | none => .error .notFound

/-- A disk with nothing but its root directory, which is its own parent. -/
def bare : Disk := fun path =>
  if path.startsWith "/" && (names path).all (· == "..") then some .directory else none

end Disk

end ScriptHost
