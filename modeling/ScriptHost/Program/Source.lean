import ScriptHost.Disk
import ScriptHost.Text.Characters

/-!
# Loaders

A loader knows where a script comes from and opens it for reading. A file is opened anew each time, so what
it yields depends on the disk at that moment; that a path leads nowhere shows when it is opened, and that
it leads to a directory only when it is read.
-/

namespace ScriptHost

/-- The bytes that an opened script yields, or why they cannot be read. -/
abbrev Stream : Type := Except ReadFault (List UInt8)

inductive LoadFault where
  | emptySource
  | relativePath (path : String)
  | unopened (path : String) (fault : ReadFault)
  | other (reason : String)
deriving DecidableEq, Repr

namespace LoadFault

def message : LoadFault → String
  | .emptySource => "script source is empty"
  | .relativePath path => "script path must be absolute: " ++ path
  | .unopened path fault => "failed to open script " ++ path ++ ": " ++ fault.message
  | .other reason => "loader error: " ++ reason

def sources : LoadFault → List String
  | .unopened _ fault => [fault.message]
  | _ => []

end LoadFault

/-- Where a script comes from, and how it is opened. -/
structure Loader where
  url : String
  reader : Disk → Except LoadFault Stream

namespace Loader

def inlineUrl : String := "string:///inline"

/-- The characters that are escaped in the address of a file, besides those beyond ASCII. -/
def isEscapedInUrl (c : Char) : Bool :=
  c.toNat < 0x20 || c.toNat == 0x7F || " \"#<>?`\x7b\x7d/%\\".toList.contains c

/-- The address of a file, with the names of its path escaped. Empty names and single dots are left out. -/
def fileUrl (path : String) : String :=
  match Disk.names path with
  | [] => "file:///"
  | names => "file://" ++ String.join (names.map fun name => "/" ++ Percent.encode isEscapedInUrl name)

def scheme (url : String) : String := String.ofList (url.toList.takeWhile (· != ':'))

/-- A script that is given as text. Blanks alone are no script, but blanks around one are kept. -/
def ofText (source : String) : Except LoadFault Loader :=
  if Blank.isBlankText source then .error .emptySource
  else .ok { url := inlineUrl, reader := fun _ => .ok (.ok (Utf8.ofString source)) }

/-- A script in a file. The path must be absolute; whether it leads anywhere shows when the script is opened. -/
def ofFile (path : String) : Except LoadFault Loader :=
  if path.startsWith "/" then
    .ok { url := fileUrl path
          reader := fun disk =>
            match disk.entryAt path with
            | .ok entry => .ok entry.bytes
            | .error fault => .error (.unopened path fault) }
  else .error (.relativePath path)

end Loader

end ScriptHost
