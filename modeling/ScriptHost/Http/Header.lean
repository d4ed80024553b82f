import ScriptHost.Data.Value
import ScriptHost.Text.Utf8

/-!
# Headers

Header lines in the order in which they were given, with names in lower case and values as bytes. A script
sees them as a map from the canonical name (`Content-Type`) to the list of values. Each name is looked up
once and stored under its canonical form, which tells apart exactly the names that differ in more than case.
-/

namespace ScriptHost.Http

/-- A header line. The name is in lower case, and the value need not be text. -/
structure Header where
  name : String
  value : List UInt8
deriving DecidableEq

/-- A character of a name or a method. -/
def isTokenChar (c : Char) : Bool := c.isAlphanum || "!#$%&'*+-.^_`|~".toList.contains c

namespace Header

def maxName : Nat := 65535

/-- A name has a character at least, and no more than fit into the table of names. -/
def isName (name : String) : Bool :=
  name.length != 0 && name.length ≤ maxName && name.toList.all isTokenChar

/-- A byte of a value: no control character but the tab. Bytes beyond ASCII are taken, whatever text they are
part of. -/
def isValueByte (b : UInt8) : Bool := (0x20 ≤ b && b != 0x7F) || b == 0x09

/-- A name whose parts between dashes have their first character in upper and the others in lower case;
`start` says that a part begins here. -/
def canonicalChars (start : Bool) : List Char → List Char
  | [] => []
  | c :: rest =>
    (if start then c.toUpper else c.toLower) :: canonicalChars (c == '-') rest

/-- The canonical form of a name: `x-request-id` becomes `X-Request-Id`. -/
def canonicalName (name : String) : String := String.ofList (canonicalChars true name.toList)

/-- The value as text, with the replacement character where it is none. -/
def text (h : Header) : String := Utf8.decodeLossy h.value

/-- The names of the lines, each once. -/
def names (headers : List Header) : List String := (headers.map name).eraseDups

/-- The texts of all lines of a name, in their order. -/
def texts (headers : List Header) (name : String) : List String :=
  (headers.filter fun h => h.name == name).map text

/-- The texts of each name, under its canonical form. -/
def grouped (headers : List Header) : Dict (List String) :=
  Entries.ofList ((names headers).map fun name => (canonicalName name, texts headers name))

def listsOfText (lists : Dict (List String)) : DataMap :=
  lists.map fun texts => .list (texts.map .string)

/-- The headers as a script sees them. -/
def toData (headers : List Header) : DataMap := listsOfText (grouped headers)

def first? (headers : List Header) (name : String) : Option String :=
  (headers.find? fun h => h.name == name).map text

end Header

end ScriptHost.Http
