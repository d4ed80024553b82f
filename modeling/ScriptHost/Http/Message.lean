import ScriptHost.Http.Header
import ScriptHost.Http.Query
import ScriptHost.Http.Status
import ScriptHost.Http.Uri

/-!
# Requests and responses

`RequestSpec.build` and `ResponseSpec.build` check the parts from which a message is put together, in the
order method or status, address, headers; of one header the value is looked at before the name.
`Request.toData` and `Response.toData` lay a message out as data for scripts, which is possible exactly when
its body is text.
-/

namespace ScriptHost.Http

inductive Fault where
  | badMethod
  | badStatus
  | badUri (fault : UriFault)
  | badHeaderName
  | badHeaderValue
deriving DecidableEq, Repr

def Fault.message : Fault → String
  | .badMethod => "invalid HTTP method"
  | .badStatus => "invalid status code"
  | .badUri fault => fault.message
  | .badHeaderName => "invalid HTTP header name"
  | .badHeaderValue => "failed to parse header value"

inductive Version where
  | v09 | v10 | v11 | v2 | v3
deriving DecidableEq, Repr

namespace Version

def number : Version → String
  | .v09 => "0.9"
  | .v10 => "1.0"
  | .v11 => "1.1"
  | .v2 => "2"
  | .v3 => "3"

def all : List Version := [.v09, .v10, .v11, .v2, .v3]

def ofNumber? (number : String) : Option Version := all.find? fun v => v.number == number

/-- The name of a version, as a script sees it. From the second version on it has two digits all the same. -/
def text : Version → String
  | .v09 => "HTTP/0.9"
  | .v10 => "HTTP/1.0"
  | .v11 => "HTTP/1.1"
  | .v2 => "HTTP/2.0"
  | .v3 => "HTTP/3.0"

end Version

/-- A method is any token, known or not. -/
def isMethod (method : String) : Bool := method.length != 0 && method.toList.all isTokenChar

/-- A request whose parts have been checked. -/
structure Request where
  method : String
  uri : Uri
  version : Version
  headers : List Header
  body : List UInt8

/-- A response whose parts have been checked. -/
structure Response where
  status : Status
  version : Version
  headers : List Header
  body : List UInt8

/-- A header line from a name in any case and a value. -/
def Header.build (line : String × List UInt8) : Except Fault Header :=
  if line.2.all Header.isValueByte then
    if Header.isName line.1 then .ok ⟨line.1.toLower, line.2⟩ else .error .badHeaderName
  else .error .badHeaderValue

structure RequestSpec where
  method : String
  uri : String
  version : Version
  headers : List (String × List UInt8)
  body : List UInt8

structure ResponseSpec where
  status : Nat
  version : Version
  headers : List (String × List UInt8)
  body : List UInt8

/-- Checks the parts of a request from the first to the last. The version and the body are taken as they are. -/
def RequestSpec.build (spec : RequestSpec) : Except Fault Request := do
  if !isMethod spec.method then throw .badMethod
  let uri ← (Uri.parse spec.uri.toList).mapError .badUri
  let headers ← spec.headers.mapM Header.build
  return ⟨spec.method, uri, spec.version, headers, spec.body⟩

def ResponseSpec.build (spec : ResponseSpec) : Except Fault Response :=
  match Status.ofNat? spec.status with
  | none => .error .badStatus
  | some status => do
    let headers ← spec.headers.mapM Header.build
    return ⟨status, spec.version, headers, spec.body⟩

def textValue (chars : List Char) : Value := .string (String.ofList chars)

/-- The parameters of a raw query as a script sees them. -/
def Query.toData (raw : List UInt8) : DataMap := Header.listsOfText (grouped raw)

namespace Request

/-- The host that a request is meant for: its first `Host` header, or else the authority of its
address. -/
def host (r : Request) : String :=
  match Header.first? r.headers "host" with
  | some host => host
  | none => String.ofList (r.uri.authority?.getD [])

def rawQuery (r : Request) : List Char := r.uri.query?.getD []

/-- The fields of a request with this text as its body. -/
def fields (r : Request) (body : String) : List (String × Value) :=
  [("Method", .string r.method),
    ("URL_String", textValue r.uri.text),
    ("URL_Scheme", textValue (r.uri.scheme?.getD [])),
    ("URL_Host", textValue (r.uri.authority?.getD [])),
    ("URL_Path", textValue r.uri.path),
    ("URL_RawQuery", textValue r.rawQuery),
    ("Proto", .string r.version.text),
    ("Header", .map (Header.toData r.headers)),
    ("Host", .string r.host),
    ("QueryParams", .map (Query.toData (Utf8.encode r.rawQuery))),
    ("Body", .string body),
    ("ContentLength", .ofNat r.body.length)]

/-- The request as data, if its body is text. -/
def toData (r : Request) : Except Utf8.Fault DataMap :=
  match Utf8.decodeString r.body with
  | .ok body => .ok (Entries.ofList (r.fields body))
  | .error fault => .error fault

end Request

namespace Response

def fields (r : Response) (body : String) : List (String × Value) :=
  [("Status", .string r.status.text),
    ("StatusCode", .ofNat r.status.code),
    ("Proto", .string r.version.text),
    ("Header", .map (Header.toData r.headers)),
    ("Body", .string body),
    ("ContentLength", .ofNat r.body.length)]

def toData (r : Response) : Except Utf8.Fault DataMap :=
  match Utf8.decodeString r.body with
  | .ok body => .ok (Entries.ofList (r.fields body))
  | .error fault => .error fault

end Response

end ScriptHost.Http
