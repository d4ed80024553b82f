import ScriptHost.Disk
import ScriptHost.Json.Record

/-!
# Configuration

`DataKeys` names the places of per-call data: the key of a context under which it lies, and the keys of
the three buckets inside. `HostConfig` adds a fixed id for scripts. Both are written as JSON objects with
their members in the order of declaration, and read from JSON text in which every member may be missing.
-/

namespace ScriptHost

/-- The keys under which per-call data is stored. -/
structure DataKeys where
  contextKey : String
  inputKey : String
  requestKey : String
  responseKey : String
deriving DecidableEq, Repr

/-- What a host fixes for all of its scripts: the keys of per-call data, and an id that takes the place of the
one made from a script's source. -/
structure HostConfig where
  data : DataKeys
  scriptId? : Option String
deriving DecidableEq, Repr

namespace DataKeys

def standard : DataKeys := ⟨"eval_data", "input_data", "request", "response"⟩

instance : Inhabited DataKeys := ⟨standard⟩

def members (keys : DataKeys) : List (String × List Char) :=
  [("context_key", Json.quote keys.contextKey), ("input_key", Json.quote keys.inputKey),
    ("request_key", Json.quote keys.requestKey), ("response_key", Json.quote keys.responseKey)]

def text (keys : DataKeys) : List Char := Json.object keys.members

/-- A member that holds a text and may be missing. -/
def field (name : String) (set : String → DataKeys → DataKeys) : Json.Field DataKeys where
  name := name
  required := false
  read := Json.Reader.string.map set

/-- Every member may be missing, and names that are not known are passed over. -/
def record : Json.Record DataKeys where
  title := "DataConfig"
  fields :=
    [field "context_key" fun s keys => { keys with contextKey := s },
      field "input_key" fun s keys => { keys with inputKey := s },
      field "request_key" fun s keys => { keys with requestKey := s },
      field "response_key" fun s keys => { keys with responseKey := s }]
  closed := false
  initial := standard
  check _ := .ok ()

def ofBytes (bytes : List UInt8) : Except Json.Fault DataKeys := record.read.ofBytes bytes

end DataKeys

namespace HostConfig

def standard : HostConfig := ⟨.standard, none⟩

/-- An id that is not fixed is written as a missing value. -/
def idText : Option String → List Char
  | none => ['n', 'u', 'l', 'l']
  | some id => Json.quote id

/-- The members of a configuration, with this text for its keys. -/
def membersWith (config : HostConfig) (data : List Char) : List (String × List Char) :=
  [("data", data), ("script_id", idText config.scriptId?)]

def text (config : HostConfig) : List Char := Json.object (config.membersWith config.data.text)

/-- As for the keys, a level further out. -/
def record : Json.Record HostConfig where
  title := "RuntimeConfig"
  fields :=
    [{ name := "data"
       required := false
       read := DataKeys.record.read.map fun keys config => { config with data := keys } },
      { name := "script_id"
        required := false
        read := Json.Reader.string.orNull.map fun id config => { config with scriptId? := id } }]
  closed := false
  initial := standard
  check _ := .ok ()

def ofBytes (bytes : List UInt8) : Except Json.Fault HostConfig := record.read.ofBytes bytes

end HostConfig

/-- Why there is no configuration. A file can fail before its text does. -/
inductive ConfigFault where
  | text (fault : Json.Fault)
  | file (fault : Json.Fault)
  | unopened (fault : ReadFault)

namespace ConfigFault

def message : ConfigFault → String
  | .text fault => "Failed to parse config: " ++ fault.message
  | .file fault => "Failed to parse config file: " ++ fault.message
  | .unopened fault => "Failed to open config file: " ++ fault.message

def fromText {α : Type} (read : List UInt8 → Except Json.Fault α) (text : String) :
    Except ConfigFault α :=
  (read (Utf8.ofString text)).mapError .text

/-- A configuration from a file that may be missing. -/
def fromFile {α : Type} (read : List UInt8 → Except Json.Fault α) (file? : Option (List UInt8)) :
    Except ConfigFault α :=
  match file? with
  | none => .error (.unopened .notFound)
  | some bytes => (read bytes).mapError .file

end ConfigFault

end ScriptHost
