import ScriptHost.Json.Printer
import ScriptHost.Program.Basic
import ScriptHost.Time.Instant

/-!
# Outcomes

What an evaluation hands back: the value, its kind, how long it took and which program gave it. The kind
follows from the value unless an engine marks the value otherwise, say as an error.
-/

namespace ScriptHost

/-- The kinds of results. A value never has the kind of errors by itself. -/
inductive ResultKind where
  | none | bool | int | float | string | list | map | error
deriving DecidableEq, Repr

namespace ResultKind

def name : ResultKind → String
  | .none => "none"
  | .bool => "bool"
  | .int => "int"
  | .float => "float"
  | .string => "string"
  | .list => "list"
  | .map => "map"
  | .error => "error"

/-- The name of a kind in summaries. -/
def title (k : ResultKind) : String := k.name.capitalize

def all : List ResultKind := [.none, .bool, .int, .float, .string, .list, .map, .error]

def ofName? (name : String) : Option ResultKind := all.find? fun k => k.name == name

def ofValue : Value → ResultKind
  | .null => .none
  | .bool _ => .bool
  | .number (.int _) => .int
  | .number (.float _) => .float
  | .string _ => .string
  | .list _ => .list
  | .map _ => .map

end ResultKind

structure Outcome where
  value : Value
  kind : ResultKind
  duration : Duration
  programId : String

namespace Outcome

def new (value : Value) (duration : Duration) (programId : String) : Outcome :=
  ⟨value, .ofValue value, duration, programId⟩

def ofProgram {β π : Type} (p : Program β π) (value : Value) (duration : Duration) : Outcome :=
  new value duration p.id

def withKind (o : Outcome) (kind : ResultKind) : Outcome := { o with kind := kind }

def valueText (o : Outcome) : String := o.value.compact

def time (o : Outcome) : String := o.duration.text

end Outcome

end ScriptHost
