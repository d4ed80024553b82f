import ScriptHost.Json.Record

/-!
# Machines

The families of script engines. A machine has a name in lower case, which is read in any case, and is
stored in JSON under exactly that name.
-/

namespace ScriptHost

inductive Machine where
  | risor
  | starlark
  | extism
deriving DecidableEq, Repr

namespace Machine

def name : Machine → String
  | .risor => "risor"
  | .starlark => "starlark"
  | .extism => "extism"

/-- The name of a machine in summaries. -/
def title : Machine → String
  | .risor => "Risor"
  | .starlark => "Starlark"
  | .extism => "Extism"

def all : List Machine := [.risor, .starlark, .extism]

def named? (name : String) : Option Machine := all.find? fun m => m.name == name

def ofName? (name : String) : Option Machine := named? name.toLower

def json (m : Machine) : List Char := Json.quote m.name

/-- The machine of a stored name. Other than a name that is typed in, it must be exact. -/
def ofVariant (name : String) : Except Json.Fault Machine :=
  match named? name with
  | some m => .ok m
  | none => .error (.unknownVariant name (all.map Machine.name))

/-- The key of the one member that an object must have. -/
def tag : Json.Reader Machine
  | .string read _ :: rest => do
    let name ← read
    return .first (← ofVariant name) _ rest
  | .closeObject :: _ => .error .valueExpected
  | [] => .error .endInObject
  | _ :: _ => .error .keyExpected

/-- Reads a machine: its name, or an object with its name as the key of a null. -/
def reader : Json.Reader Machine
  | .string read _ :: rest => do
    let name ← read
    return .first (← ofVariant name) _ rest
  | .openObject :: rest => do
    -- the one member is all that the object may have
    let machine ← tag rest
    let null ← Json.Record.afterKey Json.Reader.unit machine.rest
    match h : null.rest with
    | .closeObject :: after =>
      return ⟨machine.value, after, by
        have h₁ := machine.shorter
        have h₂ := null.shorter
        rw [h, List.length_cons] at h₂
        rw [List.length_cons]; omega⟩
    | [] => .error .endInObject
    | _ :: _ => .error .valueExpected
  | [] => .error .endInValue
  | _ :: _ => .error .valueExpected

def ofBytes (bytes : List UInt8) : Except Json.Fault Machine := reader.ofBytes bytes

end Machine

end ScriptHost
