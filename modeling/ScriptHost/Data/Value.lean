import ScriptHost.Data.Dict

/-!
# Data values

What scripts read and return: `Value`, the values of JSON, with numbers split into whole numbers and
floating-point ones, and maps kept in key order. `DataMap` is the string-keyed map at the top of
everything a script sees.
-/

namespace ScriptHost

/-- A number is whole or a 64-bit float; the two are never equal. -/
inductive Number where
  | int (n : Int)
  | float (x : Float)
deriving DecidableEq

/-- Data as scripts see it. -/
inductive Value where
  | null
  | bool (b : Bool)
  | number (n : Number)
  | string (s : String)
  | list (items : List Value)
  | map (entries : Entries Value none)

/-- String-keyed data in key order. -/
abbrev DataMap : Type := Dict Value

instance : Inhabited Value := ⟨.null⟩

/-- The kind of a value, for messages. -/
inductive Shape where
  | null | bool | number | string | array | object
deriving DecidableEq, Repr

namespace Shape

def word : Shape → String
  | .null => "null"
  | .bool => "bool"
  | .number => "number"
  | .string => "string"
  | .array => "array"
  | .object => "object"

end Shape

namespace Value

def shape : Value → Shape
  | .null => .null
  | .bool _ => .bool
  | .number _ => .number
  | .string _ => .string
  | .list _ => .array
  | .map _ => .object

def ofNat (n : Nat) : Value := .number (.int n)

/-- The entries of a map; any other value is none. -/
def asMap? : Value → Option DataMap
  | .map m => some m
  | _ => none

theorem asMap?_eq_some_iff {v : Value} {m : DataMap} : v.asMap? = some m ↔ v = .map m := by
  cases v <;> simp [asMap?]

theorem shape_eq_object_iff {v : Value} : v.shape = .object ↔ ∃ m, v = .map m := by
  cases v <;> simp [shape]

end Value

end ScriptHost
