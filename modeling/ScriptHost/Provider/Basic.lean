import ScriptHost.Context
import ScriptHost.Item
import ScriptHost.Json.Printer

/-!
# Providers

A provider reads the data that a script sees in a context, and writes items into a context. This module
has the type, its errors, and the provider of fixed data, which refuses every write.
-/

namespace ScriptHost

/-- Why a provider could not read or write. -/
inductive ProviderFault where
  /-- The provider's data is fixed. -/
  | fixedData
  /-- The provider stores its data under an empty key. -/
  | emptyKey
  /-- The context holds something else than a map under the provider's key. -/
  | notAMap (key : String) (found : Shape)
  /-- Fixed data must be a map. -/
  | fixedNotAMap (v : Value)
  /-- Some items could not be stored; the context holds the others. -/
  | incomplete (context : Context) (failures : List ItemFault)
  /-- The provider at this position of a list failed. -/
  | failed (position : Nat) (source : ProviderFault)

namespace ProviderFault

/-- The wording of a fault. Layers name the position of the one that failed and give its wording behind it;
failed items are listed in one line. -/
def message : ProviderFault → String
  | .fixedData => "static provider does not support runtime updates"
  | .emptyKey => "context provider has an empty context key"
  | .notAMap key found =>
    "value at context key '" ++ key ++ "' is " ++ found.word ++ ", expected a string-keyed map"
  | .fixedNotAMap v => "static data must be a JSON object, got " ++ v.compact
  | .incomplete _ failures =>
    s!"failed to classify {failures.length} data item(s): "
      ++ "; ".intercalate (failures.map ItemFault.message)
  | .failed position source => s!"provider at position {position} failed: " ++ source.message

/-- The wordings of the causes behind an error, the nearest first. -/
def sources : ProviderFault → List String
  | .failed _ source => source.message :: source.sources
  | _ => []

/-- The error is a refusal by fixed data, at any depth. -/
def isFixedRefusal : ProviderFault → Bool
  | .fixedData => true
  | .failed _ source => source.isFixedRefusal
  | _ => false

/-- The context with the items that could be stored. The error of a list of providers hands out none. -/
def committed? : ProviderFault → Option Context
  | .incomplete context _ => some context
  | _ => none

end ProviderFault

/-- Reads data from a context and writes items into it. -/
structure Provider where
  read : Context → Except ProviderFault DataMap
  write : Context → List Item → Except ProviderFault Context

namespace Provider

/-- The provider of fixed data. It reads the same in every context and refuses every write. -/
def fixed (data : DataMap) : Provider where
  read _ := .ok data
  write _ _ := .error .fixedData

/-- Fixed data from a value: a map, or nothing. -/
def fixed? : Value → Except ProviderFault Provider
  | .map data => .ok (fixed data)
  | .null => .ok (fixed ∅)
  | v => .error (.fixedNotAMap v)

end Provider

end ScriptHost
