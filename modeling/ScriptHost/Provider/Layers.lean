import ScriptHost.Data.Merge
import ScriptHost.Provider.Basic

/-!
# Providers in layers

A list of providers acts as one. Gaps in the list are passed over but count as positions. Reading merges
what the layers read, later ones winning, and stops at the first that fails. Writing hands the context from
layer to layer. It passes over layers of fixed data, and any other failure undoes the whole write; if every
layer refused, so does the list.
-/

namespace ScriptHost

/-- Providers from the lowest layer up, with gaps. -/
abbrev Layers : Type := List (Option Provider)

namespace Layers

/-- The layers that are no gaps, with their positions from `start` on. -/
def activeFrom (start : Nat) : Layers → List (Nat × Provider)
  | [] => []
  | none :: rest => activeFrom (start + 1) rest
  | some p :: rest => (start, p) :: activeFrom (start + 1) rest

def active (layers : Layers) : List (Nat × Provider) := activeFrom 0 layers

/-- What the layers read, in their order. -/
def readAll (ctx : Context) : List (Nat × Provider) → Except ProviderFault (List DataMap)
  | [] => .ok []
  | (position, p) :: rest =>
    match p.read ctx with
    | .error e => .error (.failed position e)
    | .ok data =>
      match readAll ctx rest with
      | .error e => .error e
      | .ok more => .ok (data :: more)

/-- Merges what the layers read, the later ones over the earlier. -/
def read (layers : Layers) (ctx : Context) : Except ProviderFault DataMap :=
  match readAll ctx (active layers) with
  | .error e => .error e
  | .ok maps => .ok (DataMap.mergeList maps)

/-- A write part way through: the context so far, and whether a layer has accepted or refused it. -/
structure Progress where
  context : Context
  accepted : Bool
  refused : Bool

/-- Hands the context through the layers. -/
def writeAll (items : List Item) : Progress → List (Nat × Provider) → Except ProviderFault Progress
  | progress, [] => .ok progress
  | progress, (position, p) :: rest =>
    match p.write progress.context items with
    | .ok context => writeAll items { progress with context := context, accepted := true } rest
    | .error e =>
      -- a refusal ends nothing: the layers behind still get the context as it is
      if e.isFixedRefusal then writeAll items { progress with refused := true } rest
      else .error (.failed position e)

/-- Writes the items into every layer that takes them. -/
def write (layers : Layers) (ctx : Context) (items : List Item) : Except ProviderFault Context :=
  match writeAll items ⟨ctx, false, false⟩ (active layers) with
  | .error e => .error e
  | .ok progress =>
    -- without active layers nothing has refused, and the write succeeds
    if !progress.accepted && progress.refused then .error .fixedData else .ok progress.context

/-- The summary of layers: how many there are, and how many are no gaps. -/
def describe (layers : Layers) : String :=
  "CompositeProvider \x7b providers: " ++ toString layers.length ++ ", active: "
    ++ toString (active layers).length ++ " \x7d"

end Layers

namespace Provider

def layered (layers : Layers) : Provider where
  read := layers.read
  write := layers.write

end Provider

end ScriptHost
