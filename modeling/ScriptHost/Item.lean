import ScriptHost.Http.Message

/-!
# Items

An `Item` is one piece of per-call data that a host hands in. `Item.classify` turns it into the map that is
stored and says where it belongs; the position of the item in the host's list only feeds error messages.
-/

namespace ScriptHost

/-- A piece of per-call data: a map, a value that ought to be one, or a message. -/
inductive Item where
  | map (data : DataMap)
  | value (v : Value)
  | request (r : Http.Request)
  | response (r : Http.Response)

/-- An item that is ready to be stored, by the place where it belongs. -/
inductive Classified where
  | input (data : DataMap)
  | request (data : DataMap)
  | response (data : DataMap)

inductive BodyOwner where
  | request | response
deriving DecidableEq, Repr

def BodyOwner.word : BodyOwner → String
  | .request => "request"
  | .response => "response"

/-- Why the item at a position cannot be stored. -/
inductive ItemFault where
  | unsupported (position : Nat) (found : Shape)
  | invalidBody (position : Nat) (owner : BodyOwner) (fault : Utf8.Fault)
deriving DecidableEq

namespace ItemFault

def position : ItemFault → Nat
  | .unsupported n _ => n
  | .invalidBody n _ _ => n

def message : ItemFault → String
  | .unsupported n found => s!"unsupported data item at position {n}: " ++ found.word
  | .invalidBody n owner fault =>
    owner.word ++ s!" body at position {n} is not valid UTF-8: " ++ fault.message

/-- The wordings of the causes. A body has one; a value of the wrong kind has none. -/
def sources : ItemFault → List String
  | .unsupported _ _ => []
  | .invalidBody _ _ fault => [fault.message]

end ItemFault

namespace Item

/-- Where an item belongs, with the map that is stored. -/
def classify (position : Nat) : Item → Except ItemFault Classified
  | .map data => .ok (.input data)
  | .value (.map data) => .ok (.input data)
  | .value v => .error (.unsupported position v.shape)
  | .request r =>
    match r.toData with
    | .ok data => .ok (.request data)
    | .error fault => .error (.invalidBody position .request fault)
  | .response r =>
    match r.toData with
    | .ok data => .ok (.response data)
    | .error fault => .error (.invalidBody position .response fault)

/-- The outcomes for a list of items, with positions from `start` on. -/
def classifyFrom (start : Nat) : List Item → List (Except ItemFault Classified)
  | [] => []
  | item :: rest => item.classify start :: classifyFrom (start + 1) rest

def accepted (items : List Item) : List Classified :=
  (classifyFrom 0 items).filterMap fun
    | .ok c => some c
    | .error _ => none

def failures (items : List Item) : List ItemFault :=
  (classifyFrom 0 items).filterMap fun
    | .ok _ => none
    | .error e => some e

end Item

end ScriptHost
