import ScriptHost.Config
import ScriptHost.Data.Merge
import ScriptHost.Provider.Basic

/-!
# Per-call data in buckets

The provider of per-call data keeps one map under its key in the context, with a bucket for each kind of
item. Maps are merged into the input bucket one after the other; a request or a response takes the place of
the one before. A write stores what it can and reports the rest.
-/

namespace ScriptHost.Buckets

/-- The map that a context holds; an absent one counts as empty. -/
def read (keys : DataKeys) (ctx : Context) : Except ProviderFault DataMap :=
  if keys.contextKey = "" then .error .emptyKey
  else
    match ctx.value? keys.contextKey with
    | none => .ok ∅
    | some (.map data) => .ok data
    | some v => .error (.notAMap keys.contextKey v.shape)

/-- What a bucket holds after another map has been merged into it. -/
def merged (bucket? : Option Value) (addition : DataMap) : DataMap :=
  match bucket? with
  | some (.map existing) => DataMap.merge existing addition
  -- a bucket that holds no map is replaced like an absent one
  | _ => addition

def put (keys : DataKeys) (data : DataMap) : Classified → DataMap
  | .input addition =>
    data.insert keys.inputKey (.map (merged (data.get? keys.inputKey) addition))
  | .request replacement => data.insert keys.requestKey (.map replacement)
  | .response replacement => data.insert keys.responseKey (.map replacement)

/-- The context after a write of the items that can be stored; without any it stays as it is. -/
def commit (keys : DataKeys) (ctx : Context) (data : DataMap) : List Classified → Context
  | [] => ctx
  | first :: rest => ctx.bind keys.contextKey (.map ((first :: rest).foldl (put keys) data))

/-- Stores the items that can be stored. If some cannot, the context goes into the error. -/
def write (keys : DataKeys) (ctx : Context) (items : List Item) : Except ProviderFault Context :=
  match read keys ctx with
  | .error e => .error e
  | .ok data =>
    -- the items that can be stored are stored even if others fail
    let enriched := commit keys ctx data (Item.accepted items)
    match Item.failures items with
    | [] => .ok enriched
    | first :: rest => .error (.incomplete enriched (first :: rest))

end ScriptHost.Buckets

namespace ScriptHost.Provider

def buckets (keys : DataKeys) : Provider where
  read := Buckets.read keys
  write := Buckets.write keys

end ScriptHost.Provider
