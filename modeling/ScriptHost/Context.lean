import ScriptHost.Data.Value
import ScriptHost.Text.Characters

/-!
# Contexts

A `Context` carries the data of one call. It never changes: `bind` derives a new context whose
look-ups see the new entry first, so a history of contexts branches like a tree. Cancellation is the one
thing that contexts share, and it runs down the tree only: `cancellable` derives a context with a token of
its own, which remembers the tokens above it. Which tokens have been fired is kept apart from the contexts,
in `Cancellations`; a token counts as cancelled when it or one above it has been fired.
-/

namespace ScriptHost

/-- Tells tokens apart: who issued the token, and how many that issuer had issued before. -/
structure Stamp where
  issuer : Nat
  serial : Nat
deriving DecidableEq, Repr

/-- Gives out stamps, each of them once. -/
structure Issuer where
  id : Nat
  issued : Nat
deriving DecidableEq, Repr

namespace Issuer

def stamp (i : Issuer) : Stamp := ⟨i.id, i.issued⟩

def next (i : Issuer) : Issuer := { i with issued := i.issued + 1 }

end Issuer

/-- A token that cancels the context it was made with and all that derive from it. -/
structure CancelToken where
  stamp : Stamp
  above : List Stamp
deriving DecidableEq, Repr

/-- The stamps of the tokens that have been fired, the latest first. -/
structure Cancellations where
  fired : List Stamp

namespace Cancellations

def none : Cancellations := ⟨[]⟩

def fire (c : Cancellations) (token : CancelToken) : Cancellations := ⟨token.stamp :: c.fired⟩

end Cancellations

namespace CancelToken

/-- The token itself and the tokens above it. -/
def lineage (token : CancelToken) : List Stamp := token.stamp :: token.above

/-- The token or one above it has been fired. -/
def isCancelled (token : CancelToken) (c : Cancellations) : Bool :=
  token.lineage.any fun stamp => c.fired.contains stamp

/-- A token is cancelled exactly when a stamp of its lineage has been fired. -/
theorem isCancelled_iff {token : CancelToken} {c : Cancellations} :
    token.isCancelled c = true ↔ ∃ stamp ∈ token.lineage, stamp ∈ c.fired := by
  simp [isCancelled]

end CancelToken

/-- Per-call data: the entries, the newest first, and the token that cancels the call. -/
structure Context where
  entries : List (String × Value)
  token? : Option CancelToken

namespace Context

def root : Context := ⟨[], none⟩

instance : Inhabited Context := ⟨root⟩

/-- Derives a context with one more entry, which hides an earlier one with the same key. -/
def bind (ctx : Context) (key : String) (value : Value) : Context :=
  { ctx with entries := (key, value) :: ctx.entries }

/-- The newest value under a key. -/
def value? (ctx : Context) (key : String) : Option Value := ctx.entries.lookup key

/-- The stamps of the tokens above what derives from this context. -/
def lineage (ctx : Context) : List Stamp := (ctx.token?.map CancelToken.lineage).getD []

/-- A new token below those of the context. -/
def childToken (ctx : Context) (stamp : Stamp) : CancelToken := ⟨stamp, ctx.lineage⟩

/-- Derives a context that a new token cancels. -/
def cancellable (ctx : Context) (stamp : Stamp) : Context :=
  { ctx with token? := some (ctx.childToken stamp) }

/-- A context without a token is never cancelled. -/
def isCancelled (ctx : Context) (c : Cancellations) : Bool :=
  ctx.token?.any (·.isCancelled c)

/-- The summary of a context: its keys, the newest first and the hidden ones included, and whether it is
cancelled. -/
def describe (ctx : Context) (c : Cancellations) : String :=
  "Context \x7b keys: " ++ Quoted.quoteList (ctx.entries.map Prod.fst) ++ ", cancelled: "
    ++ (if ctx.isCancelled c then "true" else "false") ++ " \x7d"

@[simp] theorem value?_root (k : String) : root.value? k = none := rfl

/-- An entry changes the look-up of its own key and of no other. -/
@[simp] theorem value?_bind (ctx : Context) (key : String) (v : Value) (k : String) :
    (ctx.bind key v).value? k = if k = key then some v else ctx.value? k := by
  unfold value? bind
  rw [List.lookup_cons]
  by_cases h : k = key
  · simp [h]
  · have : (k == key) = false := by simpa using h
    simp [h, this]

@[simp] theorem value?_cancellable (ctx : Context) (stamp : Stamp) (k : String) :
    (ctx.cancellable stamp).value? k = ctx.value? k := rfl

@[simp] theorem token?_bind (ctx : Context) (key : String) (v : Value) :
    (ctx.bind key v).token? = ctx.token? := rfl

@[simp] theorem isCancelled_bind (ctx : Context) (key : String) (v : Value) (c : Cancellations) :
    (ctx.bind key v).isCancelled c = ctx.isCancelled c := rfl

@[simp] theorem lineage_cancellable (ctx : Context) (stamp : Stamp) :
    (ctx.cancellable stamp).lineage = stamp :: ctx.lineage := rfl

/-- A context is cancelled exactly when a token on its lineage has been fired. -/
theorem isCancelled_iff {ctx : Context} {c : Cancellations} :
    ctx.isCancelled c = true ↔ ∃ stamp ∈ ctx.lineage, stamp ∈ c.fired := by
  unfold isCancelled lineage
  cases ctx.token? with
  | none => simp
  | some token => simp [CancelToken.isCancelled_iff]

end Context

end ScriptHost
