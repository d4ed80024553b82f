import ScriptHost.Run.Outcome
import ScriptHost.Provider.Basic

/-!
# Evaluation

What every engine does in the same way: write a host's items through a provider, read the data that a
script sees, and stop when the call has been cancelled. An `Evaluator` is an engine that is bound to a
program; writing plain maps is writing them as items.
-/

namespace ScriptHost

/-- Why an evaluation has no outcome, or a write before it no context. -/
inductive EvalFault where
  | noProvider
  | enrichment (e : ProviderFault)
  | inputData (e : ProviderFault)
  | cancelled
  | codeMismatch (machine : Machine) (expected : String)
  | execution (reason : String)

namespace EvalFault

def message : EvalFault → String
  | .noProvider => "no data provider available"
  | .enrichment e => "failed to add data to context: " ++ e.message
  | .inputData e => "failed to load input data: " ++ e.message
  | .cancelled => "evaluation cancelled"
  | .codeMismatch machine expected =>
    machine.name ++ " content has unexpected byte code, expected " ++ expected
  | .execution reason => "script execution failed: " ++ reason

/-- The wordings of the causes behind an error, the nearest first. -/
def sources : EvalFault → List String
  | .enrichment e | .inputData e => e.message :: e.sources
  | _ => []

/-- The context with the items that could be stored before the failure. -/
def committed? : EvalFault → Option Context
  | .enrichment e => e.committed?
  | _ => none

end EvalFault

/-- Writes items into a context through a provider, if there is one. -/
def enrich (provider? : Option Provider) (ctx : Context) (items : List Item) :
    Except EvalFault Context :=
  match provider? with
  | none => .error .noProvider
  | some p => (p.write ctx items).mapError .enrichment

def requireActive (ctx : Context) (c : Cancellations) : Except EvalFault Unit :=
  if ctx.isCancelled c then .error .cancelled else .ok ()

/-- The data that a script of the program sees in a context. -/
def Program.input {β : Type} (p : Program β Provider) (ctx : Context) : Except EvalFault DataMap :=
  (p.provider.read ctx).mapError .inputData

/-- Writes items into a context through the program's provider. -/
def Program.prepare {β : Type} (p : Program β Provider) (ctx : Context) (items : List Item) :
    Except EvalFault Context :=
  enrich (some p.provider) ctx items

structure Evaluator where
  eval : Cancellations → Context → Except EvalFault Outcome
  prepare : Context → List Item → Except EvalFault Context

def Evaluator.prepareMaps (e : Evaluator) (ctx : Context) (maps : List DataMap) : Except EvalFault Context :=
  e.prepare ctx (maps.map .map)

end ScriptHost
