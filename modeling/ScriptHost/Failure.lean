import ScriptHost.Run.Evaluator

/-!
# Failures of a host

One type for everything that can go wrong, for hosts that do not tell the parts of the library apart.
-/

namespace ScriptHost

inductive Failure where
  | data (e : ProviderFault)
  | loader (e : LoadFault)
  | compile (e : CompileFault)
  | program (e : BuildFault)
  | eval (e : EvalFault)
  | config (e : ConfigFault)

namespace Failure

def message : Failure → String
  | .data e => "Data error: " ++ e.message
  | .loader e => "Loader error: " ++ e.message
  | .compile e => "Compile error: " ++ e.message
  | .program e => "Unit error: " ++ e.message
  | .eval e => "Eval error: " ++ e.message
  | .config e => "Config error: " ++ e.message

/-- The failure is a refusal of a write by fixed data, at any depth. -/
def isFixedRefusal : Failure → Bool
  | .data e | .eval (.enrichment e) => e.isFixedRefusal
  | _ => false

end Failure

end ScriptHost
