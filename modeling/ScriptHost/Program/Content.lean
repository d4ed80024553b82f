import ScriptHost.Program.Source
import ScriptHost.Machine

/-!
# Compilers

A compiler turns the stream of a script into content for an engine. What the compiled form is, is up to
the engine; here it is a parameter.
-/

namespace ScriptHost

/-- A compiled script: its source, its compiled form, and the machine that runs it. -/
structure Content (β : Type) where
  source : String
  code : β
  machine : Machine

/-- The summary of a compiled script; the length is that of the source in bytes. -/
def Content.describe {β : Type} (c : Content β) : String :=
  "ExecutableContent \x7b machine_type: " ++ c.machine.title ++ ", source_len: "
    ++ toString c.source.utf8ByteSize ++ " \x7d"

inductive CompileFault where
  | unread (fault : ReadFault)
  | emptyScript
  | malformed (reason : String)
  | engine (machine : Machine) (reason : String)
deriving DecidableEq, Repr

namespace CompileFault

/-- The wording of a fault; that of an engine is introduced by the engine's name. -/
def message : CompileFault → String
  | .unread fault => "failed to read script: " ++ fault.message
  | .emptyScript => "script is empty"
  | .malformed reason => "syntax error: " ++ reason
  | .engine machine reason => machine.name ++ " compiler error: " ++ reason

def sources : CompileFault → List String
  | .unread fault => [fault.message]
  | _ => []

end CompileFault

abbrev Compiler (β : Type) : Type := Stream → Except CompileFault (Content β)

end ScriptHost
