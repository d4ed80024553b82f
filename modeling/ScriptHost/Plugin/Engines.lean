import ScriptHost.Run.Evaluator

/-!
# Sample compilers and engines

Small compilers and engines for hosts without an engine of their own. Of the compiled forms a path names a value
by the keys that lead to it and a text stands for itself; a raw script has no form that any engine here takes. An
engine first makes sure that the call is active and that it understands the compiled form, then reads the data,
and then runs: one follows a path into the data, the other looks a text up as a key.
-/

namespace ScriptHost.Plugin

/-! ## Compilers

They differ in what they make of the text. All of them read it in the same way, so a script that is no text
fails alike. -/

inductive Code where
  | segments (path : List String)
  | text (s : String)
  | raw (s : String)
deriving DecidableEq, Repr

/-- The sample compilers. Two of them refuse every script, each in its own way. -/
inductive CompilerKind where
  | path | text | trim | raw | malformed | engine
deriving DecidableEq, Repr

namespace CompilerKind

def name : CompilerKind → String
  | .path => "path"
  | .text => "text"
  | .trim => "trim"
  | .raw => "raw"
  | .malformed => "syntax"
  | .engine => "engine"

def all : List CompilerKind := [.path, .text, .trim, .raw, .malformed, .engine]

def ofName? (name : String) : Option CompilerKind := all.find? fun k => k.name == name

end CompilerKind

def readText (stream : Stream) : Except CompileFault String :=
  match stream with
  | .error fault => .error (.unread fault)
  | .ok bytes =>
    match Utf8.decodeString bytes with
    | .ok text => .ok text
    | .error _ => .error (.unread .notUtf8)

def isSegment (s : String) : Bool := s ≠ "" && s.toList.all fun c => !Blank.isBlank c

def parsePath (text : String) : Except CompileFault (List String) :=
  let trimmed := Blank.trim text
  if trimmed = "" then .error .emptyScript
  else
    let segments := trimmed.splitOn "."
    if segments.all isSegment then .ok segments
    else .error (.malformed ("invalid path '" ++ trimmed ++ "'"))

/-- The sample compiler of this kind for a machine; `reason` is what the failing ones say. -/
def compiler (kind : CompilerKind) (machine : Machine) (reason : String) : Compiler Code :=
  fun stream =>
    match kind with
    | .malformed => .error (.malformed reason)
    | .engine => .error (.engine machine reason)
    | .path => do
      let text ← readText stream
      return ⟨text, .segments (← parsePath text), machine⟩
    | .text => do
      let text ← readText stream
      return ⟨text, .text text, machine⟩
    | .trim => do
      let text := Blank.trim (← readText stream)
      return ⟨text, .text text, machine⟩
    | .raw => do
      let text ← readText stream
      if text = "" then .error .emptyScript else return ⟨text, .raw text, machine⟩

/-! ## Engines

Each engine takes one compiled form. The checks before a run are the same for both, and their order shows in
which error a host gets. -/

inductive Engine where
  | follow
  | lookUp
deriving DecidableEq, Repr

/-- The compiled form that an engine takes, as its error names it. -/
def Engine.expected : Engine → String
  | .follow => "Vec<String>"
  | .lookUp => "TextContent"

/-- Follows a path; a missing key leads to nothing, and nothing leads on only from a map. -/
def valueAt (v : Value) : List String → Except EvalFault Value
  | [] => .ok v
  | segment :: rest =>
    match v with
    | .map m => valueAt ((m.get? segment).getD .null) rest
    | _ => .error (.execution ("cannot read '" ++ segment ++ "' from a non-map value"))

/-- What the engine does with the data, if it understands the compiled form. -/
def Engine.task? : Engine → Code → Option (DataMap → Except EvalFault Value)
  | .follow, .segments path => some fun data => valueAt (.map data) path
  | .lookUp, .text s => some fun data => .ok ((data.get? (Blank.trim s)).getD .null)
  | _, _ => none

/-- Runs a program in a context. The duration is the host's to measure. -/
def Engine.eval (engine : Engine) (p : Program Code Provider) (duration : Duration) (c : Cancellations)
    (ctx : Context) : Except EvalFault Outcome := do
  -- neither a cancelled call nor code of another kind reads the data
  requireActive ctx c
  match engine.task? p.content.code with
  | none => .error (.codeMismatch p.content.machine engine.expected)
  | some task =>
    let data ← p.input ctx
    let value ← task data
    return .ofProgram p value duration

def Engine.evaluator (engine : Engine) (p : Program Code Provider) (duration : Duration) : Evaluator where
  eval := engine.eval p duration
  prepare := p.prepare

end ScriptHost.Plugin
