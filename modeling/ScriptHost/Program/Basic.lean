import ScriptHost.Config
import ScriptHost.Digest.Sha256
import ScriptHost.Program.Content

/-!
# Programs

A `Program` is a compiled script that is bound to the provider of its data. A `Draft` collects the parts; of
two calls that set the same part the later counts. Building opens the script, compiles it, and names the
program: by the id that was set, or by the beginning of the source's digest if there is none or it is
empty.
-/

namespace ScriptHost

def sourceIdLength : Nat := 12

/-- The id that is derived from a source: the first digits of its digest. -/
def sourceId (source : String) : String :=
  String.ofList (Hex.ofBytes ((Sha256.digest (Utf8.ofString source)).take (sourceIdLength / 2)))

/-- **An id that is derived has twelve lower-case digits**, whatever the source. -/
theorem sourceId_digits (source : String) :
    (sourceId source).length = sourceIdLength ∧ ∀ c ∈ (sourceId source).toList, ∃ n < 16, c = Hex.digit n := by
  have htext : (sourceId source).toList
      = Hex.ofBytes ((Sha256.digest (Utf8.ofString source)).take (sourceIdLength / 2)) := String.toList_ofList
  constructor
  · rw [← String.length_toList, htext, Hex.length_ofBytes, List.length_take, Sha256.length_digest]
    rfl
  · rw [htext]
    exact fun c hc => Hex.exists_digit_of_mem_ofBytes hc

example : sourceId "hello" = "2cf24dba5fb0" := by decide +kernel

structure Program (β π : Type) where
  id : String
  loader : Loader
  compiler : Compiler β
  content : Content β
  provider : π

/-- Why there is no program. The three parts that may be missing are looked at in this order. -/
inductive BuildFault where
  | missingLoader
  | missingCompiler
  | missingProvider
  | loader (e : LoadFault)
  | compile (e : CompileFault)
deriving DecidableEq, Repr

namespace BuildFault

def message : BuildFault → String
  | .missingLoader => "executable unit requires a loader"
  | .missingCompiler => "executable unit requires a compiler"
  | .missingProvider => "executable unit requires a data provider"
  | .loader e => "failed to load script: " ++ e.message
  | .compile e => "failed to compile script: " ++ e.message

/-- The wordings of the causes behind an error, the nearest first. -/
def sources : BuildFault → List String
  | .loader e => e.message :: e.sources
  | .compile e => e.message :: e.sources
  | _ => []

end BuildFault

structure Draft (β π : Type) where
  id? : Option String
  loader? : Option Loader
  compiler? : Option (Compiler β)
  provider? : Option π

/-- A call that sets a part, or that brings a configuration. -/
inductive DraftStep (β π : Type) where
  | id (id : String)
  | config (config : HostConfig)
  | loader (loader : Loader)
  | compiler (compiler : Compiler β)
  | provider (provider : π)

namespace Draft

variable {β π : Type}

def empty : Draft β π := ⟨none, none, none, none⟩

/-- Sets a part. A configuration without an id leaves an earlier one alone. -/
def apply (d : Draft β π) : DraftStep β π → Draft β π
  | .id id => { d with id? := some id }
  | .config config => { d with id? := config.scriptId?.or d.id? }
  | .loader loader => { d with loader? := some loader }
  | .compiler compiler => { d with compiler? := some compiler }
  | .provider provider => { d with provider? := some provider }

def ofSteps (steps : List (DraftStep β π)) : Draft β π := steps.foldl apply empty

/-- The id of a program with this source. -/
def idFor (d : Draft β π) (source : String) : String :=
  match d.id? with
  | some id => if id = "" then sourceId source else id
  | none => sourceId source

def compile (disk : Disk) (loader : Loader) (compiler : Compiler β) :
    Except BuildFault (Content β) :=
  match loader.reader disk with
  | .error e => .error (.loader e)
  | .ok stream => (compiler stream).mapError .compile

/-- The program of a draft. The parts are asked for in a fixed order, so the first that is missing is reported. -/
def build (disk : Disk) (d : Draft β π) : Except BuildFault (Program β π) :=
  -- nothing is opened before all parts are there
  match d.loader? with
  | none => .error .missingLoader
  | some loader =>
    match d.compiler? with
    | none => .error .missingCompiler
    | some compiler =>
      match d.provider? with
      | none => .error .missingProvider
      | some provider =>
        match compile disk loader compiler with
        | .error e => .error e
        | .ok content => .ok ⟨d.idFor content.source, loader, compiler, content, provider⟩

end Draft

namespace Program

variable {β π : Type}

/-- Builds a program from all of its parts; an empty id counts as none. -/
def new (disk : Disk) (id : String) (loader : Loader) (compiler : Compiler β) (provider : π) :
    Except BuildFault (Program β π) :=
  (Draft.ofSteps [.id id, .loader loader, .compiler compiler, .provider provider]).build disk

/-- Opens and compiles the script once more. -/
def recompile (disk : Disk) (p : Program β π) : Except BuildFault (Content β) :=
  Draft.compile disk p.loader p.compiler

/-- The summary of a program, with the address of its script and without the script. -/
def describe (p : Program β π) (createdAt : String) : String :=
  "ExecutableUnit \x7b id: " ++ Quoted.quote p.id ++ ", created_at: " ++ createdAt
    ++ ", machine_type: " ++ p.content.machine.title ++ ", source_url: " ++ Quoted.quote p.loader.url
    ++ " \x7d"

end Program

end ScriptHost
