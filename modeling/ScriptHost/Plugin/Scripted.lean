import ScriptHost.Program.Source
import ScriptHost.Provider.Basic

/-!
# Scripted loaders and providers

Parts of a host that answer as they are told to. A loader fails for a given reason or hands out given bytes. A
provider answers with fixed data or an error when it is read, and when it is written with an error or with the
number of items in the context.
-/

namespace ScriptHost.Plugin

/-! ## Loaders

They look at no disk, so a host can see what becomes of any bytes and of any failure. -/

def loaderUrl : String := "driver:///script"

def failingLoader (reason : String) : Loader :=
  { url := loaderUrl, reader := fun _ => .error (.other reason) }

def bytesLoader (bytes : List UInt8) : Loader :=
  { url := loaderUrl, reader := fun _ => .ok (.ok bytes) }

/-! ## Providers

Reading and writing fail apart from each other. -/

/-- The key under which a scripted provider stores the number of items. -/
def seenKey : String := "seen"

/-- A provider that answers as told. Its write counts the items and looks at none. -/
def scripted (data : DataMap) (readError? writeError? : Option ProviderFault) : Provider where
  read _ :=
    match readError? with
    | some e => .error e
    | none => .ok data
  write ctx items :=
    match writeError? with
    | some e => .error e
    | none => .ok (ctx.bind seenKey (.ofNat items.length))

end ScriptHost.Plugin
