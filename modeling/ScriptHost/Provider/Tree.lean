import ScriptHost.Provider.Buckets
import ScriptHost.Provider.Layers

/-!
# Trees of providers

The shape of a provider that is put together from fixed data, per-call buckets and layers. `Tree.provider`
is what the shape stands for.
-/

namespace ScriptHost

/-- How a provider is put together. -/
inductive Tree where
  | fixed (data : DataMap)
  | buckets (keys : DataKeys)
  | layered (layers : List (Option Tree))

namespace Tree

mutual

def provider : Tree → Provider
  | .fixed data => Provider.fixed data
  | .buckets keys => Provider.buckets keys
  | .layered layers => Provider.layered (providers layers)

/-- The layers of a tree as providers, with the gaps where they are. -/
def providers : List (Option Tree) → Layers
  | [] => []
  | none :: rest => none :: providers rest
  | some t :: rest => some t.provider :: providers rest

end

end Tree

end ScriptHost
