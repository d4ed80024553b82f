import ScriptHost.Plugin.Engines
import ScriptHost.Proofs.Data.MergePaths
import ScriptHost.Proofs.Provider.LayeredRead

/-!
# What a script sees after its host has written

The usual program has fixed data in its lower layers and per-call data on top. Its host writes maps, and its
script then reads one map: the fixed data, with the stored maps laid over it in their order.

* **`Evaluator.input_after_prepareMaps`**: the write succeeds, and what is read is that map. Along a path of
  keys, the last map always has its say, and fixed data is hidden only where per-call data lies.
-/

namespace ScriptHost

namespace Buckets

variable {keys : DataKeys} {ctx : Context} {stored : DataMap} {maps : List DataMap}

/-- What a provider of per-call data holds once these maps have been written over what it held. -/
def withMaps (keys : DataKeys) (stored : DataMap) (maps : List DataMap) : DataMap :=
  stored.insert keys.inputKey (.map (maps.foldl DataMap.merge (stored.mapAt keys.inputKey)))

/-- Maps can all be stored, so writing them succeeds wherever the stored data can be read. -/
theorem write_maps (hread : read keys ctx = .ok stored) (hmaps : maps ≠ []) :
    ∃ next, write keys ctx (maps.map .map) = .ok next ∧
      read keys next = .ok (withMaps keys stored maps) := by
  refine ⟨_, write_of_storable hread (Item.failures_maps maps), ?_⟩
  rw [read_commit hread, Item.accepted_maps, foldl_put_inputs keys stored hmaps, withMaps]

/-- What the last map holds at a path, other than maps, is found at that path in the input bucket. -/
theorem at?_withMaps_of_leaf {last : DataMap} (hlast : maps.getLast? = some last) {path : List String}
    {v : Value} (hv : v.asMap? = none) (h : (Value.map last).at? path = some v) :
    (Value.map (withMaps keys stored maps)).at? (keys.inputKey :: path) = some v := by
  rw [withMaps, Value.at?_map_cons, Entries.get?_insert_self, Option.bind_some]
  exact DataMap.at?_foldl_merge_of_leaf hlast hv h _

end Buckets

namespace Tree

/-- Per-call data over layers of fixed data reads as their maps do, laid over each other. -/
theorem read_over_fixed {layers : List (Option Tree)} {statics : List DataMap} {keys : DataKeys}
    (hlayers : layers.reduceOption = statics.map .fixed ++ [.buckets keys]) {ctx : Context}
    {data : DataMap} (hread : Buckets.read keys ctx = .ok data) :
    (Tree.layered layers).provider.read ctx = .ok ((DataMap.mergeList statics).merge data) := by
  show Layers.read (providers layers) ctx = _
  refine Layers.read_eq_ok_iff.mpr ⟨statics ++ [data], ?_, (DataMap.mergeList_concat statics data).symm⟩
  rw [reduceOption_providers, hlayers, List.map_append, List.map_map]
  -- fixed data reads as its map, and the layer on top as what is stored
  refine List.rel_append ?_ (.cons hread .nil)
  exact List.forall₂_map_left_iff.mpr (List.forall₂_same.mpr fun _ _ => rfl)

/-- Fixed data and gaps hold no per-call data, so the provider on top is the only one. -/
theorem leaves_over_fixed {layers : List (Option Tree)} {statics : List DataMap} {keys : DataKeys}
    (hlayers : layers.reduceOption = statics.map .fixed ++ [.buckets keys]) :
    (Tree.layered layers).leaves = [keys] := by
  have hstatics : (statics.map Tree.fixed).flatMap leaves = [] := by
    rw [List.flatMap_map]
    exact List.flatMap_eq_nil_iff.mpr fun _ _ => rfl
  rw [leaves_layered, hlayers, List.flatMap_append, hstatics]
  rfl

end Tree

namespace Evaluator

/-- **What a script sees.** Fixed data in any number of layers, per-call data on top, and a host that
writes some maps: the write succeeds, and the script reads the stored maps, laid over the fixed data. A value
of the last map that is no map is read at its path in the input bucket. A value of the fixed data is read
unless per-call data holds something there, or something else than a map on the way. -/
theorem input_after_prepareMaps {β : Type} (p : Program β Provider) (e : Evaluator)
    (heval : e.prepare = p.prepare) (layers : List (Option Tree)) (statics : List DataMap)
    (keys : DataKeys) (hprovider : p.provider = (Tree.layered layers).provider)
    (hlayers : layers.reduceOption = statics.map .fixed ++ [.buckets keys])
    (ctx : Context) (stored : DataMap) (hread : (Provider.buckets keys).read ctx = .ok stored)
    (maps : List DataMap) (hmaps : maps ≠ []) :
    ∃ next seen, e.prepareMaps ctx maps = .ok next ∧ p.input next = .ok seen ∧
      seen = (DataMap.mergeList statics).merge (Buckets.withMaps keys stored maps) ∧
      (∀ last path v, maps.getLast? = some last → (Value.map last).at? path = some v →
        v.shape ≠ .object → (Value.map seen).at? (keys.inputKey :: path) = some v) ∧
      (∀ path v, (Value.map (DataMap.mergeList statics)).at? path = some v →
        (Value.map (Buckets.withMaps keys stored maps)).FreeAt path →
        (Value.map seen).at? path = some v) := by
  obtain ⟨next, hwrite, hnext⟩ := Buckets.write_maps hread hmaps
  have hprepare : e.prepareMaps ctx maps = .ok next := by
    rw [prepareMaps, heval, Program.prepare, enrich, hprovider,
      Tree.write_of_leaves_eq_singleton (Tree.leaves_over_fixed hlayers) hwrite]
    rfl
  have hinput : p.input next
      = .ok ((DataMap.mergeList statics).merge (Buckets.withMaps keys stored maps)) := by
    rw [Program.input, hprovider, Tree.read_over_fixed hlayers hnext]
    rfl
  -- the map that is read is known, and the rest is about one merge
  refine ⟨next, _, hprepare, hinput, rfl, fun last path v hlast hv hshape => ?_,
    fun path v hv hfree => ?_⟩
  · have hleaf : v.asMap? = none := Value.asMap?_eq_none_iff.mpr hshape
    exact DataMap.at?_merge_of_leaf hleaf (Buckets.at?_withMaps_of_leaf hlast hleaf hv) _
  · rw [DataMap.at?_merge_of_freeAt hfree, hv]

/-- A greeting, and a name in the place where names of callers are stored. -/
def greeterDefaults : List DataMap :=
  [Buckets.single "greeting" (.string "hello"),
    Buckets.single "input_data" (.map (Buckets.single "name" (.string "nobody")))]

/-- Fixed data in layers of its own, with gaps around them and per-call data on top. -/
def greeterLayers : List (Option Tree) :=
  [none] ++ greeterDefaults.map (fun data => some (.fixed data))
    ++ [none, some (.buckets .standard), none]

def greeter : Program Plugin.Code Provider where
  id := "greeter"
  loader := ⟨Loader.inlineUrl, fun _ => .ok (.ok [])⟩
  compiler := Plugin.compiler .text .risor ""
  content := ⟨"greeting", .text "greeting", .risor⟩
  provider := (Tree.layered greeterLayers).provider

/-- A name, and then its parts in place of it. -/
def names : List DataMap :=
  [Buckets.single "name" (.string "grace"),
    Buckets.single "name" (.map (Buckets.single "first" (.string "grace")))]

/-- The parts of the name are read below the input bucket, and the greeting is still there. -/
theorem input_after_prepareMaps_greeter :
    greeterLayers.reduceOption = greeterDefaults.map .fixed ++ [.buckets .standard] ∧
    (Provider.buckets .standard).read .root = .ok ∅ ∧
    ∃ next seen,
      (Plugin.Engine.lookUp.evaluator greeter (.ofNanos 0)).prepareMaps .root names = .ok next ∧
      greeter.input next = .ok seen ∧
      (Value.map seen).at? ["input_data", "name", "first"] = some (.string "grace") ∧
      (Value.map seen).at? ["greeting"] = some (.string "hello") := by
  obtain ⟨next, seen, hprepare, hinput, _, hlast, hfixed⟩ :=
    input_after_prepareMaps greeter (Plugin.Engine.lookUp.evaluator greeter (.ofNanos 0)) rfl
      greeterLayers greeterDefaults .standard rfl rfl .root ∅ rfl names (by simp [names])
  refine ⟨rfl, rfl, next, seen, hprepare, hinput, ?_, ?_⟩
  · exact hlast _ ["name", "first"] _ rfl rfl (by decide)
  · refine hfixed ["greeting"] _ rfl (Value.freeAt_map_cons_iff.mpr fun w hw => ?_)
    cases hw

end Evaluator

end ScriptHost
