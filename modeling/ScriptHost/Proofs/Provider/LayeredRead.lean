import Mathlib.Data.List.Forall2
import Mathlib.Data.List.ReduceOption
import ScriptHost.Proofs.Provider.TreeWalk

/-!
# Reading layers

What a list of providers reads, whatever the providers are. The positions of the layers only feed errors, so
a read that succeeds depends on the layers without the gaps:

* **`Layers.read_eq_ok_iff`**: it succeeds exactly if every layer can be read, with the merge of their maps.
-/

namespace ScriptHost

namespace Layers

/-- The active layers without their positions are the list without its gaps. -/
theorem map_snd_activeFrom (start : Nat) (layers : Layers) :
    (activeFrom start layers).map Prod.snd = layers.reduceOption := by
  induction layers generalizing start with
  | nil => rfl
  | cons layer rest ih =>
    cases layer with
    | none => exact ih (start + 1)
    | some p => rw [activeFrom, List.map_cons, ih, List.reduceOption_cons_of_some]

/-- The walk over the active layers succeeds exactly if each of them can be read. -/
theorem readAll_eq_ok_iff {ctx : Context} {ls : List (Nat × Provider)} {maps : List DataMap} :
    readAll ctx ls = .ok maps ↔ List.Forall₂ (fun l m => l.2.read ctx = .ok m) ls maps := by
  induction ls generalizing maps with
  | nil =>
    rw [readAll, List.forall₂_nil_left_iff, Except.ok.injEq, eq_comm]
  | cons l rest ih =>
    obtain ⟨position, p⟩ := l
    rw [readAll, List.forall₂_cons_left_iff]
    -- the head ends the read with its error, or goes on with its map
    cases hp : p.read ctx with
    | error e => simp
    | ok data =>
      cases hrest : readAll ctx rest with
      | error e => simp [← ih, hrest]
      | ok more => simpa [← ih, hrest] using eq_comm

/-- **A read is all or nothing.** It succeeds exactly if every layer can be read, and then merges what they
hold from the lowest layer up. -/
theorem read_eq_ok_iff {layers : Layers} {ctx : Context} {data : DataMap} :
    read layers ctx = .ok data ↔
      ∃ maps, List.Forall₂ (fun p m => p.read ctx = .ok m) layers.reduceOption maps ∧
        data = DataMap.mergeList maps := by
  rw [← map_snd_activeFrom 0 layers]
  simp only [List.forall₂_map_left_iff, ← readAll_eq_ok_iff]
  rw [read, active]
  cases readAll ctx (activeFrom 0 layers) with
  | error e => simp
  | ok maps => simp [eq_comm]

end Layers

namespace Tree

/-- Taking out the gaps and making providers of the trees can be done in either order. -/
theorem reduceOption_providers (layers : List (Option Tree)) :
    (providers layers).reduceOption = layers.reduceOption.map provider := by
  induction layers with
  | nil => rfl
  | cons layer rest ih =>
    cases layer with
    | none => exact ih
    | some t =>
      rw [providers, List.reduceOption_cons_of_some, List.reduceOption_cons_of_some, ih,
        List.map_cons]

/-- Which keys the sites of layers have does not depend on the positions they are counted from. -/
theorem map_keys_sitesFrom (start : Nat) (layers : List (Option Tree)) :
    (sitesFrom start layers).map Site.keys = layers.reduceOption.flatMap leaves := by
  induction layers generalizing start with
  | nil => rfl
  | cons layer rest ih =>
    cases layer with
    | none => exact ih (start + 1)
    | some t =>
      rw [sitesFrom, List.map_append, List.map_map, ih, List.reduceOption_cons_of_some,
        List.flatMap_cons]
      rfl

/-- Gaps hold no per-call data, and layers hold that of the trees in them. -/
theorem leaves_layered (layers : List (Option Tree)) :
    (Tree.layered layers).leaves = layers.reduceOption.flatMap leaves :=
  map_keys_sitesFrom 0 layers

/-- A tree with one provider of per-call data stores what that provider stores. -/
theorem write_of_leaves_eq_singleton {t : Tree} {keys : DataKeys} (h : t.leaves = [keys])
    {ctx next : Context} {items : List Item} (hwrite : Buckets.write keys ctx items = .ok next) :
    t.provider.write ctx items = .ok next := by
  obtain ⟨s, hsites, rfl⟩ := List.map_eq_singleton_iff.mp h
  have hopen : ¬ t.AllFixed := by
    intro hfixed
    rw [hfixed.sites_eq_nil] at hsites
    cases hsites
  rw [write_of_not_allFixed hopen, hsites, writeSites_cons_ok hwrite]
  rfl

end Tree

end ScriptHost
