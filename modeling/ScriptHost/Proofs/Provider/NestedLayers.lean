import ScriptHost.Proofs.Data.MergeAssoc
import ScriptHost.Proofs.Provider.LayeredRead

/-!
# Layers within layers

Layers that are themselves a list of layers read as one map. Putting the lower part of a list into layers of
its own changes nothing that is read, because merging starts there; putting the upper part into layers of
its own merges that part first, and this can change what is read.

* **`regroup_iff`**: it changes nothing exactly if the maps that the layers hold can be regrouped.
-/

namespace ScriptHost

namespace Layers

variable {ctx : Context}

/-- Layers that can all be read, with no gap between them. -/
theorem read_of_reads {ps : List Provider} {maps : List DataMap}
    (h : List.Forall₂ (fun p m => p.read ctx = .ok m) ps maps) :
    (Provider.layered (ps.map some)).read ctx = .ok (DataMap.mergeList maps) := by
  refine read_eq_ok_iff.mpr ⟨maps, ?_, rfl⟩
  rwa [List.reduceOption, List.filterMap_map, Function.id_comp, List.filterMap_some]

section Three

variable {p q r : Provider} {a b c : DataMap}

theorem read_three (ha : p.read ctx = .ok a) (hb : q.read ctx = .ok b) (hc : r.read ctx = .ok c) :
    (Provider.layered [some p, some q, some r]).read ctx = .ok ((a.merge b).merge c) := by
  -- merging starts from the empty map, which leaves no trace
  rw [← DataMap.empty_merge a]
  exact read_of_reads (.cons ha (.cons hb (.cons hc .nil)))

/-- With the upper two in layers of their own, those two are merged first. -/
theorem read_three_nested (ha : p.read ctx = .ok a) (hb : q.read ctx = .ok b) (hc : r.read ctx = .ok c) :
    (Provider.layered [some p, some (.layered [some q, some r])]).read ctx = .ok (a.merge (b.merge c)) := by
  have hupper : (Provider.layered [some q, some r]).read ctx = .ok (b.merge c) := by
    rw [← DataMap.empty_merge b]
    exact read_of_reads (.cons hb (.cons hc .nil))
  rw [← DataMap.empty_merge a]
  exact read_of_reads (.cons ha (.cons hupper .nil))

end Three

/-- **When nesting changes nothing.** Three maps can be merged from the right as well as from the left exactly
if, wherever the middle one holds something that is no map between two maps, the upper map already has all
that the lower one could add. So a read of two layers on top that are nested is a read of all three exactly
if the maps that the three hold are such. -/
theorem regroup_iff :
    (∀ a b c : DataMap, (a.merge b).merge c = a.merge (b.merge c) ↔
      ∀ path lower upper, DataMap.PartedAt a b c path lower upper → lower.merge upper = upper) ∧
    (∀ (p q r : Provider) (ctx : Context) (a b c : DataMap),
      p.read ctx = .ok a → q.read ctx = .ok b → r.read ctx = .ok c →
      ((Provider.layered [some p, some (.layered [some q, some r])]).read ctx
          = (Provider.layered [some p, some q, some r]).read ctx ↔
        ∀ path lower upper, DataMap.PartedAt a b c path lower upper → lower.merge upper = upper)) := by
  refine ⟨DataMap.merge_assoc_iff, fun p q r ctx a b c ha hb hc => ?_⟩
  rw [read_three ha hb hc, read_three_nested ha hb hc, Except.ok.injEq, eq_comm]
  exact DataMap.merge_assoc_iff a b c

/-- A null between two maps: nested, it is forgotten, and the lower map shows through. -/
theorem regroup_iff_cleared :
    ∃ p q r : Provider,
      p.read .root = .ok (Buckets.single "k" (.map (Buckets.single "lower" (.bool true)))) ∧
      q.read .root = .ok (Buckets.single "k" .null) ∧
      r.read .root = .ok (Buckets.single "k" (.map (Buckets.single "upper" (.bool true)))) ∧
      (Provider.layered [some p, some (.layered [some q, some r])]).read .root
        ≠ (Provider.layered [some p, some q, some r]).read .root := by
  refine ⟨.fixed _, .fixed _, .fixed _, rfl, rfl, rfl, fun hsame => ?_⟩
  have hregroup := (regroup_iff.2 (.fixed _) (.fixed _) (.fixed _) .root _ _ _ rfl rfl rfl).mp hsame
  have hparted := hregroup ["k"] _ _ (DataMap.partedAt_singleton_iff.mpr ⟨rfl, ⟨.null, rfl, rfl⟩, rfl⟩)
  -- the upper map does not hold what the lower one adds
  have hlower := congrArg (Entries.get? · "lower") hparted
  cases hlower

end Layers

end ScriptHost
