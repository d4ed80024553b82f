import Mathlib.Data.List.Induction
import Mathlib.Data.Nat.Find
import Mathlib.Order.Basic
import ScriptHost.Provider.Layers

/-!
# Positions of layers

The error of a list of providers names the position of the layer that failed, and gaps count as positions. Two
things about positions are said here, for reads and writes alike.

* **`active_thinned`**: if layers are taken out of a list, those that are left move down, each by the number
  of those that were taken out before it.
* **`FailsFirst`**: the lowest layer that fails. Some layer fails first as soon as one fails at all, and which
  one it is does not depend on the layers above it.
-/

namespace ScriptHost

/-- The error of layers whose positions have changed. -/
def ProviderFault.renumbered (f : Nat → Nat) : ProviderFault → ProviderFault
  | .failed position source => .failed (f position) source
  | e => e

namespace Layers

/-! ## Active layers

A gap has a position and is never active. The positions of the layers that are come from the list as it stands,
gaps counted. -/

/-- The walk that counts positions, as the library's indexed list without the gaps. -/
theorem activeFrom_eq (start : Nat) (layers : Layers) :
    activeFrom start layers = (layers.zipIdx start).filterMap fun l => l.1.map fun p => (l.2, p) := by
  induction layers generalizing start with
  | nil => rfl
  | cons layer rest ih =>
    rw [List.zipIdx_cons, List.filterMap_cons, ← ih]
    cases layer <;> rfl

theorem active_append (front rest : Layers) :
    active (front ++ rest) = active front ++ activeFrom front.length rest := by
  simp only [active, activeFrom_eq, List.zipIdx_append, List.filterMap_append, Nat.zero_add]

/-- A layer is active at its position in the list. -/
theorem mem_active_iff {layers : Layers} {l : Nat × Provider} :
    l ∈ active layers ↔ layers[l.1]? = some (some l.2) := by
  rw [active, activeFrom_eq, List.mem_filterMap]
  -- gaps are dropped by the map and layers are not
  constructor
  · rintro ⟨⟨layer, i⟩, hmem, hl⟩
    obtain ⟨p, rfl, rfl⟩ := Option.map_eq_some_iff.mp hl
    exact List.mem_zipIdx_iff_getElem?.mp hmem
  · intro h
    exact ⟨(some l.2, l.1), List.mem_zipIdx_iff_getElem?.mpr h, rfl⟩

theorem position_lt_length {layers : Layers} {l : Nat × Provider} (h : l ∈ active layers) :
    l.1 < layers.length :=
  (List.getElem?_eq_some_iff.mp (mem_active_iff.mp h)).1

/-! ## Taking layers out

When some layers are taken out, and all gaps with them, the others move together. The new position of a layer is
the number of those that are kept below it. -/

/-- The layers at the positions that are kept, without the gaps. -/
def thinned (keep : Nat → Bool) (layers : Layers) : Layers :=
  (layers.zipIdx.filter fun l => l.1.isSome && keep l.2).map Prod.fst

/-- Where the layer at a position comes to stand: after those that are kept before it. -/
def thinnedPosition (keep : Nat → Bool) (layers : Layers) (i : Nat) : Nat :=
  (thinned keep (layers.take i)).length

variable {keep : Nat → Bool} {layers : Layers}

/-- One more layer on top is kept or not, and moves no other. -/
theorem thinned_concat (keep : Nat → Bool) (layers : Layers) (layer : Option Provider) :
    thinned keep (layers ++ [layer])
      = thinned keep layers ++ if layer.isSome && keep layers.length then [layer] else [] := by
  rw [thinned, List.zipIdx_append, List.filter_append, List.map_append, thinned, Nat.zero_add,
    List.zipIdx_singleton, List.filter_cons, List.filter_nil]
  split <;> rfl

theorem thinnedPosition_append {i : Nat} (h : i ≤ layers.length) (more : Layers) :
    thinnedPosition keep (layers ++ more) i = thinnedPosition keep layers i := by
  rw [thinnedPosition, List.take_append_of_le_length h, thinnedPosition]

theorem thinnedPosition_length (keep : Nat → Bool) (layers : Layers) :
    thinnedPosition keep layers layers.length = (thinned keep layers).length := by
  rw [thinnedPosition, List.take_length]

/-- **What is left.** The active layers of the thinned list are those that are kept, at their new positions. -/
theorem active_thinned (keep : Nat → Bool) (layers : Layers) :
    active (thinned keep layers)
      = ((active layers).filter fun l => keep l.1).map fun l =>
          (thinnedPosition keep layers l.1, l.2) := by
  -- from the end, where the new position is the length of what is kept before
  induction layers using List.reverseRecOn with
  | nil => rfl
  | append_singleton layers layer ih =>
    have hold : (((active layers).filter fun l => keep l.1).map fun l =>
        (thinnedPosition keep (layers ++ [layer]) l.1, l.2)) = active (thinned keep layers) := by
      rw [ih]
      refine List.map_congr_left fun l hl => ?_
      rw [thinnedPosition_append (position_lt_length (List.mem_filter.mp hl).1).le]
    rw [thinned_concat, active_append, active_append, List.filter_append, List.map_append, hold]
    congr 1
    cases layer with
    | none => rfl
    | some p =>
      have hnew : thinnedPosition keep (layers ++ [some p]) layers.length
          = (thinned keep layers).length := by
        rw [thinnedPosition_append le_rfl, thinnedPosition_length]
      by_cases hkeep : keep layers.length = true
      · simp [activeFrom, hkeep, hnew]
      · simp [activeFrom, hkeep]

/-- A layer that is kept is found at its new position. -/
theorem getElem?_thinned {i : Nat} {p : Provider} (h : layers[i]? = some (some p)) (hkeep : keep i = true) :
    (thinned keep layers)[thinnedPosition keep layers i]? = some (some p) := by
  have hmem : (i, p) ∈ (active layers).filter fun l => keep l.1 :=
    List.mem_filter.mpr ⟨mem_active_iff.mpr h, hkeep⟩
  have hthinned : (thinnedPosition keep layers i, p) ∈ active (thinned keep layers) := by
    rw [active_thinned]
    exact List.mem_map_of_mem hmem
  exact mem_active_iff.mp hthinned

/-! ## The lowest layer that fails

Failing is a parameter here. A read fails by itself, but a write depends on what the layers below have made of
the context, so the layers below are an argument of it. -/

/-- The layer at a position fails with an error, which may depend on the layers below it. -/
def FailsAt (fails : Layers → Provider → ProviderFault → Prop) (layers : Layers) (i : Nat)
    (e : ProviderFault) : Prop :=
  ∃ p, layers[i]? = some (some p) ∧ fails (layers.take i) p e

/-- The layer at a position fails, and none below it does. -/
structure FailsFirst (fails : Layers → Provider → ProviderFault → Prop) (layers : Layers) (i : Nat)
    (e : ProviderFault) : Prop where
  failing : FailsAt fails layers i e
  lowest : ∀ j < i, ∀ e', ¬ FailsAt fails layers j e'

variable {fails : Layers → Provider → ProviderFault → Prop} {i : Nat} {e : ProviderFault}

/-- If some layer fails, there is a lowest one that does. Positions are numbers, so the least is found. -/
theorem exists_failsFirst (h : ∃ i e, FailsAt fails layers i e) : ∃ i e, FailsFirst fails layers i e := by
  -- failing is an arbitrary property here
  classical
  obtain ⟨e, he⟩ := Nat.find_spec h
  exact ⟨Nat.find h, e, he, fun j hj e' he' => Nat.find_min h hj ⟨e', he'⟩⟩

theorem take_eq_of_le {layers' : Layers} {j : Nat} (hj : j ≤ i) (h : layers'.take i = layers.take i) :
    layers'.take j = layers.take j := by
  rw [← min_eq_left hj, ← List.take_take, ← List.take_take, h]

/-- Whether a layer fails does not depend on the layers above it. -/
theorem failsAt_congr {layers' : Layers} (h : layers'.take (i + 1) = layers.take (i + 1)) :
    FailsAt fails layers' i e ↔ FailsAt fails layers i e := by
  have hat : layers'[i]? = layers[i]? := by
    rw [← List.getElem?_take_of_succ, h, List.getElem?_take_of_succ]
  rw [FailsAt, FailsAt, hat, take_eq_of_le (Nat.le_succ i) h]

/-- So which layer fails first does not depend on what stands above it either. -/
theorem FailsFirst.congr {layers' : Layers} (hfirst : FailsFirst fails layers i e)
    (h : layers'.take (i + 1) = layers.take (i + 1)) : FailsFirst fails layers' i e where
  failing := (failsAt_congr h).mpr hfirst.failing
  lowest j hj e' he' :=
    hfirst.lowest j hj e' ((failsAt_congr (take_eq_of_le (Nat.succ_le_succ hj.le) h)).mp he')

/-- What fails in the lower part of a list fails in the whole list. -/
theorem FailsAt.append (h : FailsAt fails layers i e) (more : Layers) :
    FailsAt fails (layers ++ more) i e := by
  obtain ⟨p, hp, _⟩ := id h
  have hi : i < layers.length := (List.getElem?_eq_some_iff.mp hp).1
  exact (failsAt_congr (List.take_append_of_le_length hi)).mpr h

/-- A layer that fails on top of some others fails at the position that they leave to it. -/
theorem failsAt_length {p : Provider} (h : fails layers p e) (more : Layers) :
    FailsAt fails (layers ++ some p :: more) layers.length e := by
  refine ⟨p, ?_, ?_⟩
  · rw [List.getElem?_append_right le_rfl, Nat.sub_self, List.getElem?_cons_zero]
  · rwa [List.take_left]

/-- A list with a layer that fails first, taken apart there. -/
theorem FailsFirst.split (hfirst : FailsFirst fails layers i e) :
    ∃ front p rest, layers = front ++ some p :: rest ∧ front.length = i ∧ fails front p e ∧
      ∀ j e', ¬ FailsAt fails front j e' := by
  obtain ⟨p, hp, hfails⟩ := hfirst.failing
  obtain ⟨hlt, hget⟩ := List.getElem?_eq_some_iff.mp hp
  have hlength : (layers.take i).length = i := List.length_take_of_le hlt.le
  -- the layer stands within the list, which is taken apart there
  have hlayers : layers = layers.take i ++ some p :: layers.drop (i + 1) := by
    rw [← hget, List.getElem_cons_drop, List.take_append_drop]
  refine ⟨_, p, _, hlayers, hlength, hfails, fun j e' hj => ?_⟩
  obtain ⟨q, hq, _⟩ := id hj
  have hji : j < i := hlength ▸ (List.getElem?_eq_some_iff.mp hq).1
  exact hfirst.lowest j hji e' (hlayers ▸ hj.append _)

end Layers

end ScriptHost
