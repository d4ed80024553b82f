import ScriptHost.Proofs.Provider.LayerPositions
import ScriptHost.Proofs.Provider.LayeredRead

/-!
# Reads that stop at the first failure

What a list of providers reads, whatever the providers are and wherever the gaps stand.

* **`read_of_failsFirst`**: the lowest layer that cannot be read gives the error, with its position.
* **`read_without_gaps`**: gaps change the position in the error and nothing else.
* **`read_lowest_layered_iff`**: layers within the lowest layer may as well stand in the list themselves. This
  holds for the lowest layer only, where merging starts; `regroup_iff` says when it holds further up.
-/

namespace ScriptHost

namespace Layers

open List (replicate)
open ProviderFault (renumbered)

variable {layers : Layers} {ctx : Context} {i : Nat} {e : ProviderFault}

/-- A layer cannot be read, whatever lies below it. -/
def CannotRead (ctx : Context) (_below : Layers) (p : Provider) (e : ProviderFault) : Prop :=
  p.read ctx = .error e

/-! ## The first failure

The list is taken apart at the lowest layer that fails. The part below it reads without an error, and the error
is that of the layer. -/

/-- In a list in which no layer fails, no active layer does. -/
theorem readFault?_of_mem_active (h : ∀ j e', ¬ FailsAt (CannotRead ctx) layers j e')
    {l : Nat × Provider} (hl : l ∈ active layers) : l.2.readFault? ctx = none := by
  rw [Option.eq_none_iff_forall_ne_some]
  intro e' he'
  exact h l.1 e' ⟨l.2, mem_active_iff.mp hl, Provider.readFault?_eq_some_iff.mp he'⟩

/-- The layers below are read, the one that fails ends the read, and what stands above it is not looked at. -/
theorem read_of_failsFirst (h : FailsFirst (CannotRead ctx) layers i e) :
    (Provider.layered layers).read ctx = .error (.failed i e) := by
  obtain ⟨front, p, rest, rfl, rfl, hp, hfront⟩ := h.split
  -- below the layer everything can be read
  have hpass : (active front).findSome? (fun l => (l.2.readFault? ctx).map (ProviderFault.failed l.1))
      = none := by
    rw [List.findSome?_eq_none_iff]
    intro l hl
    rw [readFault?_of_mem_active hfront hl]
    rfl
  rw [← Provider.readFault?_eq_some_iff, readFault?_layered, active_append, List.findSome?_append, hpass,
    activeFrom, List.findSome?_cons, Provider.readFault?_eq_some_iff.mpr hp]
  rfl

/-- A list in which no layer fails can be read. -/
theorem exists_read_ok (h : ∀ j e', ¬ FailsAt (CannotRead ctx) layers j e') :
    ∃ data, (Provider.layered layers).read ctx = .ok data := by
  rw [← Provider.readFault?_eq_none_iff, readFault?_layered, List.findSome?_eq_none_iff]
  intro l hl
  rw [readFault?_of_mem_active h hl]
  rfl

/-! ## Gaps

Two lists that differ in gaps have the same layers at different positions. To compare their errors, both are
renumbered to the positions that the layers have without gaps. -/

/-- How many layers stand before a position, gaps left out. -/
def activeBefore (layers : Layers) (i : Nat) : Nat := (layers.take i).reduceOption.length

/-- Taking out the gaps only is thinning that keeps every layer. -/
theorem thinned_all (layers : Layers) : thinned (fun _ => true) layers = layers.reduceOption.map some := by
  induction layers using List.reverseRecOn with
  | nil => rfl
  | append_singleton layers layer ih =>
    rw [thinned_concat, ih]
    cases layer <;> simp [List.reduceOption]

/-- Without gaps the same layers are active, at positions that count layers. -/
theorem active_without_gaps (layers : Layers) :
    active (layers.reduceOption.map some)
      = (active layers).map fun l => (layers.activeBefore l.1, l.2) := by
  -- a layer is moved down by the gaps below it and by nothing else
  have hposition : ∀ i, thinnedPosition (fun _ => true) layers i = layers.activeBefore i := by
    intro i
    rw [thinnedPosition, thinned_all, List.length_map, activeBefore]
  rw [← thinned_all, active_thinned, List.filter_true]
  simp only [hposition]

/-- A walk over layers at other positions goes the same way. Only its error shows where it stopped. -/
theorem readAll_renumbered (ctx : Context) (f : Nat → Nat) (ls : List (Nat × Provider)) :
    readAll ctx (ls.map fun l => (f l.1, l.2)) = (readAll ctx ls).mapError (renumbered f) := by
  induction ls with
  | nil => rfl
  | cons l rest ih =>
    rw [List.map_cons, readAll, readAll, ih]
    cases l.2.read ctx with
    | error e => rfl
    | ok data => cases readAll ctx rest <;> rfl

/-- **Gaps feed positions only.** -/
theorem read_without_gaps (layers : Layers) (ctx : Context) :
    (Provider.layered (layers.reduceOption.map some)).read ctx
      = ((Provider.layered layers).read ctx).mapError (renumbered layers.activeBefore) := by
  show read _ ctx = (read layers ctx).mapError _
  rw [read, read, active_without_gaps, readAll_renumbered]
  cases readAll ctx (active layers) <;> rfl

/-! ## Layers within the lowest layer

Merging starts from the empty map, and starting with a merge that starts so is the same. Further up that is
another matter, since there the inner merge meets what lies below. -/

/-- What the upper layers hold is laid over what the lower ones read. -/
theorem read_append_eq_ok_iff (lower upper : Layers) (data : DataMap) :
    (Provider.layered (lower ++ upper)).read ctx = .ok data ↔
      ∃ under maps, (Provider.layered lower).read ctx = .ok under ∧
        List.Forall₂ (fun p m => p.read ctx = .ok m) upper.reduceOption maps ∧
        data = maps.foldl DataMap.merge under := by
  constructor
  · intro h
    obtain ⟨maps, hmaps, rfl⟩ := read_eq_ok_iff.mp h
    rw [List.reduceOption_append] at hmaps
    -- the maps are cut where the lower layers end
    have hlower := (List.forall₂_take_append _ _ _ hmaps.flip).flip
    have hupper := (List.forall₂_drop_append _ _ _ hmaps.flip).flip
    refine ⟨_, _, read_eq_ok_iff.mpr ⟨_, hlower, rfl⟩, hupper, ?_⟩
    rw [← DataMap.mergeList_append, List.take_append_drop]
  · rintro ⟨under, maps, hread, hupper, rfl⟩
    obtain ⟨below, hlower, rfl⟩ := read_eq_ok_iff.mp hread
    refine read_eq_ok_iff.mpr ⟨below ++ maps, ?_, ?_⟩
    · rw [List.reduceOption_append]
      exact List.rel_append hlower hupper
    · rw [DataMap.mergeList_append]

/-- Gaps below all layers do not matter to what is read. -/
theorem read_replicate_none_append_iff (n : Nat) (layers : Layers) (data : DataMap) :
    (Provider.layered (replicate n none ++ layers)).read ctx = .ok data ↔
      (Provider.layered layers).read ctx = .ok data := by
  show read _ ctx = .ok data ↔ read _ ctx = .ok data
  rw [read_eq_ok_iff, read_eq_ok_iff, List.reduceOption_append, List.reduceOption_replicate_none,
    List.nil_append]

/-- Layers that are the only layer of a list read as the list. -/
theorem read_singleton_layered_iff (inner : Layers) (data : DataMap) :
    (Provider.layered [some (.layered inner)]).read ctx = .ok data ↔
      (Provider.layered inner).read ctx = .ok data := by
  show read _ ctx = .ok data ↔ _
  rw [read_eq_ok_iff, List.reduceOption_cons_of_some, List.reduceOption_nil]
  constructor
  · rintro ⟨maps, hmaps, rfl⟩
    obtain ⟨m, rest, hread, hrest, rfl⟩ := List.forall₂_cons_left_iff.mp hmaps
    obtain rfl := List.forall₂_nil_left_iff.mp hrest
    rwa [DataMap.mergeList_cons]
  · intro h
    exact ⟨[data], .cons h .nil, (DataMap.empty_merge data).symm⟩

/-- **Layers within the lowest layer** may stand in the list themselves. -/
theorem read_lowest_layered_iff (n : Nat) (inner rest : Layers) (data : DataMap) :
    (Provider.layered (replicate n none ++ some (.layered inner) :: rest)).read ctx = .ok data ↔
      (Provider.layered (replicate n none ++ inner ++ rest)).read ctx = .ok data := by
  -- merging starts with what they read, and that is the same in both lists
  rw [← List.singleton_append, ← List.append_assoc]
  simp only [read_append_eq_ok_iff _ rest, read_replicate_none_append_iff, read_singleton_layered_iff]

/-- **A read stops at the first failure or folds everything.** If some layer cannot be read, the lowest such
layer gives the error, at its position with the gaps counted, whatever stands above it. Otherwise the maps
of the layers are merged one after the other, from the empty map on. Gaps that are put in or taken out change
the position only, and layers within the lowest layer may stand in the list themselves. -/
theorem read_first_failure_or_fold (layers : Layers) (ctx : Context) :
    ((∃ i e, FailsAt (CannotRead ctx) layers i e) →
      ∃ i e, FailsFirst (CannotRead ctx) layers i e ∧
        ∀ layers' : Layers, layers'.take (i + 1) = layers.take (i + 1) →
          (Provider.layered layers').read ctx = .error (.failed i e)) ∧
    ((∀ i e, ¬ FailsAt (CannotRead ctx) layers i e) →
      ∃ maps, List.Forall₂ (fun p m => p.read ctx = .ok m) layers.reduceOption maps ∧
        (Provider.layered layers).read ctx = .ok (maps.foldl DataMap.merge ∅)) ∧
    (∀ layers' : Layers, layers'.reduceOption = layers.reduceOption →
      ((Provider.layered layers').read ctx).mapError (renumbered layers'.activeBefore)
        = ((Provider.layered layers).read ctx).mapError (renumbered layers.activeBefore)) ∧
    (∀ (n : Nat) (inner rest : Layers), layers = replicate n none ++ some (.layered inner) :: rest →
      ∀ data, (Provider.layered layers).read ctx = .ok data ↔
        (Provider.layered (replicate n none ++ inner ++ rest)).read ctx = .ok data) := by
  refine ⟨fun hfails => ?_, fun hreads => ?_, fun layers' hsame => ?_, fun n inner rest hlayers => ?_⟩
  · obtain ⟨i, e, hfirst⟩ := exists_failsFirst hfails
    exact ⟨i, e, hfirst, fun layers' hbelow => read_of_failsFirst (hfirst.congr hbelow)⟩
  · obtain ⟨data, hdata⟩ := exists_read_ok hreads
    obtain ⟨maps, hmaps, rfl⟩ := read_eq_ok_iff.mp hdata
    exact ⟨maps, hmaps, hdata⟩
  · rw [← read_without_gaps, ← read_without_gaps, hsame]
  · rw [hlayers]
    exact read_lowest_layered_iff n inner rest

/-- A provider without a key stands between two that can be read, after a gap. -/
def nameless : Layers :=
  [some (.fixed ∅), none, some (.buckets { DataKeys.standard with contextKey := "" }), some (.fixed ∅)]

/-- The provider without a key is at fault, also where the list ends with it. It is the second of the layers
that are no gaps. -/
theorem read_first_failure_or_fold_nameless :
    FailsAt (CannotRead .root) nameless 2 .emptyKey ∧
    (Provider.layered nameless).read .root = .error (.failed 2 .emptyKey) ∧
    (Provider.layered (nameless.take 3)).read .root = .error (.failed 2 .emptyKey) ∧
    ((Provider.layered (nameless.reduceOption.map some)).read .root).mapError
        (renumbered (activeBefore (nameless.reduceOption.map some)))
      = .error (.failed 1 .emptyKey) := by
  have hat : FailsAt (CannotRead .root) nameless 2 .emptyKey := ⟨_, rfl, rfl⟩
  obtain ⟨hfirst, -, hgaps, -⟩ := read_first_failure_or_fold nameless .root
  obtain ⟨i, e, -, hreads⟩ := hfirst ⟨2, _, hat⟩
  have hnameless := hreads nameless rfl
  obtain ⟨rfl, rfl⟩ : 2 = i ∧ .emptyKey = e := ProviderFault.failed.inj (Except.error.inj hnameless)
  refine ⟨hat, hnameless, hreads _ rfl, ?_⟩
  rw [hgaps (nameless.reduceOption.map some) rfl, hnameless]
  rfl

end Layers

end ScriptHost
