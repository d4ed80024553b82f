import Mathlib.Data.List.DropRight
import ScriptHost.Data.Merge

/-!
# What a merged list of maps holds

`DataMap.mergeList` is a fold of a merge of two maps, so a key is visited once for every map. This module
says what is left at the end without the fold: only the values at the key count (`valuesAt`), and of them
only the last one, or, if that is a map, the run of maps that it ends (`trailingMaps`).

* **`get?_mergeList`**: the law for one key.
* **`at?_mergeList`**: the law at every depth, along a path of keys.
* **`foldl_merge_replay`**: laying a list of maps over something once more changes nothing. The merge is not
  associative, so this does not follow from the same fact about one map; it follows from the law for one key.
-/

namespace ScriptHost

namespace Value

/-- The value at the end of a path of keys. -/
def at? : Value → List String → Option Value
  | v, [] => some v
  | .map m, k :: path => (m.get? k).bind (·.at? path)
  | _, _ :: _ => none

@[simp] theorem at?_nil (v : Value) : v.at? [] = some v := by
  cases v <;> rfl

@[simp] theorem at?_map_cons (m : DataMap) (k : String) (path : List String) :
    (Value.map m).at? (k :: path) = (m.get? k).bind (·.at? path) := rfl

/-- Below a value that is no map there is nothing. -/
theorem at?_cons_of_not_map {v : Value} (h : v.asMap? = none) (k : String) (path : List String) :
    v.at? (k :: path) = none := by
  cases v with
  | map m => cases h
  | _ => rfl

@[simp] theorem asMap?_map (m : DataMap) : (Value.map m).asMap? = some m := rfl

theorem asMap?_eq_none_iff {v : Value} : v.asMap? = none ↔ v.shape ≠ .object := by
  cases v <;> simp [asMap?, shape]

/-- The two cases that every law of merging tells apart. -/
theorem not_map_or_map (v : Value) : v.asMap? = none ∨ ∃ m, v = .map m := by
  cases hv : v.asMap? with
  | none => exact .inl rfl
  | some m => exact .inr ⟨m, asMap?_eq_some_iff.mp hv⟩

/-- What is held along a path is held by a map. -/
theorem at?_cons_eq_some_iff {v w : Value} {k : String} {path : List String} :
    v.at? (k :: path) = some w ↔ ∃ m u, v = .map m ∧ m.get? k = some u ∧ u.at? path = some w := by
  rcases v.not_map_or_map with hv | ⟨m, rfl⟩
  · rw [at?_cons_of_not_map hv]
    constructor
    · intro h
      cases h
    · rintro ⟨m, _, rfl, _⟩
      cases hv
  · rw [at?_map_cons, Option.bind_eq_some_iff]
    simp

end Value

namespace DataMap

/-! ## The values at a key

Of all maps only the values at the key count, and of these the run of maps at the end. Both are laws over the
end of a list, where the fold takes its last step. -/

/-- The values that the maps hold at a key, in the order of the maps. Maps without the key are passed over. -/
def valuesAt (maps : List DataMap) (k : String) : List Value :=
  maps.filterMap (·.get? k)

@[simp] theorem valuesAt_nil (k : String) : valuesAt [] k = [] := rfl

@[simp] theorem valuesAt_append (ms ns : List DataMap) (k : String) :
    valuesAt (ms ++ ns) k = valuesAt ms k ++ valuesAt ns k :=
  List.filterMap_append ..

theorem valuesAt_singleton (m : DataMap) (k : String) :
    valuesAt [m] k = (m.get? k).toList := by
  cases h : m.get? k <;> simp [valuesAt, h]

/-- The maps at the end of a list of values, back to the last value that is no map. -/
def trailingMaps (vs : List Value) : List DataMap :=
  (vs.rtakeWhile fun v => v.asMap?.isSome).filterMap Value.asMap?

@[simp] theorem trailingMaps_nil : trailingMaps [] = [] := by
  simp [trailingMaps]

/-- A map at the end makes the run longer. -/
@[simp] theorem trailingMaps_concat_map (vs : List Value) (m : DataMap) :
    trailingMaps (vs ++ [.map m]) = trailingMaps vs ++ [m] := by
  rw [trailingMaps, List.rtakeWhile_concat, if_pos (by simp), List.filterMap_append]
  rfl

theorem trailingMaps_concat_of_not_map {v : Value} (h : v.asMap? = none) (vs : List Value) :
    trailingMaps (vs ++ [v]) = [] := by
  rw [trailingMaps, List.rtakeWhile_concat, if_neg (by simp [h]), List.filterMap_nil]

/-- Several maps at the end make the run longer by all of them. Induction from the end, where each step is
`trailingMaps_concat_map`. -/
theorem trailingMaps_append_maps (vs : List Value) (ms : List DataMap) :
    trailingMaps (vs ++ ms.map .map) = trailingMaps vs ++ ms := by
  induction ms using List.reverseRecOn with
  | nil => simp
  | append_singleton ms m ih =>
    rw [List.map_append, List.map_singleton, ← List.append_assoc, trailingMaps_concat_map, ih,
      List.append_assoc]

/-- `r` is the longest list of maps that ends `vs`. -/
def IsLongestMapSuffix (r : List DataMap) (vs : List Value) : Prop :=
  r.map .map <:+ vs ∧ ∀ s : List DataMap, s.map .map <:+ vs → s <:+ r

/-- **The trailing maps are the longest run of maps at the end**, so the function by which they are computed
does not matter. Induction from the end of the list: the last value either ends the run or belongs to it. -/
theorem isLongestMapSuffix_trailingMaps (vs : List Value) :
    IsLongestMapSuffix (trailingMaps vs) vs := by
  induction vs using List.reverseRecOn with
  | nil =>
    refine ⟨by simp, fun s hs => ?_⟩
    have hnil : s = [] := by simpa using hs
    simp [hnil]
  | append_singleton vs v ih =>
    rcases v.not_map_or_map with hv | ⟨m, rfl⟩
    · rw [trailingMaps_concat_of_not_map hv]
      refine ⟨by simp, fun s hs => ?_⟩
      -- a suffix that is not empty ends in `v`, which is no map
      rcases List.suffix_concat_iff.mp hs with hnil | ⟨t, ht, _⟩
      · simp [List.map_eq_nil_iff.mp hnil]
      · obtain ⟨s₁, s₂, rfl, _, hlast⟩ := List.map_eq_append_iff.mp ht
        obtain ⟨m, _, hm⟩ := List.map_eq_singleton_iff.mp hlast
        rw [← hm] at hv
        cases hv
    · rw [trailingMaps_concat_map]
      refine ⟨?_, fun s hs => ?_⟩
      · rw [List.map_append, List.map_singleton]
        exact List.suffix_append_self_iff.mpr ih.1
      · rcases List.suffix_concat_iff.mp hs with hnil | ⟨t, ht, hsuff⟩
        · simp [List.map_eq_nil_iff.mp hnil]
        · obtain ⟨s₁, s₂, rfl, rfl, hlast⟩ := List.map_eq_append_iff.mp ht
          obtain ⟨m', rfl, hm⟩ := List.map_eq_singleton_iff.mp hlast
          obtain rfl : m' = m := by simpa using hm
          exact List.suffix_append_self_iff.mpr (ih.2 s₁ hsuff)

/-! ## The law for one key

One step of the fold, at one key: the merge of the maps so far meets one more value. -/

/-- What is left at a key after these values have been laid over each other: the last one, or, if that is
a map, the merge of the maps that it ends. -/
def settled (vs : List Value) : Option Value :=
  match vs.getLast? with
  | none => none
  | some (.map _) => some (.map (mergeList (trailingMaps vs)))
  | some v => some v

@[simp] theorem settled_nil : settled [] = none := rfl

/-- A last map is laid over the merge of the maps right before it, and of nothing else. -/
theorem settled_concat_map (vs : List Value) (m : DataMap) :
    settled (vs ++ [.map m]) = some (.map ((mergeList (trailingMaps vs)).merge m)) := by
  rw [settled, List.getLast?_concat, trailingMaps_concat_map, mergeList_concat]

/-- A last value that is no map is what is left. -/
theorem settled_concat_of_not_map {v : Value} (h : v.asMap? = none) (vs : List Value) :
    settled (vs ++ [v]) = some v := by
  rw [settled, List.getLast?_concat]
  cases v with
  | map m => cases h
  | _ => rfl

/-- Something is left unless there was nothing. -/
theorem exists_settled_iff (vs : List Value) : (∃ v, settled vs = some v) ↔ vs ≠ [] := by
  rcases vs.eq_nil_or_concat' with rfl | ⟨init, v, rfl⟩
  · simp
  · rcases v.not_map_or_map with hv | ⟨m, rfl⟩
    · simp [settled_concat_of_not_map hv]
    · simp [settled_concat_map]

/-- Laying a map over what is left sees the trailing maps only: a value that is no map leaves none, and gives
way as a whole. -/
theorem over_settled (vs : List Value) (m : DataMap) :
    (Value.map m).over (settled vs) = .map ((mergeList (trailingMaps vs)).merge m) := by
  rcases vs.eq_nil_or_concat' with rfl | ⟨init, v, rfl⟩
  · simp
  · rcases v.not_map_or_map with hv | ⟨m', rfl⟩
    · rw [settled_concat_of_not_map hv, trailingMaps_concat_of_not_map hv,
        Value.over_of_earlier_not_map hv]
      simp
    · rw [settled_concat_map, Value.over_map_map, trailingMaps_concat_map, mergeList_concat]

/-- **What one key holds.** A merged list of maps holds at a key what is left of the values at that key. -/
theorem get?_mergeList (maps : List DataMap) (k : String) :
    (mergeList maps).get? k = settled (valuesAt maps k) := by
  -- from the end of the list, where the fold takes its last step and the trailing maps grow
  induction maps using List.reverseRecOn with
  | nil => rfl
  | append_singleton maps m ih =>
    rw [mergeList_concat, get?_merge, valuesAt_append, valuesAt_singleton, ih]
    cases hm : m.get? k with
    | none => simp
    | some v =>
      rcases v.not_map_or_map with hv | ⟨m', rfl⟩
      · simp [settled_concat_of_not_map hv, Value.over_of_not_map hv]
      · simp [settled_concat_map, over_settled]

/-! ## The law at every depth

Below a key the fold starts anew, with the maps that are left at that key in the place of all maps. -/

/-- The maps that meet at the end of a path: those that are left at its first key, and so on. -/
def below : List DataMap → List String → List DataMap
  | maps, [] => maps
  | maps, k :: path => below (trailingMaps (valuesAt maps k)) path

/-- Below what is left there is what lies below the merge of the trailing maps. This holds also if no map is
left, since then both sides lead nowhere. -/
theorem settled_bind_at? (vs : List Value) (path : List String) (k : String) :
    (settled vs).bind (·.at? (path ++ [k]))
      = (Value.map (mergeList (trailingMaps vs))).at? (path ++ [k]) := by
  -- only that the path is not empty matters, since below a value that is no map there is nothing
  obtain ⟨j, rest, hpath⟩ : ∃ j rest, path ++ [k] = j :: rest :=
    List.exists_cons_of_ne_nil (by simp)
  rw [hpath]
  rcases vs.eq_nil_or_concat' with rfl | ⟨init, v, rfl⟩
  · simp
  · rcases v.not_map_or_map with hv | ⟨m, rfl⟩
    · simp [settled_concat_of_not_map hv, trailingMaps_concat_of_not_map hv,
        Value.at?_cons_of_not_map hv]
    · rw [settled_concat_map, Option.bind_some, trailingMaps_concat_map, mergeList_concat]

/-- **What a path holds.** The law for one key holds along every path, for the maps that meet there. -/
theorem at?_mergeList (maps : List DataMap) (path : List String) (k : String) :
    (Value.map (mergeList maps)).at? (path ++ [k]) = settled (valuesAt (below maps path) k) := by
  induction path generalizing maps with
  | nil =>
    rw [List.nil_append, Value.at?_map_cons, get?_mergeList, below]
    simp
  | cons j path ih =>
    -- the maps that are left at `j` take the place of `maps`
    rw [List.cons_append, Value.at?_map_cons, get?_mergeList, settled_bind_at?, ih, below]

/-- **A merged list without the fold.** A key is held exactly if some map holds it. The last value counts
if it is no map; otherwise the maps of the longest run at the end are merged in turn. The same holds at
every depth, for the maps that meet at the end of a path. -/
theorem mergeList_closed_form (maps : List DataMap) :
    (∀ k, (∃ v, (mergeList maps).get? k = some v) ↔ valuesAt maps k ≠ []) ∧
    (∀ k v, (valuesAt maps k).getLast? = some v → v.shape ≠ .object →
      (mergeList maps).get? k = some v) ∧
    (∀ k m, (valuesAt maps k).getLast? = some (.map m) →
      ∃ r, IsLongestMapSuffix r (valuesAt maps k) ∧
        (mergeList maps).get? k = some (.map (mergeList r))) ∧
    (∀ path k, (Value.map (mergeList maps)).at? (path ++ [k])
      = settled (valuesAt (below maps path) k)) := by
  refine ⟨fun k => ?_, fun k v hlast hv => ?_, fun k m hlast => ?_, at?_mergeList maps⟩
  · rw [get?_mergeList]
    exact exists_settled_iff _
  · obtain ⟨init, hvs⟩ := List.getLast?_eq_some_iff.mp hlast
    rw [get?_mergeList, hvs, settled_concat_of_not_map (Value.asMap?_eq_none_iff.mpr hv)]
  · refine ⟨_, isLongestMapSuffix_trailingMaps _, ?_⟩
    obtain ⟨init, hvs⟩ := List.getLast?_eq_some_iff.mp hlast
    rw [get?_mergeList, hvs, settled_concat_map, trailingMaps_concat_map, mergeList_concat]

/-! ## Replaying a list of maps

To replay means to lay the same maps on once more, in the same order. At a key of which all values are maps the
question is asked again for these, and otherwise the last value that is no map hides the first copy. -/

theorem mergeList_cons (m : DataMap) (maps : List DataMap) :
    mergeList (m :: maps) = maps.foldl merge m := by
  rw [mergeList, List.foldl_cons, empty_merge]

/-- With maps at the end the rest counts by its trailing maps. -/
theorem settled_append_maps (vs : List Value) {ms : List DataMap} (h : ms ≠ []) :
    settled (vs ++ ms.map .map) = some (.map (mergeList (trailingMaps vs ++ ms))) := by
  obtain ⟨init, m, rfl⟩ := ms.eq_nil_or_concat'.resolve_left h
  rw [List.map_append, List.map_singleton, ← List.append_assoc, settled_concat_map,
    trailingMaps_append_maps, ← List.append_assoc, mergeList_concat]

/-- A value that is no map hides all that comes before it, whatever maps follow. -/
theorem settled_append_hiding {v : Value} (h : v.asMap? = none) (vs ws : List Value)
    (ms : List DataMap) :
    settled (vs ++ v :: ms.map .map) = settled (ws ++ v :: ms.map .map) := by
  have hcut : ∀ us : List Value, us ++ v :: ms.map .map = (us ++ [v]) ++ ms.map .map := by simp
  rw [hcut vs, hcut ws]
  by_cases hms : ms = []
  · simp [hms, settled_concat_of_not_map h]
  · rw [settled_append_maps _ hms, settled_append_maps _ hms, trailingMaps_concat_of_not_map h,
      trailingMaps_concat_of_not_map h]

/-- Either all values are maps, or one that is no map stands before maps only. -/
theorem all_maps_or_hiding (vs : List Value) :
    (∃ ms : List DataMap, vs = ms.map .map) ∨
      ∃ front v, ∃ ms : List DataMap, v.asMap? = none ∧ vs = front ++ v :: ms.map .map := by
  induction vs using List.reverseRecOn with
  | nil => exact .inl ⟨[], rfl⟩
  | append_singleton vs v ih =>
    rcases v.not_map_or_map with hv | ⟨m, rfl⟩
    · exact .inr ⟨vs, v, [], hv, rfl⟩
    · rcases ih with ⟨ms, rfl⟩ | ⟨front, v, ms, hv, rfl⟩
      · exact .inl ⟨ms ++ [m], by simp⟩
      · exact .inr ⟨front, v, ms ++ [m], hv, by simp⟩

/-- What a map holds is smaller than the map. Inductions on data go down along this. -/
theorem sizeOf_lt_of_get? {lo : Option String} {m : Entries Value lo} {k : String} {v : Value}
    (h : m.get? k = some v) : sizeOf v < sizeOf m := by
  induction m with
  | nil => cases h
  | cons key above value rest ih =>
    rw [Entries.get?_cons] at h
    rw [Entries.cons.sizeOf_spec]
    split at h
    · obtain rfl := Option.some.inj h
      omega
    · have := ih h
      omega

/-- Replaying values at one key changes nothing, if replaying the maps among them does not. -/
theorem settled_append_self {ws : List Value} (vs : List Value)
    (h : ∀ (es ms : List DataMap), (∀ m ∈ ms, Value.map m ∈ ws) →
      mergeList (es ++ (ms ++ ms)) = mergeList (es ++ ms)) :
    settled (vs ++ (ws ++ ws)) = settled (vs ++ ws) := by
  rcases all_maps_or_hiding ws with ⟨ms, rfl⟩ | ⟨front, v, ms, hv, rfl⟩
  · -- maps only: they join the trailing maps of `vs`
    by_cases hms : ms = []
    · simp [hms]
    · rw [← List.map_append, settled_append_maps _ (by simp [hms]), settled_append_maps _ hms,
        h _ ms fun m hm => List.mem_map_of_mem hm]
  · -- the first copy stands before `v` and is hidden with everything else there
    rw [← List.append_assoc, ← List.append_assoc, ← List.append_assoc]
    exact settled_append_hiding hv _ _ ms

/-- **Replay.** A list of maps at the end of a longer one may be repeated. The induction is on a bound for
the sizes of the repeated maps: at one key, the maps among their values are smaller. -/
theorem mergeList_append_self (es ms : List DataMap) :
    mergeList (es ++ (ms ++ ms)) = mergeList (es ++ ms) := by
  suffices ∀ n, ∀ es ms : List DataMap, (∀ m ∈ ms, sizeOf m < n) →
      mergeList (es ++ (ms ++ ms)) = mergeList (es ++ ms) from
    this (sizeOf ms) es ms fun _ hm => List.sizeOf_lt_of_mem hm
  intro n
  induction n with
  | zero =>
    intro es ms hsize
    cases ms with
    | nil => simp
    | cons m rest => exact absurd (hsize m List.mem_cons_self) (Nat.not_lt_zero _)
  | succ n ih =>
    intro es ms hsize
    apply Entries.ext_get?
    intro k
    simp only [get?_mergeList, valuesAt_append]
    apply settled_append_self
    intro es' ms' hmem
    apply ih
    intro m hm
    -- a map at a key of `m₀` is a part of it, so the bound holds with one less
    obtain ⟨m₀, hm₀, hget⟩ := List.mem_filterMap.mp (hmem m hm)
    have hbound := hsize m₀ hm₀
    have hlt := sizeOf_lt_of_get? hget
    rw [Value.map.sizeOf_spec] at hlt
    omega

/-- Laying a list of maps over something once more changes nothing. -/
theorem foldl_merge_replay (e : DataMap) (ms : List DataMap) :
    ms.foldl merge (ms.foldl merge e) = ms.foldl merge e := by
  rw [← List.foldl_append, ← mergeList_cons, ← mergeList_cons]
  exact mergeList_append_self [e] ms

end DataMap

end ScriptHost
