import ScriptHost.Proofs.Data.MergePaths

/-!
# Regrouping a merge

Merging is not associative. A value that is no map takes the place of a map below it, and a map laid on it
then stands alone; if that map is merged with the value first, nothing is left of the value, and the map
below shows through. This module says that there is no other obstacle:

* **`PartedAt`**: a place where the middle one of three maps keeps the outer ones apart.
* **`merge_assoc_iff`**: three maps can be regrouped exactly if, at each such place, the upper map already
  has all that the lower one could add.
-/

namespace ScriptHost

namespace Value

theorem ne_map_of_not_map {v : Value} (h : v.asMap? = none) (m : DataMap) : v ≠ .map m := by
  rintro rfl
  cases h

/-- What lies two keys down lies in a map under the first of them. -/
theorem at?_map_cons_cons_eq_some_iff {m : DataMap} {k j : String} {path : List String} {w : Value} :
    (Value.map m).at? (k :: j :: path) = some w ↔
      ∃ n, m.get? k = some (.map n) ∧ (Value.map n).at? (j :: path) = some w := by
  rw [at?_map_cons, Option.bind_eq_some_iff]
  constructor
  · rintro ⟨v, hv, hw⟩
    obtain ⟨n, _, rfl, _⟩ := at?_cons_eq_some_iff.mp hw
    exact ⟨n, hv, hw⟩
  · rintro ⟨n, hn, hw⟩
    exact ⟨.map n, hn, hw⟩

/-- **One place, grouped in both ways.** It matters where three maps meet, and where a value that is no map
lies between two maps. -/
theorem over_over_iff (earlier? : Option Value) (middle later : Value) :
    later.over (some (middle.over earlier?)) = (later.over (some middle)).over earlier? ↔
      (∀ a b c : DataMap, earlier? = some (.map a) → middle = .map b → later = .map c →
        (a.merge b).merge c = a.merge (b.merge c)) ∧
      (∀ a c : DataMap, earlier? = some (.map a) → middle.asMap? = none → later = .map c →
        a.merge c = c) := by
  rcases later.not_map_or_map with hlater | ⟨c, rfl⟩
  · -- what is no map wins in both groupings
    simp [over_of_not_map hlater, ne_map_of_not_map hlater]
  · cases earlier? with
    | none => simp
    | some earlier =>
      rcases earlier.not_map_or_map with hearlier | ⟨a, rfl⟩
      · simp [over_of_earlier_not_map hearlier, ne_map_of_not_map hearlier]
      · rcases middle.not_map_or_map with hmiddle | ⟨b, rfl⟩
        · -- grouped to the right, the value in the middle is forgotten before `a` is met
          rw [over_of_not_map hmiddle, over_of_earlier_not_map hmiddle, over_map_map]
          simp [ne_map_of_not_map hmiddle, hmiddle, eq_comm]
        · simp

/-- A value is looked up below maps only. -/
theorem exists_map_of_at? {v w : Value} {path way : List String} (h : v.at? path = some w)
    (hway : way <+: path) (hne : way ≠ path) : ∃ m, v.at? way = some (.map m) := by
  induction way generalizing v path with
  | nil =>
    obtain ⟨k, rest, rfl⟩ := List.exists_cons_of_ne_nil hne.symm
    obtain ⟨m, _, rfl, _⟩ := at?_cons_eq_some_iff.mp h
    exact ⟨m, at?_nil _⟩
  | cons k way ih =>
    obtain ⟨rest, rfl, hrest⟩ := List.cons_prefix_iff.mp hway
    obtain ⟨m, u, rfl, hu, hbelow⟩ := at?_cons_eq_some_iff.mp h
    obtain ⟨n, hn⟩ := ih hbelow hrest fun heq => hne (heq ▸ rfl)
    exact ⟨n, by rw [at?_map_cons, hu, Option.bind_some, hn]⟩

end Value

namespace DataMap

/-! ## Parted maps

Places are found by paths, and a path is taken apart at its first key. There the three maps are parted already,
or all of them go on with maps. -/

/-- Induction over data maps: for a map, the maps under its keys may be assumed. -/
@[elab_as_elim]
theorem induct {motive : DataMap → Prop}
    (step : ∀ m : DataMap, (∀ k n, m.get? k = some (.map n) → motive n) → motive m) (m : DataMap) :
    motive m :=
  step m fun _ n _ => induct step n
termination_by sizeOf m
decreasing_by
  rename_i h
  have hlt := sizeOf_lt_of_get? h
  rw [Value.map.sizeOf_spec] at hlt
  omega

/-- At the end of the path the outer maps hold maps, and the middle one holds something else. On the way
there all three hold maps. -/
structure PartedAt (a b c : DataMap) (path : List String) (lower upper : DataMap) : Prop where
  path_ne_nil : path ≠ []
  way : ∀ way, way <+: path → way ≠ [] → way ≠ path →
    ∀ m ∈ [a, b, c], ∃ n, (Value.map m).at? way = some (.map n)
  below : (Value.map a).at? path = some (.map lower)
  between : ∃ v, (Value.map b).at? path = some v ∧ v.shape ≠ .object
  above : (Value.map c).at? path = some (.map upper)

/-- What is held at the end of a path settles what is held on the way. -/
theorem partedAt_iff {a b c : DataMap} {path : List String} {lower upper : DataMap} :
    PartedAt a b c path lower upper ↔
      (Value.map a).at? path = some (.map lower) ∧
      (∃ v, (Value.map b).at? path = some v ∧ v.asMap? = none) ∧
      (Value.map c).at? path = some (.map upper) := by
  constructor
  · rintro ⟨_, _, hlower, ⟨v, hv, hshape⟩, hupper⟩
    exact ⟨hlower, ⟨v, hv, Value.asMap?_eq_none_iff.mpr hshape⟩, hupper⟩
  · rintro ⟨hlower, ⟨v, hv, hnone⟩, hupper⟩
    refine ⟨?_, fun way hway _ hne m hm => ?_, hlower, ⟨v, hv, Value.asMap?_eq_none_iff.mp hnone⟩, hupper⟩
    · -- at the end of the empty path lies `b` itself, which is a map
      rintro rfl
      rw [Value.at?_nil] at hv
      obtain rfl := Option.some.inj hv
      cases hnone
    · simp only [List.mem_cons, List.not_mem_nil, or_false] at hm
      rcases hm with rfl | rfl | rfl
      · exact Value.exists_map_of_at? hlower hway hne
      · exact Value.exists_map_of_at? hv hway hne
      · exact Value.exists_map_of_at? hupper hway hne

/-- Under one key there is nothing on the way. -/
theorem partedAt_singleton_iff {a b c : DataMap} {k : String} {lower upper : DataMap} :
    PartedAt a b c [k] lower upper ↔
      a.get? k = some (.map lower) ∧ (∃ v, b.get? k = some v ∧ v.asMap? = none) ∧
        c.get? k = some (.map upper) := by
  simp [partedAt_iff]

/-- Maps that are parted further down meet under the first key. -/
theorem partedAt_cons_cons_iff {a b c : DataMap} {k j : String} {path : List String}
    {lower upper : DataMap} :
    PartedAt a b c (k :: j :: path) lower upper ↔
      ∃ a' b' c', a.get? k = some (.map a') ∧ b.get? k = some (.map b') ∧ c.get? k = some (.map c') ∧
        PartedAt a' b' c' (j :: path) lower upper := by
  simp only [partedAt_iff, Value.at?_map_cons_cons_eq_some_iff]
  constructor
  · rintro ⟨⟨a', ha, hlower⟩, ⟨v, ⟨b', hb, hv⟩, hnone⟩, c', hc, hupper⟩
    exact ⟨a', b', c', ha, hb, hc, hlower, ⟨v, hv, hnone⟩, hupper⟩
  · rintro ⟨a', b', c', ha, hb, hc, hlower, ⟨v, hv, hnone⟩, hupper⟩
    exact ⟨⟨a', ha, hlower⟩, ⟨v, ⟨b', hb, hv⟩, hnone⟩, c', hc, hupper⟩

/-- Three maps are parted under a key, or further below it. -/
theorem forall_partedAt_iff {a b c : DataMap} {P : DataMap → DataMap → Prop} :
    (∀ path lower upper, PartedAt a b c path lower upper → P lower upper) ↔
      ∀ k,
        (∀ a' b' c', a.get? k = some (.map a') → b.get? k = some (.map b') →
          c.get? k = some (.map c') →
            ∀ path lower upper, PartedAt a' b' c' path lower upper → P lower upper) ∧
        (∀ lower upper, a.get? k = some (.map lower) → (∃ v, b.get? k = some v ∧ v.asMap? = none) →
          c.get? k = some (.map upper) → P lower upper) := by
  constructor
  · intro h k
    refine ⟨fun a' b' c' ha hb hc path lower upper hparted => ?_, fun lower upper ha hb hc => ?_⟩
    · obtain ⟨j, path, rfl⟩ := List.exists_cons_of_ne_nil hparted.path_ne_nil
      exact h _ _ _ (partedAt_cons_cons_iff.mpr ⟨a', b', c', ha, hb, hc, hparted⟩)
    · exact h _ _ _ (partedAt_singleton_iff.mpr ⟨ha, hb, hc⟩)
  · intro h path lower upper hparted
    match path with
    | [] => exact absurd rfl hparted.path_ne_nil
    | [k] =>
      obtain ⟨ha, hb, hc⟩ := partedAt_singleton_iff.mp hparted
      exact (h k).2 lower upper ha hb hc
    | k :: j :: path =>
      obtain ⟨a', b', c', ha, hb, hc, hbelow⟩ := partedAt_cons_cons_iff.mp hparted
      exact (h k).1 a' b' c' ha hb hc _ _ _ hbelow

/-! ## The condition for regrouping

Two dictionaries are equal if they are equal at every key, so one key is looked at first
(`get?_merge_merge_iff`). What is asked for below it is the same question for smaller maps. -/

/-- Two groupings agree at a key exactly if they agree below it and no maps are parted there. -/
theorem get?_merge_merge_iff (a b c : DataMap) (k : String) :
    ((a.merge b).merge c).get? k = (a.merge (b.merge c)).get? k ↔
      (∀ a' b' c' : DataMap, a.get? k = some (.map a') → b.get? k = some (.map b') →
        c.get? k = some (.map c') → (a'.merge b').merge c' = a'.merge (b'.merge c')) ∧
      (∀ lower upper : DataMap, a.get? k = some (.map lower) → (∃ v, b.get? k = some v ∧ v.asMap? = none) →
        c.get? k = some (.map upper) → lower.merge upper = upper) := by
  simp only [get?_merge]
  cases hc : c.get? k with
  | none => simp
  | some later =>
    cases hb : b.get? k with
    | none => simp
    | some middle =>
      rw [Option.some.injEq, Value.over_over_iff]
      simp

/-- **When a merge can be regrouped.** Merging three maps from the left and from the right gives the same
exactly if, wherever the middle one keeps maps of the other two apart, the upper map is as it is when it is
laid over the lower one. -/
theorem merge_assoc_iff (a b c : DataMap) :
    (a.merge b).merge c = a.merge (b.merge c) ↔
      ∀ path lower upper, PartedAt a b c path lower upper → lower.merge upper = upper := by
  induction a using induct generalizing b c with
  | step a ih =>
    rw [Entries.ext_get?_iff, forall_partedAt_iff]
    refine forall_congr' fun k => (get?_merge_merge_iff a b c k).trans (and_congr_left' ?_)
    -- three maps that meet at the key are regrouped below it
    constructor
    · intro h a' b' c' ha hb hc
      exact (ih k a' ha b' c').mp (h a' b' c' ha hb hc)
    · intro h a' b' c' ha hb hc
      exact (ih k a' ha b' c').mpr (h a' b' c' ha hb hc)

end DataMap

end ScriptHost
