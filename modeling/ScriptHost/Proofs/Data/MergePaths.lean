import ScriptHost.Proofs.Data.MergeList

/-!
# A merge, seen along a path

Two maps meet at every key that both hold, and again below it. Along one path of keys only two things can
happen to a place, and neither depends on what else the maps hold:

* **`at?_over_of_leaf`**: a value of the later side that is no map ends up where it stands.
* **`at?_over_of_freeAt`**: where the later side says nothing, the earlier side shows through.
-/

namespace ScriptHost

namespace Value

/-- No value lies at the end of the path, and what lies on the way to it are maps only. -/
def FreeAt (v : Value) (path : List String) : Prop :=
  v.at? path = none ∧
    ∀ way w, way <+: path → way ≠ path → v.at? way = some w → w.shape = .object

theorem not_freeAt_nil (v : Value) : ¬ v.FreeAt [] := by
  rintro ⟨hnone, _⟩
  rw [at?_nil] at hnone
  cases hnone

/-- A path can be free below a map only: the value itself lies on the way. -/
theorem FreeAt.exists_map {v : Value} {k : String} {path : List String} (h : v.FreeAt (k :: path)) :
    ∃ m, v = .map m :=
  shape_eq_object_iff.mp (h.2 [] v List.nil_prefix (by simp) (at?_nil v))

/-- Below a map, a path is free if the value at its first key leaves the rest of it free. -/
theorem freeAt_map_cons_iff {m : DataMap} {k : String} {path : List String} :
    (Value.map m).FreeAt (k :: path) ↔ ∀ w, m.get? k = some w → w.FreeAt path := by
  have hstep : ∀ w, m.get? k = some w → ∀ way, (Value.map m).at? (k :: way) = w.at? way := by
    intro w hw way
    rw [at?_map_cons, hw, Option.bind_some]
  constructor
  · intro h w hw
    refine ⟨(hstep w hw path).symm.trans h.1, fun way u hway hne hu => ?_⟩
    refine h.2 (k :: way) u (List.cons_prefix_cons.mpr ⟨rfl, hway⟩) ?_ ((hstep w hw way).trans hu)
    exact fun heq => hne (List.cons.inj heq).2
  · intro h
    constructor
    · rw [at?_map_cons, Option.bind_eq_none_iff]
      exact fun w hw => (h w hw).1
    · intro way u hway hne hu
      cases way with
      | nil =>
        rw [at?_nil] at hu
        obtain rfl := Option.some.inj hu
        rfl
      | cons j way =>
        obtain ⟨rfl, hrest⟩ := List.cons_prefix_cons.mp hway
        obtain ⟨w, hw, hbelow⟩ := Option.bind_eq_some_iff.mp hu
        exact (h w hw).2 way u hrest (fun heq => hne (heq ▸ rfl)) hbelow

/-- **What is no map stays where it stands**, whatever lay there or on the way to it before. -/
theorem at?_over_of_leaf {later v : Value} {path : List String} (hv : v.asMap? = none)
    (h : later.at? path = some v) (earlier? : Option Value) :
    (later.over earlier?).at? path = some v := by
  induction path generalizing later earlier? with
  | nil =>
    rw [at?_nil] at h
    obtain rfl := Option.some.inj h
    rw [over_of_not_map hv, at?_nil]
  | cons k path ih =>
    obtain ⟨m, w, rfl, hw, hbelow⟩ := at?_cons_eq_some_iff.mp h
    cases earlier? with
    | none => rwa [over_none]
    | some earlier =>
      rcases earlier.not_map_or_map with hearlier | ⟨e, rfl⟩
      · rwa [over_of_earlier_not_map hearlier]
      · -- two maps meet, so the value below the key is laid over what the earlier map has there
        rw [over_map_map, at?_map_cons, DataMap.get?_merge, hw]
        exact ih hbelow (e.get? k)

/-- **What is free shows what lay there before.** -/
theorem at?_over_of_freeAt {later : Value} {path : List String} (h : later.FreeAt path)
    (earlier? : Option Value) : (later.over earlier?).at? path = earlier?.bind (·.at? path) := by
  induction path generalizing later earlier? with
  | nil => exact absurd h (not_freeAt_nil later)
  | cons k path ih =>
    obtain ⟨m, rfl⟩ := h.exists_map
    cases earlier? with
    | none => rw [over_none, h.1, Option.bind_none]
    | some earlier =>
      rcases earlier.not_map_or_map with hearlier | ⟨e, rfl⟩
      · -- something that is no map has nothing below it, and neither has the later map there
        rw [over_of_earlier_not_map hearlier, h.1, Option.bind_some, at?_cons_of_not_map hearlier]
      · rw [over_map_map, Option.bind_some, at?_map_cons, at?_map_cons, DataMap.get?_merge]
        cases hk : m.get? k with
        | none => rfl
        | some w => exact ih (freeAt_map_cons_iff.mp h w hk) (e.get? k)

end Value

namespace DataMap

theorem at?_merge_of_leaf {later : DataMap} {path : List String} {v : Value} (hv : v.asMap? = none)
    (h : (Value.map later).at? path = some v) (earlier : DataMap) :
    (Value.map (earlier.merge later)).at? path = some v :=
  Value.at?_over_of_leaf hv h (some (.map earlier))

theorem at?_merge_of_freeAt {later : DataMap} {path : List String}
    (h : (Value.map later).FreeAt path) (earlier : DataMap) :
    (Value.map (earlier.merge later)).at? path = (Value.map earlier).at? path :=
  Value.at?_over_of_freeAt h (some (.map earlier))

/-- The last map laid on a pile has its say, whatever lies below. -/
theorem at?_foldl_merge_of_leaf {maps : List DataMap} {last : DataMap} {path : List String} {v : Value}
    (hlast : maps.getLast? = some last) (hv : v.asMap? = none)
    (h : (Value.map last).at? path = some v) (bottom : DataMap) :
    (Value.map (maps.foldl merge bottom)).at? path = some v := by
  obtain ⟨init, rfl⟩ := List.getLast?_eq_some_iff.mp hlast
  rw [List.foldl_append, List.foldl_cons, List.foldl_nil]
  exact at?_merge_of_leaf hv h _

end DataMap

end ScriptHost
