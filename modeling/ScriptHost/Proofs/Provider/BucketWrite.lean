import ScriptHost.Proofs.Data.MergeList
import ScriptHost.Proofs.Item.Classification
import ScriptHost.Provider.Buckets

/-!
# Writes into buckets

What one provider of per-call data does to a context. A read depends on one value of the context only
(`read_congr`), a write ends in one of three ways (`write_of_read_error`, `write_of_storable`,
`write_of_failures`), and a commit changes one value only (`value?_commit`).

Storing a list of items is laying maps over the stored data (`foldl_put_eq`): an item for the input bucket
is one map, and a request or a response is two, of which the first clears the bucket. So the law on
replaying a list of maps carries over to items (`foldl_put_replay`), whatever the keys of the buckets are.
-/

namespace ScriptHost

/-- The map under a key; something else there counts as an empty one, like nothing. -/
def DataMap.mapAt (m : DataMap) (k : String) : DataMap := ((m.get? k).bind Value.asMap?).getD ∅

@[simp] theorem DataMap.mapAt_insert_map (m : DataMap) (k : String) (v : DataMap) :
    DataMap.mapAt (m.insert k (.map v)) k = v := by
  simp [DataMap.mapAt]

namespace Buckets

variable {keys : DataKeys} {ctx : Context} {items : List Item}

/-! ## Reading

The stored data is one value of the context. It must be a map or be missing; anything else there belongs to
somebody else, and is not overwritten. -/

/-- A read looks at the value under the provider's own key only. -/
theorem read_congr {c d : Context} (h : c.value? keys.contextKey = d.value? keys.contextKey) :
    read keys c = read keys d := by
  rw [read, read, h]

/-- There are two reasons why stored data cannot be read, and neither has to do with what is in the buckets. -/
theorem read_error_cases {e : ProviderFault} (h : read keys ctx = .error e) :
    e = .emptyKey ∨ ∃ found, e = .notAMap keys.contextKey found := by
  unfold read at h
  split at h
  · exact .inl (Except.error.inj h).symm
  · split at h
    · cases h
    · cases h
    · exact .inr ⟨_, (Except.error.inj h).symm⟩

/-- Stored data that can be read has a key to be stored under. -/
theorem key_ne_empty_of_read {data : DataMap} (h : read keys ctx = .ok data) :
    keys.contextKey ≠ "" := by
  intro hempty
  rw [read, if_pos hempty] at h
  cases h

theorem read_bind (h : keys.contextKey ≠ "") (data : DataMap) :
    read keys (ctx.bind keys.contextKey (.map data)) = .ok data := by
  rw [read, if_neg h, Context.value?_bind, if_pos rfl]

/-! ## What a commit changes

A commit is one binding of the provider's key. With no item at all there is no binding, since a context that
only hides an entry by an equal one would still be another context. -/

/-- A commit binds the provider's own key and nothing else, and only if there is something to store. -/
theorem value?_commit (keys : DataKeys) (ctx : Context) (data : DataMap) (cs : List Classified)
    (k : String) :
    (commit keys ctx data cs).value? k
      = if k = keys.contextKey ∧ cs ≠ [] then some (.map (cs.foldl (put keys) data))
        else ctx.value? k := by
  -- without items nothing is bound, under any key
  cases cs with
  | nil => simp [commit]
  | cons first rest => simp [commit]

theorem value?_commit_of_ne {k : String} (h : k ≠ keys.contextKey) (data : DataMap)
    (cs : List Classified) : (commit keys ctx data cs).value? k = ctx.value? k := by
  rw [value?_commit, if_neg fun hk => h hk.1]

/-- What is read after a commit is what has been committed. Without items nothing is bound, but then nothing has
changed either. -/
theorem read_commit {data : DataMap} (h : read keys ctx = .ok data) (cs : List Classified) :
    read keys (commit keys ctx data cs) = .ok (cs.foldl (put keys) data) := by
  cases cs with
  | nil => exact h
  | cons first rest => exact read_bind (key_ne_empty_of_read h) _

/-! ## The three ends of a write

The stored data is read first, then the items are sorted. These three lemmas and `write_eq_ok_iff` are all that
other modules need of `write`. -/

/-- Stored data that cannot be read ends the write, whatever the items are. -/
theorem write_of_read_error {e : ProviderFault} (h : read keys ctx = .error e) :
    write keys ctx items = .error e := by
  simp only [write, h]

/-- If every item can be stored, the write commits them all. -/
theorem write_of_storable {data : DataMap} (h : read keys ctx = .ok data)
    (hitems : Item.failures items = []) :
    write keys ctx items = .ok (commit keys ctx data (Item.accepted items)) := by
  simp only [write, h, hitems]

/-- If some cannot, the others are committed all the same, and the context goes into the error. -/
theorem write_of_failures {data : DataMap} (h : read keys ctx = .ok data)
    (hitems : Item.failures items ≠ []) :
    write keys ctx items
      = .error (.incomplete (commit keys ctx data (Item.accepted items)) (Item.failures items)) := by
  obtain ⟨first, rest, hcons⟩ := List.exists_cons_of_ne_nil hitems
  simp only [write, h, hcons]

/-- What a write that succeeds tells about the data before it, the items, and the context after it. -/
theorem write_eq_ok_iff {next : Context} :
    write keys ctx items = .ok next ↔
      ∃ data, read keys ctx = .ok data ∧ Item.failures items = [] ∧
        next = commit keys ctx data (Item.accepted items) := by
  constructor
  · intro h
    -- the two other ends of a write are errors
    cases hread : read keys ctx with
    | error e => simp [write_of_read_error hread] at h
    | ok data =>
      by_cases hitems : Item.failures items = []
      · rw [write_of_storable hread hitems] at h
        exact ⟨data, rfl, hitems, (Except.ok.inj h).symm⟩
      · simp [write_of_failures hread hitems] at h
  · rintro ⟨data, hread, hitems, rfl⟩
    exact write_of_storable hread hitems

/-- No error of a provider of per-call data is a refusal by fixed data. -/
theorem write_error_not_refusal {e : ProviderFault} (h : write keys ctx items = .error e) :
    e.isFixedRefusal = false := by
  cases hread : read keys ctx with
  | error e' =>
    rw [write_of_read_error hread] at h
    obtain rfl := Except.error.inj h
    rcases read_error_cases hread with rfl | ⟨found, rfl⟩ <;> rfl
  | ok data =>
    by_cases hitems : Item.failures items = []
    · simp [write_of_storable hread hitems] at h
    · rw [write_of_failures hread hitems] at h
      cases h
      rfl

/-! ## Storing items is laying maps

Merging has a law for replayed lists of maps. Replacing a map is no merge, but it can be written as two: null is
laid over what is there and leaves nothing that could be merged into. -/

def single (k : String) (v : Value) : DataMap := Entries.insert ∅ k v

theorem get?_merge_single (m : DataMap) (k : String) (v : Value) (x : String) :
    (m.merge (single k v)).get? x = if x = k then some (v.over (m.get? x)) else m.get? x := by
  rw [DataMap.get?_merge, single, Entries.get?_insert, Entries.get?_empty]
  by_cases hx : x = k <;> simp [hx]

/-- The maps that storing an item lays over the data. A request or a response takes the place of the one
before, so its bucket is first cleared by a value that is no map. -/
def patches (keys : DataKeys) : Classified → List DataMap
  | .input addition => [single keys.inputKey (.map addition)]
  | .request replacement => [single keys.requestKey .null, single keys.requestKey (.map replacement)]
  | .response replacement =>
    [single keys.responseKey .null, single keys.responseKey (.map replacement)]

/-- What a bucket holds after a merge, as the value that comes of laying one over the other. -/
theorem map_merged (bucket? : Option Value) (addition : DataMap) :
    Value.map (merged bucket? addition) = (Value.map addition).over bucket? := by
  -- only a map is merged into; anything else gives way on both sides
  cases bucket? with
  | none => rfl
  | some v => cases v <;> rfl

/-- Taking the place of what was there is clearing it and laying the new map over nothing. -/
theorem insert_eq_clear_merge (m : DataMap) (k : String) (replacement : DataMap) :
    Entries.insert m k (.map replacement)
      = (m.merge (single k .null)).merge (single k (.map replacement)) := by
  apply Entries.ext_get?
  intro x
  rw [get?_merge_single, get?_merge_single, Entries.get?_insert]
  -- at `k` the replacement is laid over a null, which is no map and leaves no trace
  by_cases hx : x = k
  · simp [hx, Value.over]
  · simp [hx]

/-- Storing an item is laying its maps over the data. -/
theorem put_eq (keys : DataKeys) (data : DataMap) (c : Classified) :
    put keys data c = (patches keys c).foldl DataMap.merge data := by
  cases c with
  | input addition =>
    apply Entries.ext_get?
    intro x
    rw [put, Entries.get?_insert, map_merged, patches, List.foldl_cons, List.foldl_nil,
      get?_merge_single]
    by_cases hx : x = keys.inputKey <;> simp [hx]
  | request replacement => exact insert_eq_clear_merge data keys.requestKey replacement
  | response replacement => exact insert_eq_clear_merge data keys.responseKey replacement

/-- Storing a list of items is laying all their maps, in the order of the items. -/
theorem foldl_put_eq (keys : DataKeys) (data : DataMap) (cs : List Classified) :
    cs.foldl (put keys) data = (cs.flatMap (patches keys)).foldl DataMap.merge data := by
  rw [List.foldl_flatMap]
  congr 1
  funext data c
  exact put_eq keys data c

/-- **Replay.** Storing the same items once more changes nothing. -/
theorem foldl_put_replay (keys : DataKeys) (data : DataMap) (cs : List Classified) :
    cs.foldl (put keys) (cs.foldl (put keys) data) = cs.foldl (put keys) data := by
  simp only [foldl_put_eq]
  exact DataMap.foldl_merge_replay data _

/-! ## Maps in the input bucket

The same for a list of maps in one equation. It says what the input bucket holds without naming the other
buckets. -/

/-- Something that is no map counts as an empty one, like nothing. -/
theorem merged_eq (bucket? : Option Value) (addition : DataMap) :
    merged bucket? addition = ((bucket?.bind Value.asMap?).getD ∅).merge addition := by
  cases bucket? with
  | none => simp [merged]
  | some v => cases v <;> simp [merged, Value.asMap?]

theorem put_input (keys : DataKeys) (data addition : DataMap) :
    put keys data (.input addition)
      = data.insert keys.inputKey (.map ((data.mapAt keys.inputKey).merge addition)) := by
  rw [put, merged_eq, DataMap.mapAt]

/-- Storing maps changes the input bucket only: they are laid over the map that it holds. -/
theorem foldl_put_inputs (keys : DataKeys) (data : DataMap) {maps : List DataMap} (h : maps ≠ []) :
    (maps.map .input).foldl (put keys) data
      = data.insert keys.inputKey (.map (maps.foldl DataMap.merge (data.mapAt keys.inputKey))) := by
  -- from the end, since each insertion hides the one before it
  induction maps using List.reverseRecOn with
  | nil => exact absurd rfl h
  | append_singleton init m ih =>
    rw [List.map_append, List.foldl_append, List.foldl_append, List.map_singleton, List.foldl_cons,
      List.foldl_nil, List.foldl_cons, List.foldl_nil]
    by_cases hinit : init = []
    · rw [hinit]
      exact put_input keys data m
    · -- the insertion of the last map hides the one before
      rw [ih hinit, put_input, DataMap.mapAt_insert_map]
      apply Entries.ext_get?
      intro k
      simp only [Entries.get?_insert]
      split <;> rfl

end Buckets

end ScriptHost
