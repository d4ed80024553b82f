import ScriptHost.Data.Value

/-!
# Merging maps

`DataMap.merge earlier later` lays one map over another. Keys of one side only are kept. Where both sides
hold a map, the maps are merged in turn; any other conflict is won by the later side whole, so lists are
replaced and never joined. `DataMap.mergeList` merges a list of maps from left to right.

`get?_merge` says what a merge does to every look-up; with `Entries.ext_get?` it determines the merge.
-/

namespace ScriptHost

mutual

/-- The value that ends up at a key which holds `earlier?` when this later value is laid over it. -/
def Value.over (earlier? : Option Value) : Value → Value
  | .map later =>
    match earlier? with
    | some (.map earlier) => .map (Entries.mergeInto earlier later)
    | _ => .map later
  | .null => .null
  | .bool b => .bool b
  | .number n => .number n
  | .string s => .string s
  | .list items => .list items

/-- Lays the entries over a map, one after the other. -/
def Entries.mergeInto (earlier : Dict Value) : {lo : Option String} → Entries Value lo → Dict Value
  | _, .nil => earlier
  | _, .cons key _ value rest =>
    Entries.mergeInto (earlier.insert key (value.over (earlier.get? key))) rest

end

namespace DataMap

/-- Lays the later map over the earlier one. -/
def merge (earlier later : DataMap) : DataMap := Entries.mergeInto earlier later

/-- Merges a list of maps from left to right; later maps win. -/
def mergeList (maps : List DataMap) : DataMap := maps.foldl merge ∅

end DataMap

namespace Value

@[simp] theorem over_none (v : Value) : v.over none = v := by
  cases v <;> rfl

@[simp] theorem over_map_map (m n : DataMap) :
    (Value.map n).over (some (.map m)) = .map (m.merge n) := rfl

/-- A value that is no map takes the place of whatever was there. -/
theorem over_of_not_map {v : Value} (h : v.asMap? = none) (earlier? : Option Value) :
    v.over earlier? = v := by
  cases v with
  | map m => cases h
  | _ => rfl

/-- A map takes the place of whatever was there and is no map. -/
theorem over_of_earlier_not_map {earlier : Value} (h : earlier.asMap? = none) (v : Value) :
    v.over (some earlier) = v := by
  cases v with
  | map later =>
    cases earlier with
    | map m => cases h
    | _ => rfl
  | _ => rfl

end Value

namespace DataMap

/-- The law of `get?_merge` for the entries above a bound. Induction on the later entries, with the earlier map
left open, since it takes in one entry after the other. -/
theorem get?_mergeInto {lo : Option String} (later : Entries Value lo) (earlier : DataMap) (k : String) :
    (Entries.mergeInto earlier later).get? k
      = match later.get? k with
        | none => earlier.get? k
        | some v => some (v.over (earlier.get? k)) := by
  induction later generalizing earlier with
  | nil => rfl
  | cons key above value rest ih =>
    rw [Entries.mergeInto, ih, Entries.get?_cons, Entries.get?_insert]
    by_cases hk : k = key
    · subst hk
      rw [Entries.get?_eq_none_of_not_above (show ¬ Above (some k) k from String.lt_irrefl k)]
      simp
    · simp [hk]

/-- **What a merge holds.** A key of the later map holds that map's value laid over the earlier one's;
any other key is as in the earlier map. -/
theorem get?_merge (earlier later : DataMap) (k : String) :
    (earlier.merge later).get? k
      = match later.get? k with
        | none => earlier.get? k
        | some v => some (v.over (earlier.get? k)) :=
  get?_mergeInto later earlier k

/-- An empty later map changes nothing. -/
@[simp] theorem merge_empty (m : DataMap) : m.merge ∅ = m := rfl

/-- An empty earlier map leaves no trace. -/
@[simp] theorem empty_merge (m : DataMap) : merge ∅ m = m := by
  apply Entries.ext_get?
  intro k
  rw [get?_merge]
  cases m.get? k <;> simp

@[simp] theorem mergeList_nil : mergeList [] = ∅ := rfl

/-- A merge of maps can stop in between and go on from there. -/
theorem mergeList_append (maps more : List DataMap) :
    mergeList (maps ++ more) = more.foldl merge (mergeList maps) :=
  List.foldl_append

/-- The last map is laid over the merge of those before it. -/
theorem mergeList_concat (maps : List DataMap) (m : DataMap) :
    mergeList (maps ++ [m]) = (mergeList maps).merge m := by
  simp [mergeList]

end DataMap

end ScriptHost
