import ScriptHost.Proofs.Provider.BestEffort

/-!
# What the buckets hold

Items of three kinds go to three buckets, and the buckets do not meet as long as their keys differ. So the
items of one kind decide alone what their bucket holds, in whichever order the kinds are mixed.

* **`get?_foldl_put`**: a bucket after a list of items, from the maps that the items bring to it.
* **`write_fills_buckets`**: what is read after a write. Maps have been laid over the map in the input
  bucket one after the other; the last request and the last response have taken the place of what was there;
  everything else is as before.
-/

namespace ScriptHost

/-- The places in the stored data that items go to. -/
inductive Bucket where
  | input | request | response
deriving DecidableEq, Repr

def DataKeys.key (keys : DataKeys) : Bucket → String
  | .input => keys.inputKey
  | .request => keys.requestKey
  | .response => keys.responseKey

namespace Classified

def bucket : Classified → Bucket
  | .input _ => .input
  | .request _ => .request
  | .response _ => .response

def data : Classified → DataMap
  | .input data => data
  | .request data => data
  | .response data => data

/-- The map that is brought to a bucket, if it is brought there. -/
def mapFor? (b : Bucket) (c : Classified) : Option DataMap := if c.bucket = b then some c.data else none

/-- The maps that are brought to a bucket, in their order. -/
def mapsFor (b : Bucket) (cs : List Classified) : List DataMap := cs.filterMap (mapFor? b)

theorem mapsFor_cons_of_eq {b : Bucket} {c : Classified} (h : c.bucket = b) (cs : List Classified) :
    mapsFor b (c :: cs) = c.data :: mapsFor b cs := by
  simp [mapsFor, mapFor?, h]

theorem mapsFor_cons_of_ne {b : Bucket} {c : Classified} (h : c.bucket ≠ b) (cs : List Classified) :
    mapsFor b (c :: cs) = mapsFor b cs := by
  simp [mapsFor, mapFor?, h]

/-- Whatever can be stored goes to some bucket. -/
theorem eq_nil_iff_mapsFor {cs : List Classified} : cs = [] ↔ ∀ b, mapsFor b cs = [] := by
  constructor
  · rintro rfl b
    rfl
  · intro h
    cases cs with
    | nil => rfl
    | cons c rest =>
      -- the first item is in its own bucket at least
      have hown := h c.bucket
      rw [mapsFor_cons_of_eq rfl] at hown
      cases hown

end Classified

/-- The maps that the items of a list bring to a bucket, in their order. -/
def Item.mapsFor (b : Bucket) (items : List Item) : List DataMap :=
  Classified.mapsFor b (Item.accepted items)

/-! ## One bucket

What a bucket makes of a map that is brought to it depends on the bucket alone: the input bucket merges, the
others replace (`Bucket.absorb`). A list of maps is a fold of that. -/

namespace Bucket

/-- What a bucket holds once one more map has been brought to it. -/
def absorb (b : Bucket) (held? : Option Value) (addition : DataMap) : DataMap :=
  match b with
  | .input => Buckets.merged held? addition
  | .request => addition
  | .response => addition

/-- What a bucket holds once these maps have been brought to it, one after the other. -/
def fill (b : Bucket) (held? : Option Value) (maps : List DataMap) : Option Value :=
  maps.foldl (fun held? m => some (.map (b.absorb held? m))) held?

/-- Once the input bucket holds a map, all that follows is merging. -/
theorem fill_input_map (m : DataMap) (maps : List DataMap) :
    fill .input (some (.map m)) maps = some (.map (maps.foldl DataMap.merge m)) := by
  induction maps generalizing m with
  | nil => rfl
  | cons n rest ih => exact ih (m.merge n)

/-- Maps are laid over the map that the input bucket holds. -/
theorem fill_input (held? : Option Value) {maps : List DataMap} (h : maps ≠ []) :
    fill .input held? maps
      = some (.map (maps.foldl DataMap.merge ((held?.bind Value.asMap?).getD ∅))) := by
  obtain ⟨m, rest, rfl⟩ := List.exists_cons_of_ne_nil h
  rw [List.foldl_cons, ← Buckets.merged_eq, ← fill_input_map]
  rfl

/-- A request or a response leaves nothing of what the bucket held. -/
theorem fill_of_ne_input {b : Bucket} (hb : b ≠ .input) (held? : Option Value) {maps : List DataMap}
    {last : DataMap} (h : maps.getLast? = some last) : b.fill held? maps = some (.map last) := by
  obtain ⟨init, rfl⟩ := List.getLast?_eq_some_iff.mp h
  rw [fill, List.foldl_append, List.foldl_cons, List.foldl_nil]
  cases b with
  | input => exact absurd rfl hb
  | request => rfl
  | response => rfl

end Bucket

namespace Buckets

open Provider

variable {keys : DataKeys} {items : List Item}

/-! ## One item, and a list of them

The list is followed for one bucket at a time. Items for other buckets are steps at which it stays the same,
because their keys are other keys. -/

/-- An item changes its own bucket. -/
theorem get?_put (keys : DataKeys) (data : DataMap) (c : Classified) (k : String) :
    (put keys data c).get? k
      = if k = keys.key c.bucket then
          some (.map (c.bucket.absorb (data.get? (keys.key c.bucket)) c.data))
        else data.get? k := by
  cases c with
  | input data => exact Entries.get?_insert _ _ _ _
  | request data => exact Entries.get?_insert _ _ _ _
  | response data => exact Entries.get?_insert _ _ _ _

/-- **One bucket after a list of items.** With keys that differ, a bucket holds what the maps that are brought
to it make of what it held. -/
theorem get?_foldl_put (hkeys : Function.Injective keys.key) (b : Bucket) (cs : List Classified)
    (data : DataMap) :
    (cs.foldl (put keys) data).get? (keys.key b)
      = b.fill (data.get? (keys.key b)) (Classified.mapsFor b cs) := by
  induction cs generalizing data with
  | nil => rfl
  | cons c rest ih =>
    rw [List.foldl_cons, ih, get?_put]
    -- an item goes to the bucket that is looked at, or leaves it alone
    by_cases hc : c.bucket = b
    · rw [Classified.mapsFor_cons_of_eq hc, if_pos (by rw [hc]), hc]
      rfl
    · -- the key of another bucket is another key
      have hne : keys.key b ≠ keys.key c.bucket := fun heq => hc (hkeys heq).symm
      rw [Classified.mapsFor_cons_of_ne hc, if_neg hne]

/-- A key that belongs to no bucket is never touched. -/
theorem get?_foldl_put_of_ne {k : String} (h : ∀ b, k ≠ keys.key b) (cs : List Classified)
    (data : DataMap) : (cs.foldl (put keys) data).get? k = data.get? k := by
  induction cs generalizing data with
  | nil => rfl
  | cons c rest ih => rw [List.foldl_cons, ih, get?_put, if_neg (h c.bucket)]

/-! ## The stored data as a whole

A key of the stored data belongs to one bucket or to none, so the buckets and the keys elsewhere are all there
is. -/

/-- What the stored data holds once items have been stored over what it held before. -/
structure Filled (keys : DataKeys) (items : List Item) (before after : DataMap) : Prop where
  input : Item.mapsFor .input items ≠ [] →
    after.get? keys.inputKey = some (.map
      ((Item.mapsFor .input items).foldl DataMap.merge (before.mapAt keys.inputKey)))
  request : ∀ last, (Item.mapsFor .request items).getLast? = some last →
    after.get? keys.requestKey = some (.map last)
  response : ∀ last, (Item.mapsFor .response items).getLast? = some last →
    after.get? keys.responseKey = some (.map last)
  untouched : ∀ b, Item.mapsFor b items = [] → after.get? (keys.key b) = before.get? (keys.key b)
  elsewhere : ∀ k, (∀ b, k ≠ keys.key b) → after.get? k = before.get? k

/-- Storing items fills the buckets as `Filled` says. -/
theorem filled_foldl_put (hkeys : Function.Injective keys.key) (items : List Item) (data : DataMap) :
    Filled keys items data ((Item.accepted items).foldl (put keys) data) where
  input h := (get?_foldl_put hkeys .input _ data).trans (Bucket.fill_input _ h)
  request _ h := (get?_foldl_put hkeys .request _ data).trans (Bucket.fill_of_ne_input (by decide) _ h)
  response _ h := (get?_foldl_put hkeys .response _ data).trans (Bucket.fill_of_ne_input (by decide) _ h)
  untouched b h := by
    rw [get?_foldl_put hkeys b]
    exact congrArg (b.fill _) h
  elsewhere _ h := get?_foldl_put_of_ne h _ data

/-- The maps for each bucket decide what is stored, in whichever way they are mixed. -/
theorem foldl_put_congr (hkeys : Function.Injective keys.key) {cs ds : List Classified}
    (hsame : ∀ b, Classified.mapsFor b ds = Classified.mapsFor b cs) (data : DataMap) :
    ds.foldl (put keys) data = cs.foldl (put keys) data := by
  apply Entries.ext_get?
  intro k
  -- a key of the stored data belongs to a bucket, or no item touches it
  by_cases hk : ∃ b, k = keys.key b
  · obtain ⟨b, rfl⟩ := hk
    rw [get?_foldl_put hkeys, get?_foldl_put hkeys, hsame]
  · have hne : ∀ b, k ≠ keys.key b := fun b heq => hk ⟨b, heq⟩
    rw [get?_foldl_put_of_ne hne, get?_foldl_put_of_ne hne]

/-- **What is stored by a write.** With keys that differ, the buckets hold after a write, also after one that
could store a part of the items only, what `Filled` says, and no other key of the context has changed.
Another list of items that brings the same maps to each bucket, in the same order, stores the same. -/
theorem write_fills_buckets (keys : DataKeys) (hkeys : Function.Injective keys.key) (ctx : Context)
    (before : DataMap) (hread : (Provider.buckets keys).read ctx = .ok before) (items : List Item) :
    ∃ next after,
      reached? ((Provider.buckets keys).write ctx items) = some next ∧
      (Provider.buckets keys).read next = .ok after ∧
      Filled keys items before after ∧
      (∀ k, k ≠ keys.contextKey → next.value? k = ctx.value? k) ∧
      ∀ other, (∀ b, Item.mapsFor b other = Item.mapsFor b items) →
        ∃ next', reached? ((Provider.buckets keys).write ctx other) = some next' ∧
          (Provider.buckets keys).read next' = .ok after ∧ ∀ k, next'.value? k = next.value? k := by
  refine ⟨_, _, reached?_write hread items, read_commit hread _, filled_foldl_put hkeys items before,
    fun k hk => value?_commit_of_ne hk before _, fun other hsame => ?_⟩
  have hstored : (Item.accepted other).foldl (put keys) before
      = (Item.accepted items).foldl (put keys) before := foldl_put_congr hkeys hsame before
  refine ⟨_, reached?_write hread other, ?_, fun k => ?_⟩
  · rw [← hstored]
    exact read_commit hread _
  · -- one of the lists stores something exactly if the other does
    have hnil : Item.accepted other = [] ↔ Item.accepted items = [] := by
      rw [Classified.eq_nil_iff_mapsFor, Classified.eq_nil_iff_mapsFor]
      exact forall_congr' fun b => by rw [← Item.mapsFor, ← Item.mapsFor, hsame b]
    rw [value?_commit, value?_commit, hstored]
    exact if_congr (and_congr_right' (not_congr hnil)) rfl rfl

/-- A name that is no map in the input bucket, a request, and a key of somebody else. -/
def visited : DataMap :=
  Entries.ofList [("input_data", .string "nobody"), ("request", .map (single "Method" (.string "GET"))),
    ("trace", .bool true)]

def taken : Http.Response := ⟨⟨202, by decide, by decide⟩, .v11, [], []⟩

def gone : Http.Response := ⟨⟨410, by decide, by decide⟩, .v2, [⟨"retry-after", [0x35]⟩], []⟩

/-- Maps and responses in turn, with an item between them that cannot be stored. -/
def mixed : List Item :=
  [.response gone, .map (single "name" (.string "grace")), .value .null, .response taken,
    .map (single "role" (.string "admiral"))]

/-- The maps have been piled up on nothing, the first response has left no trace, and the request is still
there. -/
theorem write_fills_buckets_mixed :
    Function.Injective (DataKeys.key .standard) ∧
    (Provider.buckets .standard).read (Context.root.bind "eval_data" (.map visited)) = .ok visited ∧
    ∃ next after last,
      reached? ((Provider.buckets .standard).write (Context.root.bind "eval_data" (.map visited)) mixed)
        = some next ∧
      (Provider.buckets .standard).read next = .ok after ∧
      after.get? "input_data"
        = some (.map ((single "name" (.string "grace")).merge (single "role" (.string "admiral")))) ∧
      taken.toData = .ok last ∧ after.get? "response" = some (.map last) ∧
      after.get? "request" = visited.get? "request" ∧
      after.get? "trace" = some (.bool true) := by
  have hkeys : Function.Injective (DataKeys.key .standard) := by
    intro b b' h
    cases b <;> cases b' <;> simp_all [DataKeys.key, DataKeys.standard]
  obtain ⟨next, after, hreached, hread, hfilled, _⟩ :=
    write_fills_buckets .standard hkeys (Context.root.bind "eval_data" (.map visited)) visited rfl mixed
  refine ⟨hkeys, rfl, next, after, _, hreached, hread, ?_, rfl, hfilled.response _ rfl,
    hfilled.untouched .request rfl, ?_⟩
  · exact hfilled.input (List.cons_ne_nil _ _)
  · refine hfilled.elsewhere "trace" fun b => ?_
    cases b <;> decide

end Buckets

end ScriptHost
