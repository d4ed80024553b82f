import ScriptHost.Proofs.Provider.BucketWrite

/-!
# Writes that store what they can

A provider of per-call data stores the items that it can and reports the others. The caller gets a context
in both cases, as the result of the write or with its error, and goes on with that one. This module looks at
a write as such a pair: the context it has reached and the items it reports.

* **`write_best_effort`**: the context is that of a write without the items that cannot be stored, and what
  is reported are these items, each at its position.
* **`write_in_two_calls`**: a list of items may be written in one call or in two.
* **`write_again_reaches_same`**: a write may be repeated.
-/

namespace ScriptHost

namespace Provider

/-- The context that a write has reached, with everything or with what could be stored. -/
def reached? : Except ProviderFault Context → Option Context
  | .ok next => some next
  | .error e => e.committed?

/-- What a write reports about the items that could not be stored. -/
def reported : Except ProviderFault Context → List ItemFault
  | .error (.incomplete _ failures) => failures
  | _ => []

end Provider

namespace Buckets

open Provider

variable {keys : DataKeys} {ctx : Context} {data : DataMap} {items : List Item}

/-- The context of a write is that of the commit, with an error or without one. -/
theorem reached?_write (h : read keys ctx = .ok data) (items : List Item) :
    reached? (write keys ctx items) = some (commit keys ctx data (Item.accepted items)) := by
  by_cases hitems : Item.failures items = []
  · rw [write_of_storable h hitems]
    rfl
  · rw [write_of_failures h hitems]
    rfl

/-- What is reported is what sorting the items has found. -/
theorem reported_write (h : read keys ctx = .ok data) (items : List Item) :
    reported (write keys ctx items) = Item.failures items := by
  by_cases hitems : Item.failures items = []
  · rw [write_of_storable h hitems, hitems]
    rfl
  · rw [write_of_failures h hitems]
    rfl

/-- Once the stored data has been read, only the items decide. -/
theorem exists_write_ok_iff (h : read keys ctx = .ok data) :
    (∃ next, write keys ctx items = .ok next) ↔ Item.failures items = [] := by
  constructor
  · rintro ⟨next, hnext⟩
    obtain ⟨_, _, hitems, _⟩ := write_eq_ok_iff.mp hnext
    exact hitems
  · intro hitems
    exact ⟨_, write_of_storable h hitems⟩

/-! ## Items that cannot be stored

A list is compared with what is left of it when they are taken out. The positions in the report are those of the
whole list, which is why the report is not about what is left. -/

/-- Without the items that cannot be stored the write succeeds, with the same context. -/
theorem write_filter_storable (h : read keys ctx = .ok data) (items : List Item) :
    write keys ctx (items.filter Item.storable)
      = .ok (commit keys ctx data (Item.accepted items)) := by
  rw [write_of_storable h (Item.failures_filter_storable items), Item.accepted_filter_storable]

/-- **A write stores what it can and reports the rest.** It succeeds exactly if all items can be stored.
Otherwise its error reports the items that cannot, in the order of their positions, each at its own position
and once. The context is in both cases the one that a write of the other items alone results in; if there
are none, it is the caller's. -/
theorem write_best_effort (keys : DataKeys) (ctx : Context) (stored : DataMap)
    (hread : (Provider.buckets keys).read ctx = .ok stored) (items : List Item) :
    ((∃ next, (Provider.buckets keys).write ctx items = .ok next) ↔
      ∀ (i : Nat) (item : Item), items[i]? = some item → ∃ c, item.classify i = .ok c) ∧
    ((¬ ∃ next, (Provider.buckets keys).write ctx items = .ok next) →
      ∃ next failures, (Provider.buckets keys).write ctx items = .error (.incomplete next failures) ∧
        failures.Pairwise (fun e e' => e.position < e'.position) ∧
        ∀ (e : ItemFault) (i : Nat), e ∈ failures ∧ e.position = i ↔
          ∃ item, items[i]? = some item ∧ item.classify i = .error e) ∧
    ∃ next, reached? ((Provider.buckets keys).write ctx items) = some next ∧
      (Provider.buckets keys).write ctx (items.filter Item.storable) = .ok next ∧
      (items.filter Item.storable = [] → next = ctx) := by
  have hok : (∃ next, write keys ctx items = .ok next) ↔ Item.failures items = [] :=
    exists_write_ok_iff hread
  refine ⟨hok.trans (Item.failures_eq_nil_iff items), fun hfails => ?_,
    _, reached?_write hread items, write_filter_storable hread items, fun hnone => ?_⟩
  · have hitems : Item.failures items ≠ [] := fun hnil => hfails (hok.mpr hnil)
    exact ⟨_, _, write_of_failures hread hitems, Item.pairwise_position_failures items,
      fun e i => Item.mem_failures_and_position_iff⟩
  · -- without storable items nothing is accepted, and nothing is committed
    rw [← Item.accepted_filter_storable, hnone]
    rfl

/-- A map between two items that cannot be stored. -/
def scattered : List Item := [.value .null, .map (single "kept" (.bool true)), .value (.list [])]

/-- Both are reported at their positions, and the context is that of the map alone. -/
theorem write_best_effort_scattered :
    (Provider.buckets .standard).read .root = .ok ∅ ∧
    ∃ next,
      (Provider.buckets .standard).write .root scattered
        = .error (.incomplete next [.unsupported 0 .null, .unsupported 2 .array]) ∧
      (Provider.buckets .standard).write .root [.map (single "kept" (.bool true))] = .ok next := by
  obtain ⟨next, hreached, hkept, _⟩ := (write_best_effort .standard .root ∅ rfl scattered).2.2
  obtain rfl := Option.some.inj hreached
  exact ⟨rfl, _, rfl, hkept⟩

/-! ## Writes in two calls

A second call reads what the first one has stored, so the two commits fold over the data in turn. It counts
positions afresh, and they have to be moved to make one report of two. -/

theorem isCancelled_commit (keys : DataKeys) (ctx : Context) (data : DataMap) (cs : List Classified)
    (fired : Cancellations) : (commit keys ctx data cs).isCancelled fired = ctx.isCancelled fired := by
  cases cs <;> rfl

/-- A commit after a commit stores what both store, in one. -/
theorem value?_commit_append (keys : DataKeys) (ctx : Context) (data : DataMap) (cs ds : List Classified)
    (k : String) :
    (commit keys ctx data (cs ++ ds)).value? k
      = (commit keys (commit keys ctx data cs) (cs.foldl (put keys) data) ds).value? k := by
  rw [value?_commit, value?_commit, value?_commit, List.foldl_append]
  by_cases hk : k = keys.contextKey
  · -- under the provider's own key, the last of the two that stores anything counts
    by_cases hds : ds = []
    · simp [hds]
    · simp [hk, hds]
  · simp [hk]

/-- **One call or two.** Items that are written in one call store the same as if the first of them are written
in a call of their own, and the others into the context that it has reached. What is reported is the same as
well, with the positions of the others moved by the number of the first. -/
theorem write_in_two_calls (keys : DataKeys) (ctx : Context) (stored : DataMap)
    (hread : (Provider.buckets keys).read ctx = .ok stored) (xs ys : List Item) :
    ∃ once first second,
      reached? ((Provider.buckets keys).write ctx (xs ++ ys)) = some once ∧
      reached? ((Provider.buckets keys).write ctx xs) = some first ∧
      reached? ((Provider.buckets keys).write first ys) = some second ∧
      (∀ k, once.value? k = second.value? k) ∧
      (∀ fired, once.isCancelled fired = second.isCancelled fired) ∧
      reported ((Provider.buckets keys).write ctx (xs ++ ys))
        = reported ((Provider.buckets keys).write ctx xs)
          ++ (reported ((Provider.buckets keys).write first ys)).map (·.moved xs.length) := by
  -- what the first call stores is what the second one reads
  have hfirst : read keys (commit keys ctx stored (Item.accepted xs))
      = .ok ((Item.accepted xs).foldl (put keys) stored) := read_commit hread _
  refine ⟨_, _, _, reached?_write hread (xs ++ ys), reached?_write hread xs, reached?_write hfirst ys,
    fun k => ?_, fun fired => ?_, ?_⟩
  · rw [Item.accepted_append]
    exact value?_commit_append keys ctx stored _ _ k
  · simp only [isCancelled_commit]
  · show reported (write keys ctx (xs ++ ys)) = reported (write keys ctx xs)
      ++ (reported (write keys _ ys)).map _
    rw [reported_write hread, reported_write hread, reported_write hfirst, Item.failures_append]

/-- All items go to one bucket. -/
def oneBucket : DataKeys := ⟨"data", "all", "all", "all"⟩

/-- A map, and a response whose body is no text. -/
def garbled : List Item :=
  [.value (.map (single "late" .null)), .response ⟨⟨200, by decide, by decide⟩, .v11, [], [0xFF]⟩]

/-- The response is the second item of its own call and the fifth of the single one. -/
theorem write_in_two_calls_oneBucket :
    (Provider.buckets oneBucket).read .root = .ok ∅ ∧
    ∃ once first second,
      reached? ((Provider.buckets oneBucket).write .root (scattered ++ garbled)) = some once ∧
      reached? ((Provider.buckets oneBucket).write .root scattered) = some first ∧
      reached? ((Provider.buckets oneBucket).write first garbled) = some second ∧
      once.value? "data" = second.value? "data" ∧
      reported ((Provider.buckets oneBucket).write .root scattered)
          ++ (reported ((Provider.buckets oneBucket).write first garbled)).map (·.moved 3)
        = [.unsupported 0 .null, .unsupported 2 .array, .invalidBody 4 .response ⟨0, some 1⟩] := by
  obtain ⟨once, first, second, honce, hfirst, hsecond, hvalue, _, hreported⟩ :=
    write_in_two_calls oneBucket .root ∅ rfl scattered garbled
  exact ⟨rfl, once, first, second, honce, hfirst, hsecond, hvalue "data", hreported.symm⟩

/-! ## Repeated writes

A host that is told of some failed items may hand in the whole list again. It finds the values that it left,
though on the way an early item may undo what a late one did before. -/

/-- A commit on top of the commit of the same items changes nothing. -/
theorem value?_commit_replay (keys : DataKeys) (ctx : Context) (data : DataMap) (cs : List Classified)
    (k : String) :
    (commit keys (commit keys ctx data cs) (cs.foldl (put keys) data) cs).value? k
      = (commit keys ctx data cs).value? k := by
  rw [← value?_commit_append, value?_commit, value?_commit, List.foldl_append, foldl_put_replay]
  simp

/-- **Once or twice.** Items that are written once more into the context that their write has reached change
nothing there, and the same ones are reported. This comes down to maps that are laid over some map once
more, in the same order. -/
theorem write_again_reaches_same (keys : DataKeys) (ctx : Context) (stored : DataMap)
    (hread : (Provider.buckets keys).read ctx = .ok stored) (items : List Item) :
    (∃ first second,
      reached? ((Provider.buckets keys).write ctx items) = some first ∧
      reached? ((Provider.buckets keys).write first items) = some second ∧
      (∀ k, second.value? k = first.value? k) ∧
      (∀ fired, second.isCancelled fired = first.isCancelled fired) ∧
      reported ((Provider.buckets keys).write first items)
        = reported ((Provider.buckets keys).write ctx items)) ∧
    (∀ (e : DataMap) (maps : List DataMap),
      maps.foldl DataMap.merge (maps.foldl DataMap.merge e) = maps.foldl DataMap.merge e) := by
  -- the second write reads what the first one has stored
  have hfirst : read keys (commit keys ctx stored (Item.accepted items))
      = .ok ((Item.accepted items).foldl (put keys) stored) := read_commit hread _
  refine ⟨⟨_, _, reached?_write hread items, reached?_write hfirst items, fun k => ?_, fun fired => ?_, ?_⟩,
    DataMap.foldl_merge_replay⟩
  · exact value?_commit_replay keys ctx stored _ k
  · rw [isCancelled_commit]
  · exact (reported_write hfirst items).trans (reported_write hread items).symm

/-- A name, something that cannot be stored, and a name in parts that takes the place of the first. -/
def renamed : List Item :=
  [.map (single "name" (.string "grace")), .value .null,
    .map (single "name" (.map (single "first" (.string "grace"))))]

/-- The name is a text once more on the way, and in parts again at the end. -/
theorem write_again_reaches_same_renamed :
    (Provider.buckets oneBucket).read .root = .ok ∅ ∧
    ∃ first second,
      reached? ((Provider.buckets oneBucket).write .root renamed) = some first ∧
      reached? ((Provider.buckets oneBucket).write first renamed) = some second ∧
      second.value? "data" = first.value? "data" ∧
      reported ((Provider.buckets oneBucket).write first renamed) = [.unsupported 1 .null] := by
  obtain ⟨⟨first, second, hfirst, hsecond, hvalue, _, hreported⟩, _⟩ :=
    write_again_reaches_same oneBucket .root ∅ rfl renamed
  exact ⟨rfl, first, second, hfirst, hsecond, hvalue "data", hreported⟩

end Buckets

end ScriptHost
