import ScriptHost.Item

/-!
# Sorting the items of a list

Items are classified one by one, each with its position in the list. The position only feeds errors: an item
further down is stored in the same way, or fails in the same way and reports the other position
(`classify_add`). So what a list stores is put together from what its parts store, and what it reports from
what they report, the later ones moved.

* **`mem_failures_iff`**, **`pairwise_position_failures`**: the failures of a list are those of its items,
  each with its position, in their order.
* **`accepted_append`**, **`failures_append`**: a list that is cut in two.
* **`accepted_filter_storable`**: items that cannot be stored leave no trace among those that can.
-/

namespace ScriptHost

namespace ItemFault

/-- The same fault of an item that stands so much further down in its list. -/
def moved (n : Nat) : ItemFault → ItemFault
  | .unsupported position found => .unsupported (position + n) found
  | .invalidBody position owner fault => .invalidBody (position + n) owner fault

@[simp] theorem position_moved (n : Nat) (e : ItemFault) : (e.moved n).position = e.position + n := by
  cases e <;> rfl

end ItemFault

namespace Item

/-! ## One item

The position goes in, and comes out in a fault only. So `classify_add` moves a whole result at once, and what is
stored for an item (`stored?`) can be named without a position. -/

/-- **Positions feed errors only.** -/
theorem classify_add (item : Item) (position n : Nat) :
    item.classify (position + n) = (item.classify position).mapError (·.moved n) := by
  -- only a message has to be laid out before it is known whether it can be stored
  cases item with
  | map data => rfl
  | value v => cases v <;> rfl
  | request r =>
    simp only [classify]
    cases r.toData <;> rfl
  | response r =>
    simp only [classify]
    cases r.toData <;> rfl

/-- A fault names the item that it was found in. -/
theorem position_of_classify_error {item : Item} {position : Nat} {e : ItemFault}
    (h : item.classify position = .error e) : e.position = position := by
  cases item with
  | map data => cases h
  | value v => cases v <;> cases h <;> rfl
  | request r =>
    simp only [classify] at h
    split at h <;> cases h
    rfl
  | response r =>
    simp only [classify] at h
    split at h <;> cases h
    rfl

/-- What is stored for an item, if it can be stored. -/
def stored? (item : Item) : Option Classified := (item.classify 0).toOption

/-- The item can be stored, wherever it stands. -/
def storable (item : Item) : Bool := item.stored?.isSome

/-- What is stored for an item does not depend on where it stands. -/
theorem toOption_classify (item : Item) (position : Nat) :
    (item.classify position).toOption = item.stored? := by
  rw [← Nat.zero_add position, classify_add, stored?]
  cases item.classify 0 <;> rfl

/-- Nor does it depend on the position whether anything is. -/
theorem storable_iff (item : Item) (position : Nat) :
    item.storable = true ↔ ∃ c, item.classify position = .ok c := by
  rw [storable, ← toOption_classify item position]
  cases item.classify position <;> simp [Except.toOption]

/-! ## The items of a list

`classifyFrom` counts while it goes down the list. The first lemma replaces the count by the index, and the
others read what is reported off it. -/

/-- The list is classified item by item: each result stands where its item does, and counts positions from the
start. -/
theorem getElem?_classifyFrom (start : Nat) (items : List Item) (i : Nat) :
    (classifyFrom start items)[i]? = items[i]?.map (·.classify (start + i)) := by
  -- the count goes up while the index goes down, so their sum stays the same
  induction items generalizing start i with
  | nil => rfl
  | cons item rest ih =>
    cases i with
    | zero => rfl
    | succ i =>
      rw [classifyFrom, List.getElem?_cons_succ, List.getElem?_cons_succ, ih, Nat.add_assoc,
        Nat.add_comm 1 i]

/-- The results of a whole list are those of its items at their own positions. -/
theorem mem_classifyFrom_zero_iff {items : List Item} {r : Except ItemFault Classified} :
    r ∈ classifyFrom 0 items ↔
      ∃ (i : Nat) (item : Item), items[i]? = some item ∧ item.classify i = r := by
  simp only [List.mem_iff_getElem?, getElem?_classifyFrom, Option.map_eq_some_iff, Nat.zero_add]

/-- The faults of a list are those of its items. -/
theorem mem_failures_iff {items : List Item} {e : ItemFault} :
    e ∈ failures items ↔
      ∃ (i : Nat) (item : Item), items[i]? = some item ∧ item.classify i = .error e := by
  rw [← mem_classifyFrom_zero_iff, failures, List.mem_filterMap]
  constructor
  · rintro ⟨r, hr, he⟩
    cases r with
    | ok c => cases he
    | error e' =>
      obtain rfl := Option.some.inj he
      exact hr
  · intro h
    exact ⟨_, h, rfl⟩

/-- What is reported for a position is how the item there fails. -/
theorem mem_failures_and_position_iff {items : List Item} {e : ItemFault} {i : Nat} :
    e ∈ failures items ∧ e.position = i ↔
      ∃ item, items[i]? = some item ∧ item.classify i = .error e := by
  rw [mem_failures_iff]
  constructor
  · rintro ⟨⟨j, item, hj, hc⟩, rfl⟩
    -- the fault says itself at which of the positions it arose
    obtain rfl := position_of_classify_error hc
    exact ⟨item, hj, hc⟩
  · rintro ⟨item, hi, hc⟩
    exact ⟨⟨i, item, hi, hc⟩, position_of_classify_error hc⟩

/-- Nothing is reported exactly if every item can be stored. -/
theorem failures_eq_nil_iff (items : List Item) :
    failures items = [] ↔
      ∀ (i : Nat) (item : Item), items[i]? = some item → ∃ c, item.classify i = .ok c := by
  rw [List.eq_nil_iff_forall_not_mem]
  constructor
  · intro hnone i item hi
    cases hc : item.classify i with
    | ok c => exact ⟨c, rfl⟩
    | error e => exact absurd (mem_failures_iff.mpr ⟨i, item, hi, hc⟩) (hnone e)
  · intro hall e he
    obtain ⟨i, item, hi, hc⟩ := mem_failures_iff.mp he
    obtain ⟨c, hok⟩ := hall i item hi
    rw [hok] at hc
    cases hc

/-- Maps can be stored, at any position. -/
theorem classifyFrom_maps (start : Nat) (maps : List DataMap) :
    classifyFrom start (maps.map .map) = maps.map fun m => .ok (.input m) := by
  induction maps generalizing start with
  | nil => rfl
  | cons m rest ih => rw [List.map_cons, classifyFrom, ih]; rfl

theorem accepted_maps (maps : List DataMap) : accepted (maps.map .map) = maps.map .input := by
  rw [accepted, classifyFrom_maps, List.filterMap_map, ← List.filterMap_eq_map]
  rfl

theorem failures_maps (maps : List DataMap) : failures (maps.map .map) = [] := by
  rw [failures, classifyFrom_maps, List.filterMap_map]
  exact List.filterMap_eq_nil_iff.mpr fun _ _ => rfl

/-! ## A list in two parts

What is stored for a list of two parts is stored for one after the other. What is reported for the second part
is moved by the length of the first, so the faults come in the order of their positions. -/

/-- The second part is counted on from where the first one ends. -/
theorem classifyFrom_append (start : Nat) (xs ys : List Item) :
    classifyFrom start (xs ++ ys) = classifyFrom start xs ++ classifyFrom (start + xs.length) ys := by
  induction xs generalizing start with
  | nil => rfl
  | cons x rest ih =>
    rw [List.cons_append, classifyFrom, classifyFrom, ih, List.cons_append, List.length_cons,
      Nat.add_assoc, Nat.add_comm 1 rest.length]

/-- A list that is counted from further down has the same results, with the faults moved. -/
theorem classifyFrom_add (start n : Nat) (items : List Item) :
    classifyFrom (start + n) items = (classifyFrom start items).map (·.mapError (·.moved n)) := by
  induction items generalizing start with
  | nil => rfl
  | cons item rest ih =>
    rw [classifyFrom, classifyFrom, List.map_cons, ← ih, classify_add, Nat.add_right_comm]

/-- What a list stores is said without positions. -/
theorem accepted_eq (items : List Item) : accepted items = items.filterMap stored? := by
  -- for any start, because the rest of a list is counted from further on
  have hfrom : ∀ start, (classifyFrom start items).filterMap Except.toOption = items.filterMap stored? := by
    induction items with
    | nil => exact fun _ => rfl
    | cons item rest ih =>
      intro start
      rw [classifyFrom, List.filterMap_cons, List.filterMap_cons, toOption_classify, ih]
  rw [← hfrom 0, accepted]
  congr 1
  funext r
  cases r <;> rfl

theorem accepted_append (xs ys : List Item) : accepted (xs ++ ys) = accepted xs ++ accepted ys := by
  rw [accepted_eq, accepted_eq, accepted_eq, List.filterMap_append]

/-- The failures of the second part are reported with the first part before them. -/
theorem failures_append (xs ys : List Item) :
    failures (xs ++ ys) = failures xs ++ (failures ys).map (·.moved xs.length) := by
  rw [failures, classifyFrom_append, List.filterMap_append, classifyFrom_add, List.filterMap_map,
    failures, failures, List.map_filterMap]
  congr 2
  funext r
  cases r <;> rfl

/-- Failures are reported from the first to the last, each once. -/
theorem pairwise_position_failures (items : List Item) :
    (failures items).Pairwise fun e e' => e.position < e'.position := by
  induction items with
  | nil => exact List.Pairwise.nil
  | cons item rest ih =>
    -- the head is a list of its own, behind which the others are moved
    rw [← List.singleton_append, failures_append, List.pairwise_append, List.pairwise_map]
    refine ⟨?_, by simpa using ih, fun e he e' he' => ?_⟩
    · -- a single item fails at most once
      cases hc : item.classify 0 <;> simp [failures, classifyFrom, hc]
    · -- what fails in the rest has been moved past the head
      have hhead : e.position = 0 := by
        obtain ⟨_, hitem, _⟩ := mem_failures_and_position_iff.mp ⟨he, rfl⟩
        simpa using (List.getElem?_eq_some_iff.mp hitem).1
      obtain ⟨e₀, _, rfl⟩ := List.mem_map.mp he'
      rw [hhead, ItemFault.position_moved]
      exact Nat.succ_pos _

/-! ## Items that cannot be stored

They are reported and leave no other trace. -/

/-- Leaving out what cannot be stored changes nothing of what is stored. -/
theorem accepted_filter_storable (items : List Item) :
    accepted (items.filter storable) = accepted items := by
  rw [accepted_eq, accepted_eq, List.filterMap_filter]
  congr 1
  funext item
  rw [storable]
  cases item.stored? <;> rfl

/-- And nothing is then left to report. -/
theorem failures_filter_storable (items : List Item) : failures (items.filter storable) = [] := by
  rw [failures_eq_nil_iff]
  intro i item hi
  have hmem : item ∈ items.filter storable := List.mem_of_getElem? hi
  exact (storable_iff item i).mp (List.mem_filter.mp hmem).2

end Item

end ScriptHost
