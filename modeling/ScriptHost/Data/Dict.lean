/-!
# Ordered dictionaries

`Dict α` is a finite map from strings to `α`, kept in increasing order of its keys (by code point, which
is also the order of the UTF-8 bytes). The order is part of the type: `Entries α lo` is a list of entries
whose keys all lie above `lo` and increase, so a dictionary has exactly one representation and two
dictionaries that answer every look-up alike are equal (`Entries.ext_get?`).

Every operation comes with the lemma that says what it does to look-ups (`get?_insert`, `get?_group`), and
these lemmas are all that the rest of the library uses.
-/

namespace ScriptHost

/-- A key lies above a bound; every key lies above the absent bound. -/
abbrev Above : Option String → String → Prop
  | none, _ => True
  | some bound, key => bound < key

/-- Entries with increasing keys, all of them above the bound. -/
inductive Entries (α : Type) : Option String → Type where
  | nil {lo : Option String} : Entries α lo
  | cons {lo : Option String} (key : String) (above : Above lo key) (value : α)
      (rest : Entries α (some key)) : Entries α lo

/-- A dictionary: entries in increasing order of their keys. -/
abbrev Dict (α : Type) : Type := Entries α none

namespace Above

theorem trans {lo : Option String} {a b : String} (h : Above lo a) (hab : a < b) : Above lo b := by
  cases lo with
  | none => trivial
  | some bound => exact String.lt_trans (show bound < a from h) hab

end Above

namespace Entries

variable {α β : Type} {lo : Option String}

instance : EmptyCollection (Entries α lo) := ⟨.nil⟩
instance : Inhabited (Entries α lo) := ⟨.nil⟩

/-- The value at a key. The order of the keys is not used, so a look-up may go on behind the place of its key. -/
def get? : {lo : Option String} → Entries α lo → String → Option α
  | _, .nil, _ => none
  | _, .cons key _ value rest, k => if k = key then some value else rest.get? k

/-- Stores a value at a key, in place of the one that was there. -/
def insertAbove (k : String) (v : α) : {lo : Option String} → Entries α lo → Above lo k → Entries α lo
  | _, .nil, h => .cons k h v .nil
  | _, .cons key above value rest, h =>
    if below : k < key then .cons k h v (.cons key below value rest)
    else if beyond : key < k then .cons key above value (rest.insertAbove k v beyond)
    else .cons key above v rest

/-- Stores a value at a key of a dictionary, in place of the one that was there. -/
def insert (m : Dict α) (k : String) (v : α) : Dict α := m.insertAbove k v trivial

/-- The entries as pairs, in the order of their keys. -/
def toList : {lo : Option String} → Entries α lo → List (String × α)
  | _, .nil => []
  | _, .cons key _ value rest => (key, value) :: rest.toList

/-- The dictionary of a list of pairs; of two pairs with one key the later counts. -/
def ofList (pairs : List (String × α)) : Dict α := pairs.foldl (fun m p => m.insert p.1 p.2) .nil

/-- A function applied to every value; the keys stay as they are. -/
def map (f : α → β) : {lo : Option String} → Entries α lo → Entries β lo
  | _, .nil => .nil
  | _, .cons key above value rest => .cons key above (f value) (rest.map f)

/-- Collects the values of equal keys into one list each, in the order of the pairs. -/
def group (pairs : List (String × α)) : Dict (List α) :=
  pairs.foldl (fun m p => m.insert p.1 ((m.get? p.1).getD [] ++ [p.2])) .nil

/-! ## Look-ups

What each operation does to look-ups. An insertion is followed through the order of the keys once, in
`get?_insertAbove`; of the laws after it only extensionality looks at the order once more. -/

@[simp] theorem get?_nil (k : String) : (Entries.nil : Entries α lo).get? k = none := rfl

@[simp] theorem get?_empty (k : String) : (∅ : Entries α lo).get? k = none := rfl

theorem get?_cons (key : String) (above : Above lo key) (value : α) (rest : Entries α (some key))
    (k : String) :
    (Entries.cons key above value rest).get? k = if k = key then some value else rest.get? k := rfl

/-- A key that holds a value lies above the bound. -/
theorem above_of_get? {m : Entries α lo} {k : String} {v : α} (h : m.get? k = some v) : Above lo k := by
  induction m with
  | nil => cases h
  | cons key above value rest ih =>
    rw [get?_cons] at h
    by_cases hk : k = key
    · exact hk ▸ above
    · rw [if_neg hk] at h
      exact above.trans (ih h)

/-- Below the bound nothing is stored. This is what the order of the keys is for. -/
theorem get?_eq_none_of_not_above {m : Entries α lo} {k : String} (h : ¬ Above lo k) :
    m.get? k = none := by
  cases hm : m.get? k with
  | none => rfl
  | some v => exact absurd (above_of_get? hm) h

/-- An insertion above a bound changes the look-up of its own key and of no other. There are three cases, since
the key comes before the first entry, comes after it, or is its key. -/
theorem get?_insertAbove (m : Entries α lo) (k : String) (v : α) (h : Above lo k) (x : String) :
    (m.insertAbove k v h).get? x = if x = k then some v else m.get? x := by
  induction m with
  | nil => rfl
  | cons key above value rest ih =>
    unfold insertAbove
    split
    · rfl
    · split
      · rename_i hnot hlt
        rw [get?_cons, get?_cons, ih]
        by_cases hx : x = key
        · have hne : ¬ key = k := fun e => String.lt_irrefl k (e ▸ hlt)
          simp [hx, hne]
        · simp [hx]
      · rename_i h1 h2
        have hk : k = key := String.le_antisymm (String.not_lt.1 h2) (String.not_lt.1 h1)
        rw [get?_cons, get?_cons, hk]
        by_cases hx : x = key <;> simp [hx]

/-- **Reading back.** An insertion changes the look-up of its own key and of no other. -/
@[simp] theorem get?_insert (m : Dict α) (k : String) (v : α) (x : String) :
    (m.insert k v).get? x = if x = k then some v else m.get? x :=
  get?_insertAbove m k v trivial x

theorem get?_insert_self (m : Dict α) (k : String) (v : α) : (m.insert k v).get? k = some v := by simp

/-- A look-up after a map is the look-up before it, mapped. -/
theorem get?_map (f : α → β) (m : Entries α lo) (k : String) :
    (m.map f).get? k = (m.get? k).map f := by
  induction m with
  | nil => rfl
  | cons key above value rest ih =>
    rw [map, get?_cons, get?_cons, ih]
    split <;> rfl

/-- A map changes the second part of each pair. -/
theorem toList_map (f : α → β) (m : Entries α lo) :
    (m.map f).toList = m.toList.map fun entry => (entry.1, f entry.2) := by
  induction m with
  | nil => rfl
  | cons key above value rest ih => rw [map, toList, toList, ih, List.map_cons]

/-! ## Extensionality

The order leaves one place for each key, so that look-ups determine the entries. The proof takes both sides
apart together: of two different first keys the lower one would be missing on the other side. -/

/-- **One representation.** Entries that answer every look-up alike are equal. -/
theorem ext_get? {m n : Entries α lo} (h : ∀ k, m.get? k = n.get? k) : m = n := by
  induction m with
  | nil =>
    cases n with
    | nil => rfl
    | cons key above value rest => simpa [get?_cons] using h key
  | cons key above value rest ih =>
    cases n with
    | nil => simpa [get?_cons] using h key
    | cons key' above' value' rest' =>
      have hrest : ∀ {b : String} {r : Entries α (some b)} {k : String}, ¬ b < k → r.get? k = none :=
        fun hb => get?_eq_none_of_not_above hb
      have hkey : key = key' := by
        rcases Std.lt_trichotomy key key' with hlt | heq | hgt
        · have := h key
          rw [get?_cons, if_pos rfl, get?_cons, if_neg (fun e => String.lt_irrefl _ (e ▸ hlt)),
            hrest (fun hb => String.lt_irrefl _ (String.lt_trans hlt hb))] at this
          cases this
        · exact heq
        · have := h key'
          rw [get?_cons, get?_cons, if_pos rfl, if_neg (fun e => String.lt_irrefl _ (e ▸ hgt)),
            hrest (fun hb => String.lt_irrefl _ (String.lt_trans hgt hb))] at this
          cases this
      subst hkey
      have hval : value = value' := by
        have := h key
        rw [get?_cons, if_pos rfl, get?_cons, if_pos rfl] at this
        exact Option.some.inj this
      subst hval
      have : rest = rest' := ih fun k => by
        by_cases hk : k = key
        · rw [hk, hrest (String.lt_irrefl _), hrest (String.lt_irrefl _)]
        · have := h k
          rwa [get?_cons, if_neg hk, get?_cons, if_neg hk] at this
      rw [this]

theorem ext_get?_iff {m n : Entries α lo} : m = n ↔ ∀ k, m.get? k = n.get? k :=
  ⟨fun h _ => h ▸ rfl, ext_get?⟩

/-! ## Lists of pairs

Dictionaries that are made from pairs, by storing one after the other (`ofList`) or by collecting the values of
each key (`group`). -/

/-- Pairs that are stored one after the other hide what was there before, and later pairs hide earlier ones.
Induction on the pairs, with the dictionary they are stored in left open. -/
theorem get?_foldl_insert (pairs : List (String × α)) (m : Dict α) (k : String) :
    (pairs.foldl (fun m p => m.insert p.1 p.2) m).get? k
      = (pairs.reverse.lookup k).or (m.get? k) := by
  induction pairs generalizing m with
  | nil => rfl
  | cons p rest ih =>
    rw [List.foldl_cons, ih, List.reverse_cons, List.lookup_append, get?_insert]
    cases rest.reverse.lookup k with
    | some v => rfl
    | none =>
      obtain ⟨key, value⟩ := p
      by_cases hk : k = key
      · simp [hk]
      · have : (k == key) = false := by simpa using hk
        simp [hk, this, List.lookup_cons]

/-- The dictionary of a list of pairs answers as the list does when it is read from its end. -/
theorem get?_ofList (pairs : List (String × α)) (k : String) :
    (ofList pairs).get? k = pairs.reverse.lookup k := by
  rw [ofList, get?_foldl_insert]; simp

/-- What the dictionary of a list holds stands in the list. -/
theorem mem_of_get?_ofList {pairs : List (String × α)} {k : String} {v : α}
    (h : (ofList pairs).get? k = some v) : (k, v) ∈ pairs := by
  rw [get?_ofList, List.lookup_eq_some_iff] at h
  obtain ⟨front, rest, h, -⟩ := h
  rw [← List.mem_reverse, h]
  exact List.mem_append_right _ List.mem_cons_self

/-- If pairs with one key are the same, the dictionary holds just the pairs. -/
theorem get?_ofList_eq_some_iff {pairs : List (String × α)}
    (hsingle : ∀ p ∈ pairs, ∀ q ∈ pairs, p.1 = q.1 → p = q) {k : String} {v : α} :
    (ofList pairs).get? k = some v ↔ (k, v) ∈ pairs := by
  refine ⟨mem_of_get?_ofList, fun hmem => ?_⟩
  cases hget : (ofList pairs).get? k with
  | none =>
    rw [get?_ofList, List.lookup_eq_none_iff] at hget
    exact absurd (hget (k, v) (List.mem_reverse.mpr hmem)) (by simp)
  | some w =>
    have := hsingle _ (mem_of_get?_ofList hget) _ hmem rfl
    rw [(Prod.mk.inj this).2]

/-- The values of all pairs with this key, in their order. -/
def valuesOf (k : String) (pairs : List (String × α)) : List α :=
  (pairs.filter (fun p => p.1 == k)).map Prod.snd

@[simp] theorem valuesOf_nil (k : String) : valuesOf k ([] : List (String × α)) = [] := rfl

theorem valuesOf_cons_self (k : String) (v : α) (rest : List (String × α)) :
    valuesOf k ((k, v) :: rest) = v :: valuesOf k rest := by
  simp [valuesOf]

theorem valuesOf_cons_ne {k key : String} (h : ¬ k = key) (v : α) (rest : List (String × α)) :
    valuesOf k ((key, v) :: rest) = valuesOf k rest := by
  have hne : ¬ key = k := fun e => h e.symm
  simp [valuesOf, hne]

/-- Grouping on top of a dictionary appends the values of a key to those that it has already. Induction on the
pairs, with the dictionary left open. -/
theorem get?_foldl_group (pairs : List (String × α)) (m : Dict (List α)) (k : String) :
    (pairs.foldl (fun m p => m.insert p.1 ((m.get? p.1).getD [] ++ [p.2])) m).get? k
      = if valuesOf k pairs = [] then m.get? k
        else some ((m.get? k).getD [] ++ valuesOf k pairs) := by
  induction pairs generalizing m with
  | nil => simp
  | cons p rest ih =>
    obtain ⟨key, value⟩ := p
    rw [List.foldl_cons, ih, get?_insert]
    by_cases hk : k = key
    · subst hk
      rw [valuesOf_cons_self]
      by_cases hrest : valuesOf k rest = [] <;> simp [hrest]
    · rw [valuesOf_cons_ne hk, if_neg hk]

/-- **Grouping loses nothing.** A key of the grouped dictionary holds the values of all its pairs, in
their order, and a key without pairs is absent. -/
theorem get?_group (pairs : List (String × α)) (k : String) :
    (group pairs).get? k = if valuesOf k pairs = [] then none else some (valuesOf k pairs) := by
  rw [group, get?_foldl_group]; simp

end Entries

end ScriptHost
