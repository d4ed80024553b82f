import Mathlib.Data.List.TakeWhile
import ScriptHost.Http.Message
import ScriptHost.Proofs.Text.Decoding

/-!
# Parameters of a query

The parameters of a raw query are grouped by name, one at a time. Each step puts one value behind those that its
name has already, so the groups together keep count (`total_insertAbove`, `total_group`). An ampersand between two
queries only ends a piece, so the pieces of the whole are those of the two (`splitAll_append`).

What the bytes of a piece stand for is a relation of its own (`Spells`), with one case for each way of spelling a
byte; decoding is the function that it is (`spells_iff`).

* **`decodeText_of_spells`**, **`pair_append`**: a parameter is read as the texts that are spelled before and behind
  its first equals sign.
* **`parameters_grouped`**: every name of a query has the list of its values, no value is lost, and joining
  queries joins the lists.
-/

namespace ScriptHost

namespace Entries

variable {α : Type} {lo : Option String}

/-- How many items the lists of a dictionary hold together. -/
def total (m : Entries (List α) lo) : Nat := (m.toList.flatMap Prod.snd).length

/-- The first entry counts with its list, and the others count by themselves. -/
theorem total_cons (key : String) (above : Above lo key) (items : List α) (rest : Entries (List α) (some key)) :
    (Entries.cons key above items rest).total = items.length + rest.total := by
  simp [total, toList]

/-- The items that were stored at the key make room for the new ones. -/
theorem total_insertAbove (m : Entries (List α) lo) (k : String) (items : List α) (h : Above lo k) :
    (m.insertAbove k items h).total + ((m.get? k).getD []).length = m.total + items.length := by
  induction m with
  | nil => simp [insertAbove, total, toList]
  | cons key above value rest ih =>
    -- the new key comes before the first entry, behind it, or is the same
    unfold insertAbove
    split
    · next hbelow =>
      have hk : ¬ k = key := fun e => String.lt_irrefl k (by rwa [← e] at hbelow)
      -- the keys that follow lie above the first, so the new one is not among them
      have hnone : rest.get? k = none :=
        get?_eq_none_of_not_above fun hb => String.lt_irrefl k (String.lt_trans hbelow hb)
      rw [get?_cons, if_neg hk, hnone, total_cons, total_cons, total_cons, Option.getD_none, List.length_nil]
      omega
    split
    · next hbeyond =>
      have hk : ¬ k = key := fun e => String.lt_irrefl k (by rwa [← e] at hbeyond)
      have hrest := ih hbeyond
      rw [get?_cons, if_neg hk, total_cons, total_cons]
      omega
    · next hbelow hbeyond =>
      have hk : k = key := String.le_antisymm (String.not_lt.1 hbeyond) (String.not_lt.1 hbelow)
      rw [get?_cons, if_pos hk, total_cons, total_cons, Option.getD_some]
      omega

/-- **Grouping keeps count.** -/
theorem total_group (pairs : List (String × α)) : (group pairs).total = pairs.length := by
  -- for any start, since the fold goes on from what it has grouped
  have hfold : ∀ m : Dict (List α),
      (pairs.foldl (fun m p => m.insert p.1 ((m.get? p.1).getD [] ++ [p.2])) m).total
        = m.total + pairs.length := by
    induction pairs with
    | nil => exact fun _ => rfl
    | cons p rest ih =>
      intro m
      have hstep := total_insertAbove m p.1 ((m.get? p.1).getD [] ++ [p.2]) trivial
      rw [List.length_append, List.length_singleton] at hstep
      rw [List.foldl_cons, ih, List.length_cons, insert]
      omega
  exact (hfold .nil).trans (Nat.zero_add _)

theorem valuesOf_append (k : String) (front rest : List (String × α)) :
    valuesOf k (front ++ rest) = valuesOf k front ++ valuesOf k rest := by
  rw [valuesOf, List.filter_append, List.map_append]
  rfl

theorem valuesOf_ne_nil_iff {k : String} {pairs : List (String × α)} :
    valuesOf k pairs ≠ [] ↔ ∃ p ∈ pairs, p.1 = k := by
  simp [valuesOf]

end Entries

namespace Http.Query

/-! ## Pieces

A separator only ever ends a piece, so cutting can be done on both sides of it apart. -/

/-- A separator ends the piece before it, and what follows is cut up by itself. -/
theorem splitAll_append (separator : UInt8) (front rest : List UInt8) :
    splitAll separator (front ++ separator :: rest)
      = splitAll separator front ++ splitAll separator rest := by
  induction front with
  | nil => simp [splitAll]
  | cons b front ih =>
    rw [List.cons_append, splitAll, splitAll, ih]
    split
    · rfl
    · cases h : splitAll separator front with
      -- the byte joins the first piece, and there always is one
      | nil => exact absurd h (splitAll_ne_nil _ _)
      | cons piece pieces => rfl

/-- The parameters of two queries that an ampersand joins. A piece that ends at it may be empty, and is then no
parameter on either side. -/
theorem pairs_append (front rest : List UInt8) :
    pairs (front ++ 0x26 :: rest) = pairs front ++ pairs rest := by
  rw [pairs, pieces, splitAll_append, List.filter_append, List.map_append]
  rfl

/-! ## Spelling

Decoding goes through bytes twice, for plus signs and for escapes. The relation takes them in one pass, byte by
byte. -/

/-- The bytes of a parameter and the bytes that they stand for. A plus sign stands for a blank. Two digits
behind a percent sign stand for a byte, and without them the percent sign stands for itself, as any other byte
does. -/
inductive Spells : List UInt8 → List UInt8 → Prop
  | nil : Spells [] []
  | plus {written meant : List UInt8} : Spells written meant → Spells (0x2B :: written) (0x20 :: meant)
  | escape {a c : UInt8} {high low : Nat} {written meant : List UInt8} :
      Hex.byteValue? a = some high → Hex.byteValue? c = some low → Spells written meant →
        Spells (0x25 :: a :: c :: written) (UInt8.ofNat (high * 16 + low) :: meant)
  | percent {written meant : List UInt8} :
      (∀ a c rest, written = a :: c :: rest → Hex.byteValue? a = none ∨ Hex.byteValue? c = none) →
        Spells written meant → Spells (0x25 :: written) (0x25 :: meant)
  | plain {b : UInt8} {written meant : List UInt8} :
      b ≠ 0x2B → b ≠ 0x25 → Spells written meant → Spells (b :: written) (b :: meant)

/-- A plus sign is no digit, and neither is a blank. -/
theorem byteValue?_blankForPlus (b : UInt8) : Hex.byteValue? (blankForPlus b) = Hex.byteValue? b := by
  unfold blankForPlus
  split
  · next h =>
    rw [h]
    decide
  · rfl

/-- A digit is no plus sign. -/
theorem blankForPlus_of_byteValue? {b : UInt8} {n : Nat} (h : Hex.byteValue? b = some n) : blankForPlus b = b := by
  have hplus : Hex.byteValue? 0x2B = none := by decide
  refine if_neg ?_
  rintro rfl
  rw [hplus] at h
  cases h

theorem blankForPlus_percentSign : blankForPlus 0x25 = 0x25 := rfl

/-- Decoding gives what is spelled. One case for each way of spelling a byte; plus signs are replaced first,
which leaves the digits of escapes alone and makes no new ones. -/
theorem Spells.decode_eq {written meant : List UInt8} (h : Spells written meant) :
    Percent.decode (written.map blankForPlus) = meant := by
  induction h with
  | nil => rfl
  | plus _ ih =>
    rw [List.map_cons, Percent.decode_cons (by decide), ih]
    rfl
  | escape ha hc _ ih =>
    rw [List.map_cons, List.map_cons, List.map_cons, blankForPlus_percentSign,
      blankForPlus_of_byteValue? ha, blankForPlus_of_byteValue? hc, Percent.decode_escape ha hc, ih]
  | percent hnone _ ih =>
    rw [List.map_cons, blankForPlus_percentSign, Percent.decode_percent, ih]
    -- what is a digit there was one when it was written, since no plus sign becomes a digit
    intro a c tail htail
    obtain ⟨a', _, rfl, rfl, hrest⟩ := List.map_eq_cons_iff.mp htail
    obtain ⟨c', rest, rfl, rfl, -⟩ := List.map_eq_cons_iff.mp hrest
    rw [byteValue?_blankForPlus, byteValue?_blankForPlus]
    exact hnone a' c' rest rfl
  | plain hplus hpercent _ ih =>
    have hsame : blankForPlus _ = _ := if_neg hplus
    rw [List.map_cons, hsame, Percent.decode_cons hpercent, ih]

/-- Behind a percent sign there are two digits, or there are not. -/
theorem escape_or_percent (rest : List UInt8) :
    (∃ a c tail high low, rest = a :: c :: tail ∧ Hex.byteValue? a = some high ∧
      Hex.byteValue? c = some low) ∨
    ∀ a c tail, rest = a :: c :: tail → Hex.byteValue? a = none ∨ Hex.byteValue? c = none := by
  match rest with
  | [] | [_] => exact .inr nofun
  | a :: c :: tail =>
    cases ha : Hex.byteValue? a with
    | none =>
      refine .inr ?_
      rintro _ _ _ ⟨⟩
      exact .inl ha
    | some high =>
      cases hc : Hex.byteValue? c with
      | none =>
        refine .inr ?_
        rintro _ _ _ ⟨⟩
        exact .inr hc
      | some low => exact .inl ⟨a, c, tail, high, low, rfl, ha, hc⟩

/-- All bytes spell something. An escape takes three bytes at once, so the recursion is on the length. -/
theorem exists_spells : (written : List UInt8) → ∃ meant, Spells written meant
  | [] => ⟨[], .nil⟩
  | b :: rest => by
    obtain ⟨meant, hmeant⟩ := exists_spells rest
    by_cases hplus : b = 0x2B
    · exact hplus ▸ ⟨_, .plus hmeant⟩
    by_cases hpercent : b = 0x25
    · obtain ⟨a, c, tail, high, low, rfl, ha, hc⟩ | hnone := escape_or_percent rest
      · obtain ⟨after, hafter⟩ := exists_spells tail
        exact hpercent ▸ ⟨_, .escape ha hc hafter⟩
      · exact hpercent ▸ ⟨_, .percent hnone hmeant⟩
    · exact ⟨_, .plain hplus hpercent hmeant⟩
termination_by written => written.length

/-- **What bytes spell is what they are decoded to.** The relation has a meaning for all bytes, and no bytes
have two. -/
theorem spells_iff {written meant : List UInt8} :
    Spells written meant ↔ Percent.decode (written.map blankForPlus) = meant := by
  refine ⟨Spells.decode_eq, ?_⟩
  rintro rfl
  obtain ⟨meant, hmeant⟩ := exists_spells written
  exact hmeant.decode_eq ▸ hmeant

/-- **The text of a parameter is the text whose UTF-8 is spelled.** -/
theorem decodeText_of_spells {written : List UInt8} {s : String} (h : Spells written (Utf8.ofString s)) :
    decodeText written = s := by
  rw [decodeText, h.decode_eq, Utf8.decodeLossy_ofString]

/-- The test by which a name is cut off, for a name without an equals sign. -/
theorem all_ne_equals {name : List UInt8} (hname : 0x3D ∉ name) : ∀ b ∈ name, (b != 0x3D) = true :=
  fun _ hb => bne_iff_ne.mpr fun heq => hname (heq ▸ hb)

/-- **A parameter is cut at its first equals sign**; later ones belong to the value. -/
theorem pair_append {name : List UInt8} (hname : 0x3D ∉ name) (value : List UInt8) :
    pair (name ++ 0x3D :: value) = (decodeText name, decodeText value) := by
  -- the name goes as far as there is no equals sign, which is all of it
  have hall := all_ne_equals hname
  rw [pair, List.takeWhile_append_of_pos hall, List.dropWhile_append_of_pos hall]
  simp

/-- A piece without an equals sign is a name with an empty value. -/
theorem pair_of_no_equals {name : List UInt8} (hname : 0x3D ∉ name) : pair name = (decodeText name, "") := by
  have hall := all_ne_equals hname
  have hempty : decodeText [] = "" := by decide
  have htake : name.takeWhile (· != 0x3D) = name := List.takeWhile_eq_self_iff.mpr hall
  have hdrop : name.dropWhile (· != 0x3D) = [] := List.dropWhile_eq_nil_iff.mpr hall
  rw [pair, htake, hdrop, List.drop_nil, hempty]

/-! ## Parameters as data

The data that a query becomes, read through look-ups and counts only. -/

/-- The elements of a list; other values have none. -/
def elements : Value → List Value
  | .list items => items
  | _ => []

/-- The elements that data hold at a name, none if the name is missing. -/
def elementsAt (data : DataMap) (name : String) : List Value :=
  match data.get? name with
  | some v => elements v
  | none => []

/-- How many elements data hold at all names together. -/
def elementCount (data : DataMap) : Nat := (data.toList.flatMap fun entry => elements entry.2).length

/-- What data hold at a name, in terms of the parameters: nothing if there is none with that name, and the list
of its values otherwise. -/
theorem get?_toData (raw : List UInt8) (name : String) :
    (toData raw).get? name
      = if Entries.valuesOf name (pairs raw) = [] then none
        else some (.list ((Entries.valuesOf name (pairs raw)).map .string)) := by
  rw [toData, Header.listsOfText, Entries.get?_map, grouped, Entries.get?_group]
  split <;> rfl

/-- The elements at a name are the values of its parameters, also if there are none. -/
theorem elementsAt_toData (raw : List UInt8) (name : String) :
    elementsAt (toData raw) name = (Entries.valuesOf name (pairs raw)).map .string := by
  by_cases hvalues : Entries.valuesOf name (pairs raw) = []
  · rw [elementsAt, get?_toData, if_pos hvalues, hvalues]
    rfl
  · rw [elementsAt, get?_toData, if_neg hvalues]
    rfl

/-- Every piece that is not empty gives one element. -/
theorem elementCount_toData (raw : List UInt8) : elementCount (toData raw) = (pieces raw).length := by
  rw [elementCount, toData, Header.listsOfText, Entries.toList_map, List.flatMap_map]
  -- the count of all elements is the count that grouping keeps
  calc ((grouped raw).toList.flatMap fun entry => entry.2.map Value.string).length
      = (grouped raw).total := by simp [Entries.total, List.length_flatMap]
    _ = (pieces raw).length := by rw [grouped, Entries.total_group, pairs, List.length_map]

/-- `get?_toData` as an equivalence, which says of a missing name that no parameter has it. -/
theorem get?_toData_eq_some_iff {raw : List UInt8} {name : String} {v : Value} :
    (toData raw).get? name = some v ↔
      (∃ p ∈ pairs raw, p.1 = name) ∧ v = .list ((Entries.valuesOf name (pairs raw)).map .string) := by
  rw [get?_toData]
  split
  · next hnil => exact ⟨nofun, fun ⟨hname, _⟩ => absurd hnil (Entries.valuesOf_ne_nil_iff.mpr hname)⟩
  · next hvalues =>
    rw [Option.some.injEq, eq_comm]
    exact ⟨fun hv => ⟨Entries.valuesOf_ne_nil_iff.mp hvalues, hv⟩, And.right⟩

/-- The elements of joined queries at a name, those of the front first. -/
theorem elementsAt_append (front rest : List UInt8) (name : String) :
    elementsAt (toData (front ++ 0x26 :: rest)) name
      = elementsAt (toData front) name ++ elementsAt (toData rest) name := by
  rw [elementsAt_toData, elementsAt_toData, elementsAt_toData, pairs_append, Entries.valuesOf_append,
    List.map_append]

end Http.Query

open Http Query

/-- **Parameters are grouped without loss.** A name has the list of its values in their order, there are as many
values as non-empty pieces, and the parameters of two joined queries are those of the one and then of the other. -/
theorem parameters_grouped :
    (∀ raw name v, (toData raw).get? name = some v ↔
      (∃ p ∈ pairs raw, p.1 = name) ∧ v = .list ((Entries.valuesOf name (pairs raw)).map .string)) ∧
    (∀ raw, elementCount (toData raw) = (pieces raw).length) ∧
    ∀ front rest name,
      elementsAt (toData (front ++ 0x26 :: rest)) name
        = elementsAt (toData front) name ++ elementsAt (toData rest) name :=
  ⟨fun _ _ _ => get?_toData_eq_some_iff, elementCount_toData, elementsAt_append⟩

/-- Names count as they are decoded, and an empty piece is no parameter. -/
example : pairs (Utf8.ofString "a+b=1&&%61%20b") = [("a b", "1"), ("a b", "")] := by cbv

end ScriptHost
