import Mathlib.Algebra.Ring.Nat
import ScriptHost.Decimal.Digits

/-!
# Numbers of a fixed width

Of two texts with the same length in front, the fronts are compared first (`append_lt_append_iff`). Digits of one
length are in the order of their numbers, since all that follows a digit counts less than one of it
(`lt_iff_ofDigitChars_lt`). A padded number that fits its width has just that many digits, so texts that begin
with one are compared by the numbers first (`padded_append_lt_iff`), and a row of such numbers is compared from
number to number.

* **`readRow?_row`**: a row is read back.
* **`row_lt_iff`**: rows of the same columns are in the order of their lists of numbers.
-/

namespace ScriptHost.Decimal

open Nat (ofDigitChars)

/-! ## Order of texts

Texts are compared character by character. With fronts of one length the comparison reaches the ends of both
fronts at once. -/

/-- What follows counts only where the fronts are the same. -/
theorem append_lt_append_iff {a b x y : List Char} (h : a.length = b.length) :
    a ++ x < b ++ y ↔ a < b ∨ a = b ∧ x < y := by
  induction a generalizing b with
  | nil =>
    obtain rfl := List.length_eq_zero_iff.mp h.symm
    simp
  | cons c a ih =>
    cases b with
    | nil => exact nomatch h
    | cons d b =>
      have hlength : a.length = b.length := Nat.succ.inj h
      rw [List.cons_append, List.cons_append, List.cons_lt_cons_iff, List.cons_lt_cons_iff, ih hlength,
        List.cons.injEq]
      -- first characters, then the rest of the fronts, then what follows: only the grouping changes
      constructor
      · rintro (hlt | ⟨rfl, hlt | ⟨rfl, hlt⟩⟩)
        · exact .inl (.inl hlt)
        · exact .inl (.inr ⟨rfl, hlt⟩)
        · exact .inr ⟨⟨rfl, rfl⟩, hlt⟩
      · rintro ((hlt | ⟨rfl, hlt⟩) | ⟨⟨rfl, rfl⟩, hlt⟩)
        · exact .inl hlt
        · exact .inr ⟨rfl, .inl hlt⟩
        · exact .inr ⟨rfl, .inr ⟨rfl, hlt⟩⟩

/-! ## Digits

Comparing digits from the front is comparing numbers by their greatest unit. This needs that what follows a
digit stays below one unit of it (`ofDigitChars_lt`), and then it is arithmetic (`unit_lt_iff`). -/

/-- What a digit counts. -/
def digitValue (c : Char) : Nat := c.toNat - 48

/-- The ten digits stand one after the other in the code, the zero first. -/
theorem toNat_eq_add_digitValue {c : Char} (h : c.isDigit = true) :
    c.toNat = 48 + digitValue c ∧ digitValue c < 10 := by
  have hbounds : 48 ≤ c.toNat ∧ c.toNat ≤ 57 := Char.isDigit_iff_toNat.mp h
  unfold digitValue
  omega

/-- So they are in the order of what they count. -/
theorem lt_iff_digitValue_lt {c d : Char} (hc : c.isDigit = true) (hd : d.isDigit = true) :
    c < d ↔ digitValue c < digitValue d := by
  have hcnat := toNat_eq_add_digitValue hc
  have hdnat := toNat_eq_add_digitValue hd
  have hlt : c < d ↔ c.toNat < d.toNat := UInt32.lt_iff_toNat_lt
  rw [hlt]
  omega

/-- And no two of them count the same. -/
theorem eq_iff_digitValue_eq {c d : Char} (hc : c.isDigit = true) (hd : d.isDigit = true) :
    c = d ↔ digitValue c = digitValue d := by
  have hcnat := toNat_eq_add_digitValue hc
  have hdnat := toNat_eq_add_digitValue hd
  rw [← Char.toNat_inj]
  omega

/-- The first digit counts in the power of ten that belongs to its place. -/
theorem ofDigitChars_cons (c : Char) (ds : List Char) :
    ofDigitChars 10 (c :: ds) 0 = 10 ^ ds.length * digitValue c + ofDigitChars 10 ds 0 := by
  rw [Nat.ofDigitChars_cons, Nat.ofDigitChars_eq_ofDigitChars_zero, Nat.mul_zero, Nat.zero_add]
  rfl

/-- The digits after it never make up one of that power. -/
theorem ofDigitChars_lt {ds : List Char} (h : ∀ c ∈ ds, c.isDigit = true) :
    ofDigitChars 10 ds 0 < 10 ^ ds.length := by
  induction ds with
  | nil => decide
  | cons c ds ih =>
    have hc : digitValue c < 10 := (toNat_eq_add_digitValue (h c List.mem_cons_self)).2
    have hrest := ih fun d hd => h d (List.mem_cons_of_mem c hd)
    rw [ofDigitChars_cons, List.length_cons, Nat.pow_succ]
    calc 10 ^ ds.length * digitValue c + ofDigitChars 10 ds 0
        < 10 ^ ds.length * digitValue c + 10 ^ ds.length := Nat.add_lt_add_left hrest _
      _ = 10 ^ ds.length * (digitValue c + 1) := (Nat.mul_succ _ _).symm
      _ ≤ 10 ^ ds.length * 10 := Nat.mul_le_mul_left _ hc

/-- Numbers in units of `k` are compared by their units first. -/
theorem unit_lt_iff {k m n i j : Nat} (hi : i < k) (hj : j < k) :
    k * m + i < k * n + j ↔ m < n ∨ m = n ∧ i < j := by
  -- different numbers of units are a whole unit apart
  obtain hlt | rfl | hlt := Nat.lt_trichotomy m n
  · have hunits : k * (m + 1) ≤ k * n := Nat.mul_le_mul_left k hlt
    rw [Nat.mul_succ] at hunits
    omega
  · omega
  · have hunits : k * (n + 1) ≤ k * m := Nat.mul_le_mul_left k hlt
    rw [Nat.mul_succ] at hunits
    omega

/-- **Digits of one length are in the order of their numbers.** -/
theorem lt_iff_ofDigitChars_lt {a b : List Char} (ha : ∀ c ∈ a, c.isDigit = true)
    (hb : ∀ c ∈ b, c.isDigit = true) (hlength : a.length = b.length) :
    a < b ↔ ofDigitChars 10 a 0 < ofDigitChars 10 b 0 := by
  induction a generalizing b with
  | nil =>
    obtain rfl := List.length_eq_zero_iff.mp hlength.symm
    simp
  | cons c a ih =>
    cases b with
    | nil => exact nomatch hlength
    | cons d b =>
      have hlength : a.length = b.length := Nat.succ.inj hlength
      have hc := ha c List.mem_cons_self
      have hd := hb d List.mem_cons_self
      have ha' : ∀ e ∈ a, e.isDigit = true := fun e he => ha e (List.mem_cons_of_mem c he)
      have hb' : ∀ e ∈ b, e.isDigit = true := fun e he => hb e (List.mem_cons_of_mem d he)
      rw [List.cons_lt_cons_iff, ih ha' hb' hlength, lt_iff_digitValue_lt hc hd, eq_iff_digitValue_eq hc hd,
        ofDigitChars_cons, ofDigitChars_cons, hlength]
      exact (unit_lt_iff (hlength ▸ ofDigitChars_lt ha') (ofDigitChars_lt hb')).symm

/-! ## Padded numbers

Padding gives all numbers below a power of ten one length, which is what the order of digits asks for. The
character behind is the same in both texts, so it does not decide. -/

/-- Zeros in front are digits too. -/
theorem isDigit_of_mem_padded {width n : Nat} {c : Char} (h : c ∈ padded width n) : c.isDigit = true := by
  rw [padded, List.mem_append] at h
  obtain h | h := h
  · rw [List.eq_of_mem_replicate h]
    rfl
  · exact Nat.isDigit_of_mem_toDigits (by decide) (by decide) h

/-- A number that fits has the width exactly: it has no more digits, and the zeros make up for those that are
missing. -/
theorem length_padded {width n : Nat} (hwidth : 0 < width) (h : n < 10 ^ width) :
    (padded width n).length = width := by
  have hdigits : (digits n).length ≤ width := (Nat.length_toDigits_le_iff (by decide) hwidth).mpr h
  rw [padded, List.length_append, List.length_replicate]
  omega

@[simp] theorem ofDigitChars_padded (width n : Nat) : ofDigitChars 10 (padded width n) 0 = n := by
  rw [padded, Nat.ofDigitChars_append, Nat.ofDigitChars_replicate_zero, Nat.mul_zero, digits,
    Nat.ofDigitChars_ten_toDigits]

theorem padded_inj {width m n : Nat} : padded width m = padded width n ↔ m = n := by
  refine ⟨fun h => ?_, congrArg (padded width)⟩
  have := congrArg (ofDigitChars 10 · 0) h
  simpa using this

/-- **Padded numbers are compared as numbers.** -/
theorem padded_append_lt_iff {width m n : Nat} (hwidth : 0 < width) (hm : m < 10 ^ width)
    (hn : n < 10 ^ width) {c : Char} {x y : List Char} :
    padded width m ++ c :: x < padded width n ++ c :: y ↔ m < n ∨ m = n ∧ x < y := by
  -- the widths are the same, so the fronts end together
  have hlength : (padded width m).length = (padded width n).length := by
    rw [length_padded hwidth hm, length_padded hwidth hn]
  rw [append_lt_append_iff hlength, lt_iff_ofDigitChars_lt (fun _ => isDigit_of_mem_padded)
    (fun _ => isDigit_of_mem_padded) hlength, ofDigitChars_padded, ofDigitChars_padded, padded_inj,
    List.cons_lt_cons_iff]
  simp

/-! ## Rows

A date is a row of numbers, and so is the time of a day. Both facts are by induction on the columns. -/

/-- A number of so many digits, and the character behind it. -/
structure Column where
  width : Nat
  ending : Char

/-- Padded numbers one after the other, each with its ending. -/
def row : List Column → List Nat → List Char
  | column :: columns, n :: numbers => padded column.width n ++ column.ending :: row columns numbers
  | _, _ => []

/-- The numbers of a row; nothing if a digit or an ending is not in its place, or if there is more. -/
def readRow? : List Column → List Char → Option (List Nat)
  | [], [] => some []
  | [], _ :: _ => none
  | column :: columns, text =>
    let ds := text.take column.width
    match text.drop column.width with
    | [] => none
    | c :: rest =>
      if ds.all Char.isDigit ∧ c = column.ending then (readRow? columns rest).map (ofDigitChars 10 ds 0 :: ·)
      else none

/-- There is a number for each column, and the column has room for it. -/
inductive Fits : List Column → List Nat → Prop
  | nil : Fits [] []
  | cons {column : Column} {columns : List Column} {n : Nat} {numbers : List Nat} :
      0 < column.width → n < 10 ^ column.width → Fits columns numbers → Fits (column :: columns) (n :: numbers)

/-- A row has the widths of its columns, and an ending for each. -/
theorem length_row {columns : List Column} {numbers : List Nat} (h : Fits columns numbers) :
    (row columns numbers).length = (columns.map fun column => column.width + 1).sum := by
  induction h with
  | nil => rfl
  | cons hwidth hn _ ih =>
    rw [row, List.length_append, length_padded hwidth hn, List.length_cons, ih, List.map_cons, List.sum_cons]
    omega

/-- **A row is read back.** -/
theorem readRow?_row {columns : List Column} {numbers : List Nat} (h : Fits columns numbers) :
    readRow? columns (row columns numbers) = some numbers := by
  induction h with
  | nil => rfl
  | @cons column columns n numbers hwidth hn _ ih =>
    have hlength := length_padded hwidth hn
    have hdigits : (padded column.width n).all Char.isDigit = true :=
      List.all_eq_true.mpr fun _ => isDigit_of_mem_padded
    rw [row, readRow?]
    simp only [List.take_left' hlength, List.drop_left' hlength, hdigits, ih, and_self, if_true,
      ofDigitChars_padded, Option.map_some]

/-- **Rows are compared number by number.** -/
theorem row_lt_iff {columns : List Column} {numbers numbers' : List Nat} (h : Fits columns numbers)
    (h' : Fits columns numbers') : row columns numbers < row columns numbers' ↔ numbers < numbers' := by
  induction h generalizing numbers' with
  | nil =>
    cases h' with
    | nil => simp [row]
  | cons hwidth hn _ ih =>
    cases h' with
    | cons _ hn' hrest' => rw [row, row, padded_append_lt_iff hwidth hn hn', ih hrest', List.cons_lt_cons_iff]

end ScriptHost.Decimal
