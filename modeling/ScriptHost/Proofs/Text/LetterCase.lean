import Mathlib

/-!
# Case of letters

The library knows how the two changes of case follow each other: the later one decides. So a character that
neither of them changes stands in a text in lower case exactly where it stands in the text itself
(`toLower_eq_iff`), which is all that headers and addresses need of it.
-/

namespace ScriptHost

/-! ## Characters

Digits and marks are caseless, and so is every character beyond ASCII, since only ASCII letters are changed
here. A separator is caseless too, so a change of case moves no cut. -/

/-- A character that has no other case. -/
def Caseless (c : Char) : Prop := c.toLower = c ∧ c.toUpper = c

/-- A character without another case is the lower case of no character but itself. -/
theorem toLower_eq_iff {c d : Char} (hd : Caseless d) : c.toLower = d ↔ c = d := by
  constructor
  · intro h
    by_cases hupper : c.isUpper = true
    · -- an upper-case letter can be had back, and its lower case is the caseless character
      have hsame : c.toUpper = c := Char.toUpper_eq_of_not_isLower (Char.not_isLower_of_isUpper hupper)
      calc c = c.toUpper := hsame.symm
        _ = c.toLower.toUpper := (Char.toUpper_toLower_eq_toUpper c).symm
        _ = d := by rw [h, hd.2]
    · rwa [Char.toLower_eq_of_not_isUpper hupper] at h
  · rintro rfl
    exact hd.1

theorem toLower_beq {d : Char} (hd : Caseless d) (c : Char) : (c.toLower == d) = (c == d) := by
  rw [Bool.eq_iff_iff, beq_iff_eq, beq_iff_eq, toLower_eq_iff hd]

/-! ## Texts

Nothing is added or dropped when the case changes, so two texts agree up to case exactly if their lists of
characters do. -/

theorem toList_toLower (s : String) : s.toLower.toList = s.toList.map Char.toLower := String.toList_map

theorem toLower_eq_toLower_iff {s t : String} :
    s.toLower = t.toLower ↔ s.toList.map Char.toLower = t.toList.map Char.toLower := by
  rw [← String.toList_inj, toList_toLower, toList_toLower]

/-- Lower case stays as it is, so a name that has been put in it is known by it. -/
theorem toLower_idem (s : String) : s.toLower.toLower = s.toLower := by
  rw [toLower_eq_toLower_iff, toList_toLower, List.map_map]
  simp

end ScriptHost
