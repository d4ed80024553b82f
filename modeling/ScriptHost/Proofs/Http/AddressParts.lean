import Mathlib.Data.List.TakeWhile
import ScriptHost.Http.Uri
import ScriptHost.Proofs.Text.LetterCase

/-!
# Parts of an address

Each part of an address is cut off where the next one begins. A part whose characters all belong to it is cut
off unchanged if what follows does not (`takeWhile_append_of_stops`, `dropWhile_append_of_stops`), so a part that
has been read once is read again from the same place.

For every part there is a predicate for those that are read as they stand (`SchemeSettled`, `AuthoritySettled`,
`PathSettled`), with two lemmas: whatever is read is settled (`splitScheme_cases`, `of_splitAuthority`,
`settled_of_pathAndQuery`), and what is settled is read as it stands (`splitScheme_of_settled`,
`splitAuthority_of_settled`, `pathAndQuery_of_settled`).
-/

namespace ScriptHost.Http.Uri

/-! ## Parts and the separators behind them

Cutting a part off and putting it back in front are inverse to each other, as long as the place of the cut can
be seen from the characters around it. -/

section Parts

variable {α : Type} {p : α → Bool} {part rest : List α}

/-- A part whose characters have the property ends here: what follows begins with none that has it. -/
def Stops (p : α → Bool) (rest : List α) : Prop := ∀ x ∈ rest.head?, p x = false

/-- A part is cut off at the place where it was put together. -/
theorem takeWhile_append_of_stops (hpart : part.all p = true) (hrest : Stops p rest) :
    (part ++ rest).takeWhile p = part := by
  rw [List.takeWhile_append_of_pos (List.all_eq_true.mp hpart)]
  cases rest with
  | nil => exact List.append_nil part
  | cons x rest => simp [hrest x rfl]

/-- What is left behind a part is what was put behind it. -/
theorem dropWhile_append_of_stops (hpart : part.all p = true) (hrest : Stops p rest) :
    (part ++ rest).dropWhile p = rest := by
  rw [List.dropWhile_append_of_pos (List.all_eq_true.mp hpart)]
  cases rest with
  | nil => rfl
  | cons x rest => simp [hrest x rfl]

/-- Where cutting has stopped the part ends. -/
theorem stops_dropWhile (p : α → Bool) (text : List α) : Stops p (text.dropWhile p) := by
  intro x hx
  have := List.head?_dropWhile_not p text
  rw [Option.mem_def.mp hx] at this
  simpa using this

end Parts

/-! ## The scheme

Two schemes are read in any case of their letters and kept in lower case, so they are settled only in lower
case. Any other scheme is kept as it is. -/

/-- A word with `://` behind it stands in front exactly if the scheme is that word in some case. Neither holds a
colon, so the two colons must meet; induction on the word. -/
theorem afterIgnoringCase?_append {word scheme : List Char} (rest : List Char)
    (hword : ':' ∉ word) (hscheme : ':' ∉ scheme) :
    afterIgnoringCase? (word ++ "://".toList) (scheme ++ "://".toList ++ rest)
      = if scheme.map Char.toLower = word then some rest else none := by
  have hcolon {c : Char} : c.toLower = ':' ↔ c = ':' := toLower_eq_iff ⟨rfl, rfl⟩
  induction word generalizing scheme with
  | nil =>
    cases scheme with
    | nil => rfl
    | cons c scheme =>
      rw [if_neg (by simp)]
      -- a colon against a character of the scheme
      exact if_neg fun h => hscheme (hcolon.mp h ▸ List.mem_cons_self)
  | cons e word ih =>
    cases scheme with
    | nil =>
      rw [if_neg (by simp)]
      -- a character of the word against a colon
      exact if_neg fun h => hword ((hcolon.mpr rfl).symm.trans h ▸ List.mem_cons_self)
    | cons c scheme =>
      have hrest : ':' ∉ scheme := fun h => hscheme (List.mem_cons_of_mem _ h)
      have hbehind := ih (fun h => hword (List.mem_cons_of_mem _ h)) hrest
      rw [List.map_cons, List.cons_append, List.cons_append, List.cons_append, afterIgnoringCase?]
      by_cases hc : c.toLower = e
      · rw [if_pos hc, hbehind]
        simp [hc]
      · rw [if_neg hc, if_neg (by simp [hc])]

/-- A scheme that is read as it stands. -/
structure SchemeSettled (scheme : List Char) : Prop where
  chars : scheme.all isSchemeChar = true
  length : scheme.length ≤ maxScheme
  http : scheme.map Char.toLower = "http".toList → scheme = "http".toList
  https : scheme.map Char.toLower = "https".toList → scheme = "https".toList

theorem colon_not_mem {scheme : List Char} (h : scheme.all isSchemeChar = true) : ':' ∉ scheme :=
  fun hmem => absurd (List.all_eq_true.mp h _ hmem) (by decide)

/-- A scheme is cut off in front of its separator. -/
theorem takeWhile_scheme {scheme : List Char} (h : scheme.all isSchemeChar = true) (rest : List Char) :
    (scheme ++ "://".toList ++ rest).takeWhile isSchemeChar = scheme ∧
      (scheme ++ "://".toList ++ rest).dropWhile isSchemeChar = ':' :: '/' :: '/' :: rest := by
  have hstops : Stops isSchemeChar ("://".toList ++ rest) := by
    rintro x ⟨⟩
    decide
  rw [List.append_assoc]
  exact ⟨takeWhile_append_of_stops h hstops, dropWhile_append_of_stops h hstops⟩

/-- What is read of a scheme in front of a separator: the two words in any case, or the scheme as it stands if
it is not too long. Something must follow, since three characters alone are not taken for a separator. -/
theorem splitScheme_append {scheme rest : List Char} (h : scheme.all isSchemeChar = true)
    (hrest : rest ≠ []) :
    splitScheme (scheme ++ "://".toList ++ rest)
      = if scheme.map Char.toLower = "http".toList then .ok (some "http".toList, rest)
        else if scheme.map Char.toLower = "https".toList then .ok (some "https".toList, rest)
        else if scheme.length ≤ maxScheme then .ok (some scheme, rest)
        else .error .schemeTooLong := by
  have hcolon := colon_not_mem h
  obtain ⟨htake, hdrop⟩ := takeWhile_scheme h rest
  have hlength : ¬ (scheme ++ "://".toList ++ rest).length ≤ 3 := by
    have := List.length_pos_iff.mpr hrest
    simp only [List.length_append, show "://".toList.length = 3 from rfl]
    omega
  -- the two words are tried first, each with its separator
  rw [splitScheme, show "http://".toList = "http".toList ++ "://".toList from rfl,
    show "https://".toList = "https".toList ++ "://".toList from rfl,
    afterIgnoringCase?_append rest (by decide) hcolon, afterIgnoringCase?_append rest (by decide) hcolon]
  by_cases hhttp : scheme.map Char.toLower = "http".toList
  · rw [if_pos hhttp, if_pos hhttp]
  rw [if_neg hhttp, if_neg hhttp]
  by_cases hhttps : scheme.map Char.toLower = "https".toList
  · rw [if_pos hhttps, if_pos hhttps]
  rw [if_neg hhttps, if_neg hhttps, hdrop, htake]
  simp only [if_neg hlength]

/-- A settled scheme is read as it stands. -/
theorem splitScheme_of_settled {scheme rest : List Char} (h : SchemeSettled scheme) (hrest : rest ≠ []) :
    splitScheme (scheme ++ "://".toList ++ rest) = .ok (some scheme, rest) := by
  rw [splitScheme_append h.chars hrest]
  split
  · next hhttp => rw [h.http hhttp]
  split
  · next hhttps => rw [h.https hhttps]
  · rw [if_pos h.length]

/-- A scheme that is not spelled as the word in some case. -/
theorem map_toLower_ne {word scheme rest : List Char} (hword : ':' ∉ word) (hscheme : ':' ∉ scheme)
    (h : afterIgnoringCase? (word ++ "://".toList) (scheme ++ "://".toList ++ rest) = none) :
    scheme.map Char.toLower ≠ word := by
  intro hlower
  rw [afterIgnoringCase?_append rest hword hscheme, if_pos hlower] at h
  cases h

/-- What stands in front is a settled scheme, or there is none and the text is left as it was. -/
theorem splitScheme_cases {text rest : List Char} {scheme? : Option (List Char)}
    (h : splitScheme text = .ok (scheme?, rest)) :
    scheme? = none ∧ rest = text ∨ ∃ scheme, scheme? = some scheme ∧ SchemeSettled scheme := by
  rw [splitScheme] at h
  split at h
  · cases h
    exact .inr ⟨_, rfl, by decide, by decide, fun _ => rfl, by decide⟩
  next hhttp =>
  split at h
  · cases h
    exact .inr ⟨_, rfl, by decide, by decide, by decide, fun _ => rfl⟩
  next hhttps =>
  split at h
  next following hdrop =>
    -- neither word stands in front, so the scheme is none of the two in any case
    have hchars : (text.takeWhile isSchemeChar).all isSchemeChar = true := List.all_takeWhile
    have htext : text = text.takeWhile isSchemeChar ++ "://".toList ++ following := by
      rw [List.append_assoc]
      exact (hdrop ▸ List.takeWhile_append_dropWhile).symm
    rw [htext] at hhttp hhttps
    simp only at h
    split at h
    · cases h
      exact .inl ⟨rfl, rfl⟩
    split at h
    · next hlength =>
      cases h
      have hcolon := colon_not_mem hchars
      exact .inr ⟨_, rfl, hchars, hlength,
        fun hlower => absurd hlower (map_toLower_ne (by decide) hcolon hhttp),
        fun hlower => absurd hlower (map_toLower_ne (by decide) hcolon hhttps)⟩
    · cases h
  · cases h
    exact .inl ⟨rfl, rfl⟩

/-! ## The authority

An authority is kept as it is. It ends where a path, a query or a fragment begins. -/

/-- An authority that is read as it stands. -/
structure AuthoritySettled (authority : List Char) : Prop where
  chars : authority.all (fun c => !endsAuthority c) = true
  checked : checkAuthority authority = .ok ()

/-- A settled authority is read as it stands. -/
theorem splitAuthority_of_settled {authority rest : List Char} (h : AuthoritySettled authority)
    (hne : authority ≠ []) (hrest : Stops (fun c => !endsAuthority c) rest) :
    splitAuthority (authority ++ rest) = .ok (authority, rest) := by
  rw [splitAuthority, if_neg (by simp [hne])]
  simp only [takeWhile_append_of_stops h.chars hrest, dropWhile_append_of_stops h.chars hrest, h.checked]

/-- Whatever authority has been read is settled, and nothing of the text is lost. -/
theorem of_splitAuthority {text authority rest : List Char}
    (h : splitAuthority text = .ok (authority, rest)) :
    authority ++ rest = text ∧ AuthoritySettled authority ∧ Stops (fun c => !endsAuthority c) rest := by
  rw [splitAuthority] at h
  split at h
  · cases h
  · simp only at h
    split at h
    · cases h
    · next hchecked =>
      cases h
      exact ⟨List.takeWhile_append_dropWhile, ⟨List.all_takeWhile, hchecked⟩, stops_dropWhile _ _⟩

/-! ## Path and query

The query ends the path, and a fragment, which is dropped, ends the query. Neither separator is a character of
what it ends. -/

/-- How a query is written behind a path. -/
def queryText : Option (List Char) → List Char
  | some query => '?' :: query
  | none => []

/-- A path and a query that are read as they stand, with whatever stands before them. -/
structure PathSettled (path : List Char) (query? : Option (List Char)) : Prop where
  rooted : path.head? = some '/'
  path : path.all isPathChar = true
  query : ∀ query ∈ query?, query.all isQueryChar = true

/-- A character of a path does not end it. -/
theorem not_endsPath_of_isPathChar {c : Char} (h : isPathChar c = true) : (!endsPath c) = true := by
  have hquestion : c ≠ '?' := by
    rintro rfl
    exact absurd h (by decide)
  have hhash : c ≠ '#' := by
    rintro rfl
    exact absurd h (by decide)
  simp [endsPath, hquestion, hhash]

theorem ne_hash_of_isQueryChar {c : Char} (h : isQueryChar c = true) : (c != '#') = true := by
  rw [bne_iff_ne]
  rintro rfl
  exact absurd h (by decide)

/-- A query that is written behind its question mark is read again, and so is the absence of one. -/
theorem splitQuery_queryText {query? : Option (List Char)}
    (h : ∀ query ∈ query?, query.all isQueryChar = true) : splitQuery (queryText query?) = .ok query? := by
  cases query? with
  | none => rfl
  | some query =>
    have hchars := List.all_eq_true.mp (h query rfl)
    have hself : query.takeWhile (· != '#') = query :=
      List.takeWhile_eq_self_iff.mpr fun c hc => ne_hash_of_isQueryChar (hchars c hc)
    simp only [queryText, splitQuery, hself, h query rfl, if_true]

theorem PathSettled.ne_nil {path : List Char} {query? : Option (List Char)} (h : PathSettled path query?) :
    path ≠ [] := by
  rintro rfl
  cases h.rooted

/-- The text of a rooted path begins with the root, whatever query it has. -/
theorem PathSettled.exists_text_eq {path : List Char} {query? : Option (List Char)}
    (h : PathSettled path query?) : ∃ rest, path ++ queryText query? = '/' :: rest := by
  obtain ⟨tail, rfl⟩ := List.head?_eq_some_iff.mp h.rooted
  exact ⟨tail ++ queryText query?, rfl⟩

/-- A settled path and its query are read as they stand. -/
theorem pathAndQuery_of_settled {path : List Char} {query? : Option (List Char)}
    (h : PathSettled path query?) : pathAndQuery (path ++ queryText query?) = .ok (path, query?) := by
  have hpath : path.all (fun c => !endsPath c) = true :=
    List.all_eq_true.mpr fun c hc => not_endsPath_of_isPathChar (List.all_eq_true.mp h.path c hc)
  -- a query is written with its question mark, which ends the path
  have hstops : Stops (fun c => !endsPath c) (queryText query?) := by
    cases query? with
    | none => nofun
    | some query =>
      rintro c ⟨⟩
      rfl
  simp only [pathAndQuery, takeWhile_append_of_stops hpath hstops,
    dropWhile_append_of_stops hpath hstops, h.path, if_true, splitQuery_queryText h.query, h.ne_nil, if_false]
  rfl

/-- A query that has been read passes the check of its characters. -/
theorem all_of_splitQuery {text : List Char} {query? : Option (List Char)}
    (h : splitQuery text = .ok query?) : ∀ query ∈ query?, query.all isQueryChar = true := by
  unfold splitQuery at h
  split at h
  · simp only at h
    split at h
    · next hall =>
      cases h
      rintro query ⟨⟩
      exact hall
    · cases h
  · cases h
    nofun

/-- What ends an authority and does not end the path begins a path. -/
theorem rooted_of_stops {text : List Char} (hstops : Stops (fun c => !endsAuthority c) text)
    (hne : (text.takeWhile fun c => !endsPath c) ≠ []) :
    (text.takeWhile fun c => !endsPath c).head? = some '/' := by
  cases text with
  | nil => exact absurd rfl hne
  | cons c rest =>
    have hauthority : endsAuthority c = true := by simpa using hstops c rfl
    have hpath : endsPath c = false := by
      cases hc : endsPath c with
      | false => rfl
      | true => exact absurd (List.takeWhile_cons_of_neg (by simp [hc])) hne
    -- of the three characters that end an authority two also end a path
    have hslash : c = '/' := by
      simp only [endsAuthority, endsPath, Bool.or_eq_true, Bool.or_eq_false_iff, beq_iff_eq,
        beq_eq_false_iff_ne] at hauthority hpath
      obtain (h | h) | h := hauthority
      · exact h
      · exact absurd h hpath.1
      · exact absurd h hpath.2
    rw [List.head?_takeWhile, hslash]
    rfl

/-- Whatever path and query have been read are settled. The path begins at the root, because an authority ends
there and nowhere else inside a path. -/
theorem settled_of_pathAndQuery {text path : List Char} {query? : Option (List Char)}
    (hstops : Stops (fun c => !endsAuthority c) text) (h : pathAndQuery text = .ok (path, query?)) :
    PathSettled path query? := by
  simp only [pathAndQuery] at h
  split at h
  · next hchars =>
    cases hquery : splitQuery (text.dropWhile fun c => !endsPath c) with
    | error fault =>
      rw [hquery] at h
      cases h
    | ok query? =>
      rw [hquery] at h
      cases h
      have hall := all_of_splitQuery hquery
      split
      · exact ⟨rfl, by decide, hall⟩
      · next hne => exact ⟨rooted_of_stops hstops hne, hchars, hall⟩
  · cases h

end ScriptHost.Http.Uri
