import ScriptHost.Proofs.Http.AddressParts
import ScriptHost.Proofs.Http.Messages

/-!
# Addresses and their texts

Reading an address normalises it: `http` and `https` become lower case, an empty path becomes the root, and a
fragment is dropped. What is left is settled (`parse_cases`): its parts, written one after the other, are read
as they stand (`parse_of_settled`), and the form of the address, which the first characters choose, stays the
same. An authority alone is its own text.

* **`parse_text`**: an address is read back from its text, unless normalising made that too long.
* **`request_named_by_text`**: so the text of its address can stand for the address of a request.
-/

namespace ScriptHost

namespace Http.Uri

/-! ## Reading back

The form of an address is chosen by its first characters: a slash, a scheme with its separator, or neither.
Writing the parts of a settled address leads back to the same form. -/

/-- An address whose text is read as it stands. An authority alone is left out, since its text is all there is. -/
inductive Settled : Uri → Prop
  | star : Settled ⟨none, none, ['*'], none⟩
  | path {path : List Char} {query? : Option (List Char)} :
      PathSettled path query? → Settled ⟨none, none, path, query?⟩
  | full {scheme authority path : List Char} {query? : Option (List Char)} :
      SchemeSettled scheme → authority ≠ [] → AuthoritySettled authority → PathSettled path query? →
      Settled ⟨some scheme, some authority, path, query?⟩

/-- A text that begins with a slash is a path with a query. -/
theorem parse_path {rest : List Char} (h : byteCount ('/' :: rest) ≤ maxBytes) :
    parse ('/' :: rest) = do
      let (path, query?) ← pathAndQuery ('/' :: rest)
      return ⟨none, none, path, query?⟩ := by
  unfold parse
  rw [if_neg (Nat.not_lt.mpr h)]
  cases rest with
  | nil => rfl
  | cons c rest => rfl

/-- A longer text that begins with another character is an address that is no path. -/
theorem parse_full {c d : Char} {rest : List Char} (h : byteCount (c :: d :: rest) ≤ maxBytes)
    (hc : c ≠ '/') : parse (c :: d :: rest) = parseFull (c :: d :: rest) := by
  unfold parse
  rw [if_neg (Nat.not_lt.mpr h)]
  exact if_neg hc

theorem text_path (path : List Char) (query? : Option (List Char)) :
    text ⟨none, none, path, query?⟩ = path ++ queryText query? := by
  cases query? <;> simp [text, queryText]

theorem text_full (scheme authority path : List Char) (query? : Option (List Char)) :
    text ⟨some scheme, some authority, path, query?⟩
      = scheme ++ "://".toList ++ (authority ++ (path ++ queryText query?)) := by
  cases query? <;> simp [text, queryText]

/-- No scheme begins with a slash, so an address with a scheme is not taken for a path. -/
theorem exists_text_full_eq {scheme : List Char} (h : scheme.all isSchemeChar = true) (rest : List Char) :
    ∃ c d behind, scheme ++ "://".toList ++ rest = c :: d :: behind ∧ c ≠ '/' := by
  cases scheme with
  | nil => exact ⟨':', '/', _, rfl, by decide⟩
  | cons c scheme =>
    have hc : c ≠ '/' := by
      rintro rfl
      exact absurd (List.all_eq_true.mp h '/' List.mem_cons_self) (by decide)
    cases scheme with
    | nil => exact ⟨c, ':', _, rfl, hc⟩
    | cons d scheme => exact ⟨c, d, _, rfl, hc⟩

/-- With settled parts, an address with a scheme is read as it was put together. The authority ends at the root
of the path. -/
theorem parseFull_of_settled {scheme authority path : List Char} {query? : Option (List Char)}
    (hscheme : SchemeSettled scheme) (hne : authority ≠ []) (hauthority : AuthoritySettled authority)
    (hpath : PathSettled path query?) :
    parseFull (scheme ++ "://".toList ++ (authority ++ (path ++ queryText query?)))
      = .ok ⟨some scheme, some authority, path, query?⟩ := by
  -- the path begins with a slash, where the authority has to end
  have hstops : Stops (fun c => !endsAuthority c) (path ++ queryText query?) := by
    obtain ⟨rest, hrest⟩ := hpath.exists_text_eq
    rw [hrest]
    rintro c ⟨⟩
    rfl
  rw [parseFull, splitScheme_of_settled hscheme (by simp [hne])]
  simp only [bind, Except.bind]
  rw [splitAuthority_of_settled hauthority hne hstops]
  simp only [if_neg hne]
  rw [pathAndQuery_of_settled hpath]
  rfl

/-- **A settled address is read from its text.** Its first characters say which form it has, and each part is
read as it stands. -/
theorem parse_of_settled {u : Uri} (h : Settled u) (hfits : byteCount u.text ≤ maxBytes) :
    parse u.text = .ok u := by
  cases h with
  | star => rfl
  | path hpath =>
    rw [text_path] at hfits ⊢
    obtain ⟨rest, hrest⟩ := hpath.exists_text_eq
    rw [hrest] at hfits
    rw [hrest, parse_path hfits, ← hrest, pathAndQuery_of_settled hpath]
    rfl
  | full hscheme hne hauthority hpath =>
    rw [text_full] at hfits ⊢
    -- the first two characters are enough to rule out the other forms
    obtain ⟨c, d, behind, hshape, hc⟩ := exists_text_full_eq hscheme.chars _
    rw [hshape] at hfits
    rw [hshape, parse_full hfits hc, ← hshape, parseFull_of_settled hscheme hne hauthority hpath]

/-! ## What reading gives

One lemma for each of the readers, from the inside out. -/

/-- An address that is no path is an authority alone, or its parts are settled. -/
theorem parseFull_cases {text : List Char} {u : Uri} (h : parseFull text = .ok u) :
    u = ⟨none, some text, [], none⟩ ∨ Settled u := by
  obtain ⟨⟨scheme?, rest⟩, hscheme, hrest⟩ := bind_eq_ok_iff.mp h
  obtain ⟨⟨authority, behind⟩, hauthority, hbehind⟩ := bind_eq_ok_iff.mp hrest
  obtain ⟨hsplit, hsettled, hstops⟩ := of_splitAuthority hauthority
  obtain ⟨rfl, rfl⟩ | ⟨scheme, rfl, hschemeSettled⟩ := splitScheme_cases hscheme
  · simp only at hbehind
    split at hbehind
    · next hnil =>
      cases hbehind
      left
      rw [← hsplit, hnil, List.append_nil]
    · cases hbehind
  · simp only at hbehind
    split at hbehind
    · cases hbehind
    next hne =>
    obtain ⟨⟨path, query?⟩, hpath, hu⟩ := bind_eq_ok_iff.mp hbehind
    cases hu
    exact .inr (.full hschemeSettled hne hsettled (settled_of_pathAndQuery hstops hpath))

/-- A single character is the root, the star, or an authority alone. -/
theorem parseSingle_cases {c : Char} {u : Uri} (h : parseSingle c = .ok u) :
    u = ⟨none, some [c], [], none⟩ ∨ Settled u := by
  unfold parseSingle at h
  split at h
  · next hc =>
    cases h
    obtain rfl | rfl := hc
    · exact .inr (.path ⟨rfl, by decide, nofun⟩)
    · exact .inr .star
  · obtain ⟨⟨authority, rest⟩, hauthority, h⟩ := bind_eq_ok_iff.mp h
    obtain ⟨hsplit, -, -⟩ := of_splitAuthority hauthority
    simp only at h
    split at h
    · next hrest =>
      cases h
      left
      rw [← hsplit, hrest, List.append_nil]
    · cases h

/-- **What has been read is settled**, unless it is an authority alone, which is its own text. -/
theorem parse_cases {text : List Char} {u : Uri} (h : parse text = .ok u) :
    u = ⟨none, some text, [], none⟩ ∨ Settled u := by
  unfold parse at h
  split at h
  · cases h
  split at h
  · cases h
  · exact parseSingle_cases h
  · split at h
    · next hslash =>
      obtain ⟨⟨path, query?⟩, hpath, h⟩ := bind_eq_ok_iff.mp h
      cases h
      refine .inr (.path (settled_of_pathAndQuery ?_ hpath))
      rintro c ⟨⟩
      rw [hslash]
      rfl
    · exact parseFull_cases h

/-- **Reading back.** An address that has been read is read from its own text, unless that has grown too long. -/
theorem parse_text {written : List Char} {u : Uri} (h : parse written = .ok u)
    (hfits : byteCount u.text ≤ maxBytes) : parse u.text = .ok u := by
  obtain rfl | hsettled := parse_cases h
  · have : text ⟨none, some written, [], none⟩ = written := by simp [text]
    rw [this, h]
  · exact parse_of_settled hsettled hfits

end Http.Uri

namespace Http

/-! ## Requests

A request keeps its address as it was read, and its data hold the text of it. -/

/-- The text of the address of a request. -/
def Request.url (r : Request) : String := String.ofList r.uri.text

/-- The same parts with another address. -/
def RequestSpec.withUri (spec : RequestSpec) (uri : String) : RequestSpec := { spec with uri := uri }

/-- The data of a request hold the text of its address. -/
theorem Request.get?_url_of_toData {r : Request} {data : DataMap} (h : r.toData = .ok data) :
    data.get? "URL_String" = some (.string r.url) := by
  obtain ⟨body, -, hok⟩ | ⟨-, fault, herror, -⟩ := (Message.request r).toData_cases
  · rw [Except.ok.inj (h.symm.trans hok), Entries.get?_ofList]
    rfl
  · exact nomatch herror.symm.trans h

/-- A request can be built again with the text of its address, and is the same. -/
theorem RequestSpec.build_withUri_url {spec : RequestSpec} {r : Request} (h : spec.build = .ok r)
    (hfits : (Utf8.ofString r.url).length ≤ Uri.maxBytes) : (spec.withUri r.url).build = .ok r := by
  obtain ⟨hmethod, hheaders, uri, huri, rfl⟩ := build_eq_ok_iff.mp h
  rw [Request.url, Utf8.ofString, String.toList_ofList] at hfits
  refine build_eq_ok_iff.mpr ⟨hmethod, hheaders, uri, ?_, rfl⟩
  show Uri.parse (String.ofList uri.text).toList = .ok uri
  rw [String.toList_ofList]
  exact Uri.parse_text huri hfits

end Http

open Http

/-- **The text of its address names a request.** The data of a request hold that text, and the request that is
built with it in place of the address that was given has the same data, unless the text is too long to be read. -/
theorem request_named_by_text {spec : RequestSpec} {r : Request} (hbuilt : spec.build = .ok r) :
    (∀ data, r.toData = .ok data → data.get? "URL_String" = some (.string r.url)) ∧
      ((Utf8.ofString r.url).length ≤ Uri.maxBytes →
        ∃ again, (spec.withUri r.url).build = .ok again ∧ again.toData = r.toData) :=
  ⟨fun _ => Request.get?_url_of_toData, fun hfits => ⟨r, RequestSpec.build_withUri_url hbuilt hfits, rfl⟩⟩

/-- The address has a scheme in upper case, no path, a query and a fragment. -/
def unsettledSpec : RequestSpec := ⟨"GET", "HTTP://a?q#f", .v11, [], []⟩

/-- The text that the data hold has the scheme in lower case, the root for a path, and no fragment. It is
another text than the one that was given, and names the same request. -/
theorem request_named_by_text_unsettledSpec :
    ∃ r data again, unsettledSpec.build = .ok r ∧ r.toData = .ok data ∧
      data.get? "URL_String" = some (.string "http://a/?q") ∧
      (unsettledSpec.withUri "http://a/?q").build = .ok again ∧ again.toData = .ok data := by
  let uri : Uri := ⟨some "http".toList, some ['a'], ['/'], some ['q']⟩
  let r : Request := ⟨"GET", uri, .v11, [], []⟩
  have hbuilt : unsettledSpec.build = .ok r :=
    RequestSpec.build_eq_ok_iff.mpr ⟨by decide, rfl, uri, rfl, rfl⟩
  have hsame : r.url = "http://a/?q" := by decide
  obtain ⟨hurl, hagain⟩ := request_named_by_text hbuilt
  obtain ⟨again, hrebuilt, hdata⟩ := hagain (by rw [hsame]; decide)
  -- an empty body is a text, so the request becomes data
  obtain ⟨body, -, hok⟩ | ⟨hill, -⟩ := (Message.request r).toData_cases
  · rw [hsame] at hurl hrebuilt
    exact ⟨r, _, again, hbuilt, hok, hurl _ hok, hrebuilt, hdata.trans hok⟩
  · exact absurd ⟨[], rfl⟩ hill

end ScriptHost
