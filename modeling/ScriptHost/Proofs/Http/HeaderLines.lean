import ScriptHost.Proofs.Http.Messages
import ScriptHost.Proofs.Text.LetterCase

/-!
# Header lines as a script sees them

The canonical form of a name forgets the case of its letters and nothing else (`canonicalName_eq_iff`), whatever
dashes, digits and symbols the name has. Names are kept in lower case, so no two of them share a canonical form,
and storing each list of values under it loses none (`get?_toData_eq_some_iff`).

* **`headers_gathered`**: the headers of a message hold one list for each name that some line has, the lines of a
  name being those that have it in any case.
-/

namespace ScriptHost.Http

namespace Header

/-! ## Canonical names

The canonical form goes through a name with a flag that says whether a part begins. Its laws are proved for
either value of the flag. -/

/-- Canonical form changes the case of letters and nothing else. This holds wherever the name begins, at the
start of a part or inside one. -/
theorem lower_canonicalChars (start : Bool) (chars : List Char) :
    (canonicalChars start chars).map Char.toLower = chars.map Char.toLower := by
  induction chars generalizing start with
  | nil => rfl
  | cons c rest ih =>
    rw [canonicalChars, List.map_cons, List.map_cons, ih]
    cases start <;> simp

/-- The case that a name has does not matter for its canonical form. -/
theorem canonicalChars_lower (start : Bool) (chars : List Char) :
    canonicalChars start (chars.map Char.toLower) = canonicalChars start chars := by
  induction chars generalizing start with
  | nil => rfl
  | cons c rest ih =>
    -- parts begin at the same places, since a dash has no case
    rw [List.map_cons, canonicalChars, canonicalChars, ih, toLower_beq ⟨rfl, rfl⟩]
    cases start <;> simp

/-- **Names with one canonical form are those that differ in case only.** One direction puts the canonical forms
in lower case, the other puts the names in lower case first. -/
theorem canonicalName_eq_iff {n m : String} : canonicalName n = canonicalName m ↔ n.toLower = m.toLower := by
  rw [canonicalName, canonicalName, String.ofList_inj, toLower_eq_toLower_iff]
  constructor
  · intro h
    rw [← lower_canonicalChars true, h, lower_canonicalChars]
  · intro h
    rw [← canonicalChars_lower, h, canonicalChars_lower]

/-- A canonical form is its own canonical form. -/
theorem canonicalName_canonicalName (name : String) :
    canonicalName (canonicalName name) = canonicalName name := by
  rw [canonicalName_eq_iff, toLower_eq_toLower_iff, canonicalName, String.toList_ofList, lower_canonicalChars]

theorem canonicalName_toLower (name : String) : canonicalName name.toLower = canonicalName name := by
  rw [canonicalName_eq_iff, toLower_idem]

/-! ## Headers as data

Names are kept in lower case, and stored under their canonical forms. -/

/-- **Each name keeps its own list.** Storing a list under the canonical form of its name overwrites no other,
because names are kept in lower case. -/
theorem get?_toData_eq_some_iff {headers : List Header} (hlower : ∀ h ∈ headers, h.name.toLower = h.name)
    {key : String} {v : Value} :
    (toData headers).get? key = some v ↔
      ∃ name ∈ names headers, key = canonicalName name ∧ v = .list ((texts headers name).map .string) := by
  have hlowerName {name : String} (hname : name ∈ names headers) : name.toLower = name := by
    rw [names, List.mem_eraseDups, List.mem_map] at hname
    obtain ⟨h, hmem, rfl⟩ := hname
    exact hlower h hmem
  -- one canonical form means one name, because names are in lower case
  have hsingle : ∀ p ∈ (names headers).map fun name => (canonicalName name, texts headers name),
      ∀ q ∈ (names headers).map fun name => (canonicalName name, texts headers name), p.1 = q.1 → p = q := by
    simp only [List.mem_map]
    rintro _ ⟨n, hn, rfl⟩ _ ⟨m, hm, rfl⟩ hcanonical
    have : n = m := by
      rw [← hlowerName hn, ← hlowerName hm]
      exact canonicalName_eq_iff.mp hcanonical
    rw [this]
  rw [toData, listsOfText, Entries.get?_map, Option.map_eq_some_iff]
  simp only [grouped, Entries.get?_ofList_eq_some_iff hsingle, List.mem_map, Prod.mk.injEq]
  constructor
  · rintro ⟨_, ⟨name, hname, rfl, rfl⟩, rfl⟩
    exact ⟨name, hname, rfl, rfl⟩
  · rintro ⟨name, hname, rfl, rfl⟩
    exact ⟨_, ⟨name, hname, rfl, rfl⟩, rfl⟩

/-! ## Lines and headers

The same said of the lines that were given, in any case of their names. -/

/-- The texts of the lines that have a name, in any case of its letters. -/
def textsOf (lines : List (String × List UInt8)) (name : String) : List String :=
  (lines.filter fun line => line.1.toLower == name.toLower).map fun line => Utf8.decodeLossy line.2

/-- Data that hold all texts of each name that a line has, under its canonical form, and nothing else. -/
def Gathered (lines : List (String × List UInt8)) (data : DataMap) : Prop :=
  ∀ key v, data.get? key = some v ↔
    ∃ line ∈ lines, key = canonicalName line.1 ∧ v = .list ((textsOf lines line.1).map .string)

/-- The lines of a name are also those with its canonical form. -/
theorem textsOf_eq (lines : List (String × List UInt8)) (name : String) :
    textsOf lines name =
      (lines.filter fun line => canonicalName line.1 == canonicalName name).map
        fun line => Utf8.decodeLossy line.2 := by
  have hsame (line : String × List UInt8) :
      (line.1.toLower == name.toLower) = (canonicalName line.1 == canonicalName name) := by
    rw [Bool.eq_iff_iff, beq_iff_eq, beq_iff_eq, canonicalName_eq_iff]
  simp only [textsOf, hsame]

/-- The texts of a name are those of the lines that have it in any case. -/
theorem texts_map_ofLine (lines : List (String × List UInt8)) (name : String) :
    texts (lines.map ofLine) name.toLower = textsOf lines name := by
  rw [texts, textsOf, List.filter_map, List.map_map]
  rfl

/-- **Lines come through as headers.** The names that are kept are the lower-case names of the lines. -/
theorem gathered_toData (lines : List (String × List UInt8)) : Gathered lines (toData (lines.map ofLine)) := by
  have hlower : ∀ h ∈ lines.map ofLine, h.name.toLower = h.name := by
    simp only [List.mem_map]
    rintro _ ⟨line, -, rfl⟩
    exact toLower_idem line.1
  have hnames {name : String} : name ∈ names (lines.map ofLine) ↔ ∃ line ∈ lines, line.1.toLower = name := by
    simp [names, List.mem_eraseDups, ofLine]
  -- a name that is kept is that of a line in lower case, and has its canonical form
  intro key v
  rw [get?_toData_eq_some_iff hlower]
  constructor
  · rintro ⟨_, hname, rfl, rfl⟩
    obtain ⟨line, hline, rfl⟩ := hnames.mp hname
    exact ⟨line, hline, canonicalName_toLower line.1, by rw [texts_map_ofLine]⟩
  · rintro ⟨line, hline, rfl, rfl⟩
    exact ⟨_, hnames.mpr ⟨line, hline, rfl⟩, (canonicalName_toLower line.1).symm, by rw [texts_map_ofLine]⟩

end Header

/-! ## Messages

Headers are looked up in the data of a message, so the message must be one that becomes data: its body must be
text. -/

/-- If the headers of a message come from lines, its data hold them, provided that it becomes data at all. -/
theorem Message.gathered {m : Message} {lines : List (String × List UInt8)}
    (h : m.headers = lines.map Header.ofLine) (htext : Utf8.WellFormed m.body) :
    ∃ data headers, m.toData = .ok data ∧ data.get? "Header" = some (.map headers) ∧
      Header.Gathered lines headers := by
  obtain ⟨body, -, hok⟩ | ⟨hill, -⟩ := m.toData_cases
  · exact ⟨_, _, hok, m.get?_header body, h ▸ Header.gathered_toData lines⟩
  · exact absurd htext hill

/-- A request that was built holds the lines that it was built from. -/
theorem Request.gathered_of_build {spec : RequestSpec} {r : Request} (h : spec.build = .ok r)
    (htext : Utf8.WellFormed spec.body) :
    ∃ data headers, r.toData = .ok data ∧ data.get? "Header" = some (.map headers) ∧
      Header.Gathered spec.headers headers := by
  obtain ⟨-, -, uri, -, rfl⟩ := RequestSpec.build_eq_ok_iff.mp h
  exact Message.gathered
    (m := .request ⟨spec.method, uri, spec.version, spec.headers.map Header.ofLine, spec.body⟩) rfl htext

/-- A response that was built holds the lines that it was built from. -/
theorem Response.gathered_of_build {spec : ResponseSpec} {r : Response} (h : spec.build = .ok r)
    (htext : Utf8.WellFormed spec.body) :
    ∃ data headers, r.toData = .ok data ∧ data.get? "Header" = some (.map headers) ∧
      Header.Gathered spec.headers headers := by
  obtain ⟨-, status, -, rfl⟩ := ResponseSpec.build_eq_ok_iff.mp h
  exact Message.gathered (m := .response ⟨status, spec.version, spec.headers.map Header.ofLine, spec.body⟩)
    rfl htext

/-- **No line is lost, merged or moved.** Canonical forms tell names apart up to the case of their letters, and
the headers of a message that was built hold the texts of all lines of each name in their order. -/
theorem headers_gathered :
    (∀ n m, Header.canonicalName n = Header.canonicalName m ↔ n.toLower = m.toLower) ∧
    (∀ name, Header.canonicalName (Header.canonicalName name) = Header.canonicalName name) ∧
    (∀ (spec : RequestSpec) (r : Request), spec.build = .ok r → Utf8.WellFormed spec.body →
      ∃ data headers, r.toData = .ok data ∧ data.get? "Header" = some (.map headers) ∧
        Header.Gathered spec.headers headers) ∧
    (∀ (spec : ResponseSpec) (r : Response), spec.build = .ok r → Utf8.WellFormed spec.body →
      ∃ data headers, r.toData = .ok data ∧ data.get? "Header" = some (.map headers) ∧
        Header.Gathered spec.headers headers) :=
  ⟨fun _ _ => Header.canonicalName_eq_iff, Header.canonicalName_canonicalName,
    fun _ _ => Request.gathered_of_build, fun _ _ => Response.gathered_of_build⟩

/-- Lines of two names in turn, the second of each in another case; one value is no text. -/
def lettersInTurn : List (String × List UInt8) :=
  [("--1a", [0x31]), ("X-a", [0x32]), ("--1A", [0xFF]), ("x-A", [])]

/-- Each name collects its two values, the first value of the one before the second of the other, and the value
that is no text is shown with the replacement character. -/
theorem headers_gathered_lettersInTurn :
    (∃ r data headers, RequestSpec.build ⟨"GET", "/", .v11, lettersInTurn, []⟩ = .ok r ∧
      r.toData = .ok data ∧ data.get? "Header" = some (.map headers) ∧
      headers.get? "--1a" = some (.list [.string "1", .string "\uFFFD"]) ∧
      headers.get? "X-A" = some (.list [.string "2", .string ""])) ∧
    ∃ r data headers, ResponseSpec.build ⟨204, .v2, lettersInTurn, []⟩ = .ok r ∧
      r.toData = .ok data ∧ data.get? "Header" = some (.map headers) ∧
      headers.get? "--1a" = some (.list [.string "1", .string "\uFFFD"]) ∧
      headers.get? "X-A" = some (.list [.string "2", .string ""]) := by
  have hrequest : RequestSpec.build ⟨"GET", "/", .v11, lettersInTurn, []⟩
      = .ok ⟨"GET", ⟨none, none, ['/'], none⟩, .v11, lettersInTurn.map Header.ofLine, []⟩ :=
    RequestSpec.build_eq_ok_iff.mpr ⟨by decide, by decide, _, rfl, rfl⟩
  have hresponse : ResponseSpec.build ⟨204, .v2, lettersInTurn, []⟩
      = .ok ⟨⟨204, by decide, by decide⟩, .v2, lettersInTurn.map Header.ofLine, []⟩ :=
    ResponseSpec.build_eq_ok_iff.mpr ⟨by decide, _, by rfl, rfl⟩
  have hfirst : Header.textsOf lettersInTurn "--1a" = ["1", "\uFFFD"] := by
    rw [Header.textsOf_eq]
    decide
  have hsecond : Header.textsOf lettersInTurn "X-a" = ["2", ""] := by
    rw [Header.textsOf_eq]
    decide
  have hentries {headers : DataMap} (hall : Header.Gathered lettersInTurn headers) :
      headers.get? "--1a" = some (.list [.string "1", .string "\uFFFD"]) ∧
      headers.get? "X-A" = some (.list [.string "2", .string ""]) :=
    ⟨(hall _ _).mpr ⟨("--1a", [0x31]), by decide, by decide, by rw [hfirst]; rfl⟩,
      (hall _ _).mpr ⟨("X-a", [0x32]), by decide, by decide, by rw [hsecond]; rfl⟩⟩
  obtain ⟨data, headers, hok, hheaders, hall⟩ := headers_gathered.2.2.1 _ _ hrequest ⟨[], rfl⟩
  obtain ⟨data', headers', hok', hheaders', hall'⟩ := headers_gathered.2.2.2 _ _ hresponse ⟨[], rfl⟩
  exact ⟨⟨_, data, headers, hrequest, hok, hheaders, hentries hall⟩,
    ⟨_, data', headers', hresponse, hok', hheaders', hentries hall'⟩⟩

end ScriptHost.Http
