import Mathlib.Data.List.Perm.Subperm
import ScriptHost.Json.Record
import ScriptHost.Proofs.Json.Strings

/-!
# Objects, and the records read from them

The text of an object falls into parts, and blanks may stand between any two of them (`Spaced`); they come to no
token. A record is read from member to member. Each member takes the state from what is known with the names so
far to what is known with one name more (`TakesIn`), so the names that have been read are all there is to know
of a run, and the order of the members does not matter beyond that.

* **`Record.Lenient.reads_selection`**: a record that asks for no member reads any selection from the members
  that it takes in, and ends in the state that is known with their names.
-/

namespace ScriptHost.Json

variable {α β σ : Type}

/-! ## Texts with blanks

An object is read as a list of parts. What it is printed as has them without anything between; what may be read
has any blanks there. All that follows is about the second, and `spaced_object` says that the first is a case of
it. -/

/-- Text that may stand between any two parts of a JSON text. -/
def Blanks (text : List Char) : Prop := ∀ c ∈ text, c ∈ [' ', '\t', '\n', '\r']

/-- The parts one after the other, with blanks before, between and after them. -/
inductive Spaced : List (List Char) → List Char → Prop
  | nil {blanks : List Char} : Blanks blanks → Spaced [] blanks
  | cons {blanks part rest : List Char} {parts : List (List Char)} :
      Blanks blanks → Spaced parts rest → Spaced (part :: parts) (blanks ++ (part ++ rest))

/-- No blanks at all are blanks. -/
theorem spaced_flatten (parts : List (List Char)) : Spaced parts parts.flatten := by
  have hnone : Blanks [] := fun c hc => nomatch hc
  induction parts with
  | nil => exact .nil hnone
  | cons part parts ih => exact .cons hnone ih

/-- What follows a member of an object: the members that are left, and the closing brace. -/
def afterMember : List (String × List Char) → List (List Char)
  | [] => [['\x7d']]
  | m :: rest => [','] :: quote m.1 :: [':'] :: m.2 :: afterMember rest

/-- The parts of an object's text between which blanks may stand. -/
def objectParts : List (String × List Char) → List (List Char)
  | [] => [['\x7b'], ['\x7d']]
  | m :: rest => ['\x7b'] :: quote m.1 :: [':'] :: m.2 :: afterMember rest

def memberText (m : String × List Char) : List Char := quote m.1 ++ ':' :: m.2

/-- Printing puts the commas between the members, and the parts have each comma in front of its member. The
closing brace makes the two agree. -/
theorem commas_memberText (m : String × List Char) (rest : List (String × List Char)) :
    commas ((m :: rest).map memberText) ++ ['\x7d'] = memberText m ++ (afterMember rest).flatten := by
  induction rest generalizing m with
  | nil => rfl
  | cons m' rest ih =>
    have hcommas : commas ((m :: m' :: rest).map memberText)
        = memberText m ++ ',' :: commas ((m' :: rest).map memberText) := rfl
    rw [hcommas, List.append_assoc, List.cons_append, ih]
    simp [afterMember, memberText]

/-- A printed object is its parts, with nothing between them. -/
theorem object_eq_flatten (members : List (String × List Char)) :
    object members = (objectParts members).flatten := by
  cases members with
  | nil => rfl
  | cons m rest =>
    have hobject : object (m :: rest) = '\x7b' :: (commas ((m :: rest).map memberText) ++ ['\x7d']) := rfl
    rw [hobject, commas_memberText]
    simp [objectParts, memberText]

theorem spaced_object (members : List (String × List Char)) :
    Spaced (objectParts members) (object members) :=
  object_eq_flatten members ▸ spaced_flatten (objectParts members)

/-! ## Tokens

The bytes of a part are one token, or none for blanks. Each lemma holds for any bytes behind the part, as the
cut into tokens goes from the front. -/

/-- Blanks come to no token, wherever they stand. -/
theorem Token.ofBytes_blanks {blanks : List Char} (h : Blanks blanks) (rest : List UInt8) :
    Token.ofBytes (Utf8.encode blanks ++ rest) = Token.ofBytes rest := by
  induction blanks with
  | nil => rfl
  | cons c blanks ih =>
    have hbyte : ∃ b, String.utf8EncodeChar c = [b] ∧ isBlank b = true := by
      have hc := h c List.mem_cons_self
      simp only [List.mem_cons, List.not_mem_nil, or_false] at hc
      obtain rfl | rfl | rfl | rfl := hc <;> exact ⟨_, rfl, rfl⟩
    obtain ⟨b, hb, hblank⟩ := hbyte
    rw [Utf8.encode_cons, hb, List.append_assoc, List.singleton_append, Token.ofBytes, if_pos hblank]
    exact ih fun c hc => h c (List.mem_cons_of_mem _ hc)

/-- A mark is a token of its own, whatever comes next. -/
theorem Token.ofBytes_mark {c : Char} {b : UInt8} {t : Token} (hbyte : String.utf8EncodeChar c = [b])
    (hmark : mark? b = some t) (hblank : isBlank b = false) (rest : List UInt8) :
    Token.ofBytes (Utf8.encode [c] ++ rest) = t :: Token.ofBytes rest := by
  have hencode : Utf8.encode [c] = [b] := by
    rw [Utf8.encode_cons, hbyte]
    rfl
  rw [hencode, List.singleton_append, Token.ofBytes, if_neg (by simp [hblank]), scan, hmark]

/-- The word for a missing value is one token. -/
theorem Token.ofBytes_null (rest : List UInt8) :
    Token.ofBytes (Utf8.encode ['n', 'u', 'l', 'l'] ++ rest)
      = .bare (.ok .null) (.ok ()) :: Token.ofBytes rest := by
  have hencode : Utf8.encode ['n', 'u', 'l', 'l'] = [0x6E, 0x75, 0x6C, 0x6C] := by decide
  have hscan : scan 0x6E (0x75 :: 0x6C :: 0x6C :: rest) = (.bare (.ok .null) (.ok ()), rest) := rfl
  rw [hencode, List.cons_append, Token.ofBytes, if_neg (by decide)]
  show (scan 0x6E (0x75 :: 0x6C :: 0x6C :: rest)).1
    :: Token.ofBytes (scan 0x6E (0x75 :: 0x6C :: 0x6C :: rest)).2 = _
  rw [hscan]

/-- The blanks in front of a part come to no token. -/
theorem Spaced.exists_rest {part text : List Char} {parts : List (List Char)}
    (h : Spaced (part :: parts) text) :
    ∃ behind, Spaced parts behind ∧ ∀ rest, Token.ofBytes (Utf8.encode text ++ rest)
      = Token.ofBytes (Utf8.encode part ++ (Utf8.encode behind ++ rest)) := by
  cases h with
  | @cons blanks _ behind _ hblanks hbehind =>
    refine ⟨behind, hbehind, fun rest => ?_⟩
    rw [Utf8.encode_append, Utf8.encode_append, List.append_assoc, List.append_assoc,
      Token.ofBytes_blanks hblanks]

/-! ## Readers

A reader takes tokens from the front and leaves the rest. Its promise that the rest is shorter is part of what
it returns, so `Takes` only says that there is one. -/

namespace Reader

variable {r : Reader α} {tokens rest : List Token} {text : List Char} {v : α}

/-- The reader makes `v` of the tokens in front of `rest`. -/
def Takes (r : Reader α) (tokens : List Token) (v : α) (rest : List Token) : Prop :=
  ∃ shorter, r tokens = .ok ⟨v, rest, shorter⟩

/-- The reader makes `v` of the text, whatever follows it. -/
def Reads (r : Reader α) (text : List Char) (v : α) : Prop :=
  ∀ rest : List UInt8, r.Takes (Token.ofBytes (Utf8.encode text ++ rest)) v (Token.ofBytes rest)

/-- What is made of the value afterwards does not matter to the reading. -/
theorem Reads.map (h : r.Reads text v) (f : α → β) : (r.map f).Reads text (f v) := by
  intro rest
  obtain ⟨shorter, hread⟩ := h rest
  refine ⟨shorter, ?_⟩
  rw [Reader.map, hread]
  rfl

/-- A text with nothing behind it is read as a whole. -/
theorem Reads.ofBytes_eq (h : r.Reads text v) : r.ofBytes (Utf8.encode text) = .ok v := by
  have hend := h []
  rw [List.append_nil] at hend
  obtain ⟨shorter, hread⟩ := hend
  rw [ofBytes, hread]
  simp only [bind, Except.bind, Token.ofBytes]
  rfl

theorem reads_string (s : String) : string.Reads (quote s) s := by
  intro rest
  rw [Token.ofBytes_quote]
  exact ⟨Nat.lt_succ_self _, rfl⟩

theorem reads_string_orNull (s : String) : string.orNull.Reads (quote s) (some s) := by
  intro rest
  rw [Token.ofBytes_quote]
  exact ⟨Nat.lt_succ_self _, rfl⟩

theorem reads_orNull_null (r : Reader α) : r.orNull.Reads ['n', 'u', 'l', 'l'] none := by
  intro rest
  rw [Token.ofBytes_null]
  exact ⟨Nat.lt_succ_self _, rfl⟩

end Reader

/-! ## Records

A record has a field for each name. The state that is known with some names (`known`) is the invariant of the
loop over the members. -/

namespace Record

variable {r : Record σ} {known : List String → σ} {m : String × List Char}

/-- A member that the record takes in: `known names` is the state once the members with these names have been
read, and reading this one adds its name. -/
def TakesIn (r : Record σ) (known : List String → σ) (m : String × List Char) : Prop :=
  ∃ field update, r.field? m.1 = some field ∧ field.read.Reads m.2 update ∧
    ∀ names, update (known names) = known (m.1 :: names)

/-! ### Steps

One turn of the loop, for the two marks that may stand behind a member. -/

/-- A member with a known name that has not been read yet: the update of its field is done, and the name is
noted. -/
theorem member_takes {p : Progress σ} {key : String} {skip : Except Fault Unit} {field : Field σ}
    {update : σ → σ} {tokens rest : List Token} (hfield : r.field? key = some field) (hnew : key ∉ p.seen)
    (hread : field.read.Takes tokens update rest) :
    Reader.Takes (r.member p) (.string (.ok key) skip :: .colon :: tokens) ⟨update p.state, key :: p.seen⟩ rest := by
  obtain ⟨shorter, hread⟩ := hread
  have hunseen : p.seen.contains key = false := by simpa using hnew
  refine ⟨by simp only [List.length_cons]; omega, ?_⟩
  simp only [member, bind, Except.bind, hfield, hunseen, Bool.false_eq_true, if_false, afterKey, hread]
  rfl

/-- The last member, with the closing brace behind it. -/
theorem members_of_close {p q : Progress σ} {tokens rest : List Token}
    (h : Reader.Takes (r.member p) tokens q (.closeObject :: rest)) :
    Reader.Takes (r.members p) tokens q rest := by
  obtain ⟨shorter, h⟩ := h
  refine ⟨by rw [List.length_cons] at shorter; omega, ?_⟩
  rw [members, h]

/-- A member with others behind it. -/
theorem members_of_comma {p q last : Progress σ} {tokens rest behind : List Token}
    (h : Reader.Takes (r.member p) tokens q (.comma :: rest))
    (hrest : Reader.Takes (r.members q) rest last behind) : Reader.Takes (r.members p) tokens last behind := by
  obtain ⟨shorter, h⟩ := h
  obtain ⟨shorter', hrest⟩ := hrest
  refine ⟨by rw [List.length_cons] at shorter; omega, ?_⟩
  rw [members, h]
  simp only [hrest]
  rfl

/-! ### Runs

The loop, by induction on the members that are left. The names read so far grow at the front, and each name is
new because the members have different ones. -/

/-- One member, up to what stands behind it. -/
theorem TakesIn.member (h : r.TakesIn known m) {names : List String} (hnew : m.1 ∉ names)
    {parts : List (List Char)} {text : List Char}
    (htext : Spaced (quote m.1 :: [':'] :: m.2 :: parts) text) :
    ∃ behind, Spaced parts behind ∧ ∀ rest, Reader.Takes (r.member ⟨known names, names⟩)
      (Token.ofBytes (Utf8.encode text ++ rest)) ⟨known (m.1 :: names), m.1 :: names⟩
      (Token.ofBytes (Utf8.encode behind ++ rest)) := by
  obtain ⟨field, update, hfield, hread, hupdate⟩ := h
  obtain ⟨afterName, hafterName, hname⟩ := htext.exists_rest
  obtain ⟨afterColon, hafterColon, hcolon⟩ := hafterName.exists_rest
  obtain ⟨behind, hbehind, hvalue⟩ := hafterColon.exists_rest
  refine ⟨behind, hbehind, fun rest => ?_⟩
  rw [hname, Token.ofBytes_quote, hcolon, Token.ofBytes_mark (b := 0x3A) rfl rfl rfl, hvalue, ← hupdate]
  exact member_takes hfield hnew (hread (Utf8.encode behind ++ rest))

/-- All members, up to the end of the object. -/
theorem members_takes {later : List (String × List Char)} (htakes : ∀ m' ∈ m :: later, r.TakesIn known m')
    (hnodup : ((m :: later).map Prod.fst).Nodup) {names : List String}
    (hnew : ∀ m' ∈ m :: later, m'.1 ∉ names) {text : List Char}
    (htext : Spaced (quote m.1 :: [':'] :: m.2 :: afterMember later) text) (rest : List UInt8) :
    Reader.Takes (r.members ⟨known names, names⟩) (Token.ofBytes (Utf8.encode text ++ rest))
      ⟨known (((m :: later).map Prod.fst).reverseAux names), ((m :: later).map Prod.fst).reverseAux names⟩
      (Token.ofBytes rest) := by
  -- the names read so far grow at the front, and each member brings a new one
  induction later generalizing m names text with
  | nil =>
    obtain ⟨behind, hbehind, hmember⟩ :=
      (htakes m List.mem_cons_self).member (hnew m List.mem_cons_self) htext
    obtain ⟨_, ⟨hblanks⟩, hclose⟩ := hbehind.exists_rest
    have hstep := hmember rest
    rw [hclose, Token.ofBytes_mark (b := 0x7D) rfl rfl rfl, Token.ofBytes_blanks hblanks] at hstep
    exact members_of_close hstep
  | cons m' later ih =>
    obtain ⟨behind, hbehind, hmember⟩ :=
      (htakes m List.mem_cons_self).member (hnew m List.mem_cons_self) htext
    obtain ⟨others, hothers, hcomma⟩ := hbehind.exists_rest
    have hstep := hmember rest
    rw [hcomma, Token.ofBytes_mark (b := 0x2C) rfl rfl rfl] at hstep
    refine members_of_comma hstep (ih ?_ ?_ ?_ hothers)
    · exact fun m'' hm'' => htakes m'' (List.mem_cons_of_mem m hm'')
    · exact (List.nodup_cons.mp hnodup).2
    · intro m'' hm'' hseen
      obtain hm | hseen := List.mem_cons.mp hseen
      · exact (List.nodup_cons.mp hnodup).1 (hm ▸ List.mem_map_of_mem hm'')
      · exact hnew m'' (List.mem_cons_of_mem m hm'') hseen

/-- Every field may be left out, and no state is refused. -/
structure Lenient (r : Record σ) : Prop where
  optional : ∀ field ∈ r.fields, field.required = false
  check : ∀ state, r.check state = .ok ()

/-- A lenient record is done when its members are: it misses none, and it has nothing to check. -/
theorem Lenient.read_takes (h : r.Lenient) {p : Progress σ} {tokens rest : List Token}
    (hbody : Reader.Takes r.body tokens p rest) : r.read.Takes (.openObject :: tokens) p.state rest := by
  obtain ⟨shorter, hbody⟩ := hbody
  -- no field is required, so none is missing
  have hmissing : r.missing? p = none := by
    rw [missing?, Option.map_eq_none_iff, List.find?_eq_none]
    intro field hfield
    simp [h.optional field hfield]
  refine ⟨by simp only [List.length_cons]; omega, ?_⟩
  simp only [read, bind, Except.bind, hbody, hmissing, h.check]
  rfl

/-- **A record reads its members in any order.** -/
theorem Lenient.reads_object (h : r.Lenient) (hinitial : r.initial = known [])
    {members : List (String × List Char)} (htakes : ∀ m ∈ members, r.TakesIn known m)
    (hnodup : (members.map Prod.fst).Nodup) {text : List Char} (htext : Spaced (objectParts members) text) :
    r.read.Reads text (known (members.map Prod.fst).reverse) := by
  intro rest
  cases members with
  | nil =>
    obtain ⟨inside, hinside, hopen⟩ := htext.exists_rest
    obtain ⟨_, ⟨hblanks⟩, hclose⟩ := hinside.exists_rest
    rw [hopen, Token.ofBytes_mark (b := 0x7B) rfl rfl rfl, hclose,
      Token.ofBytes_mark (b := 0x7D) rfl rfl rfl, Token.ofBytes_blanks hblanks]
    have hbody : Reader.Takes r.body (.closeObject :: Token.ofBytes rest) ⟨r.initial, []⟩ (Token.ofBytes rest) :=
      ⟨Nat.lt_succ_self _, rfl⟩
    exact hinitial ▸ h.read_takes hbody
  | cons m later =>
    obtain ⟨inside, hinside, hopen⟩ := htext.exists_rest
    have hbody := members_takes htakes hnodup (fun _ _ => List.not_mem_nil) hinside rest
    obtain ⟨_, -, hname⟩ := hinside.exists_rest
    -- the first token is a name, so the object is not over before its members
    rw [← hinitial, hname, Token.ofBytes_quote] at hbody
    rw [hopen, Token.ofBytes_mark (b := 0x7B) rfl rfl rfl, hname, Token.ofBytes_quote]
    exact h.read_takes hbody

/-- A selection from the members, in any order. -/
theorem Lenient.reads_selection (h : r.Lenient) (hinitial : r.initial = known [])
    {members kept : List (String × List Char)} (htakes : ∀ m ∈ members, r.TakesIn known m)
    (hnodup : (members.map Prod.fst).Nodup) (hkept : kept.Subperm members) {text : List Char}
    (htext : Spaced (objectParts kept) text) : r.read.Reads text (known (kept.map Prod.fst).reverse) := by
  -- a selection does not repeat a name that the whole list has once
  have hkept_nodup : (kept.map Prod.fst).Nodup := by
    obtain ⟨part, hperm, hpart⟩ := hkept
    exact (hperm.map Prod.fst).nodup_iff.mp (hnodup.sublist (hpart.map Prod.fst))
  exact h.reads_object hinitial (fun m hm => htakes m (hkept.subset hm)) hkept_nodup htext

end Record

end ScriptHost.Json
