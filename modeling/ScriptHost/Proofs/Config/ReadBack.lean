import ScriptHost.Config
import ScriptHost.Proofs.Json.Objects

/-!
# Configuration text reads back

A text stands for a configuration (`Written`) if it is an object with some of the members of the written form,
in any order and with blanks wherever they may stand; a member may be missing if its value is the standard one.
Each member that is read adds what it says to what is known so far (`known`), so after any selection of them
the rest is standard, and this is the configuration itself exactly because only standard values are missing.
The keys inside are a text of their own, and are read back in the same way one level further down.

* **`config_read_back`**: every text of a configuration is accepted, and gives that configuration.
-/

namespace ScriptHost

open Json

/-- A value that is taken from a member once that has been read, and is the standard one until then. -/
def valueOnceRead {α : Type} (name : String) (names : List String) (value standard : α) : α :=
  if name ∈ names then value else standard

/-- A value that may be left out only while it is standard is the right one in the end. -/
theorem valueOnceRead_eq {α : Type} {name : String} {names : List String} {value standard : α}
    (h : name ∈ names ∨ value = standard) : valueOnceRead name names.reverse value standard = value := by
  simp only [valueOnceRead, List.mem_reverse, ite_eq_left_iff]
  exact fun hname => (h.resolve_left hname).symm

namespace DataKeys

/-- Some of the members of these keys, in any order. A member that is left out has its standard value. -/
structure Selects (keys : DataKeys) (kept : List (String × List Char)) : Prop where
  subperm : kept.Subperm keys.members
  contextKey : "context_key" ∈ kept.map Prod.fst ∨ keys.contextKey = standard.contextKey
  inputKey : "input_key" ∈ kept.map Prod.fst ∨ keys.inputKey = standard.inputKey
  requestKey : "request_key" ∈ kept.map Prod.fst ∨ keys.requestKey = standard.requestKey
  responseKey : "response_key" ∈ kept.map Prod.fst ∨ keys.responseKey = standard.responseKey

/-- The texts that stand for these keys. -/
inductive Written (keys : DataKeys) : List Char → Prop
  | object {kept : List (String × List Char)} {text : List Char} :
      keys.Selects kept → Spaced (objectParts kept) text → keys.Written text

/-- What is known of the keys once the members with these names have been read. -/
def known (keys : DataKeys) (names : List String) : DataKeys where
  contextKey := valueOnceRead "context_key" names keys.contextKey standard.contextKey
  inputKey := valueOnceRead "input_key" names keys.inputKey standard.inputKey
  requestKey := valueOnceRead "request_key" names keys.requestKey standard.requestKey
  responseKey := valueOnceRead "response_key" names keys.responseKey standard.responseKey

theorem written_text (keys : DataKeys) : keys.Written keys.text :=
  .object ⟨List.Subperm.refl _, .inl (by simp [members]), .inl (by simp [members]),
    .inl (by simp [members]), .inl (by simp [members])⟩ (spaced_object _)

/-- No member of the keys is asked for. -/
theorem lenient_record : record.Lenient where
  optional := by
    intro field hfield
    simp only [record, List.mem_cons, List.not_mem_nil, or_false] at hfield
    obtain rfl | rfl | rfl | rfl := hfield <;> rfl
  check _ := rfl

/-- Each of the four members is a string, and its field sets the value that it names. -/
theorem takesIn (keys : DataKeys) {m : String × List Char} (hm : m ∈ keys.members) :
    record.TakesIn keys.known m := by
  simp only [members, List.mem_cons, List.not_mem_nil, or_false] at hm
  obtain rfl | rfl | rfl | rfl := hm <;>
    exact ⟨_, _, rfl, (Reader.reads_string _).map _, fun names => by simp [known, valueOnceRead]⟩

theorem Selects.known_eq {keys : DataKeys} {kept : List (String × List Char)} (h : keys.Selects kept) :
    keys.known (kept.map Prod.fst).reverse = keys := by
  rw [known, valueOnceRead_eq h.contextKey, valueOnceRead_eq h.inputKey, valueOnceRead_eq h.requestKey,
    valueOnceRead_eq h.responseKey]

/-- Any text of the keys is read as the keys, wherever it stands. -/
theorem Written.reads {keys : DataKeys} {text : List Char} (h : keys.Written text) :
    record.read.Reads text keys := by
  obtain ⟨hkept, htext⟩ := h
  have hread := lenient_record.reads_selection rfl (fun m => keys.takesIn) (by simp [members]) hkept.subperm htext
  rwa [hkept.known_eq] at hread

end DataKeys

namespace HostConfig

/-- Some of the members of the configuration, in any order. A member that is left out has its standard value. -/
structure Selects (config : HostConfig) (data : List Char) (kept : List (String × List Char)) : Prop where
  subperm : kept.Subperm (config.membersWith data)
  data : "data" ∈ kept.map Prod.fst ∨ config.data = standard.data
  scriptId : "script_id" ∈ kept.map Prod.fst ∨ config.scriptId? = standard.scriptId?

/-- The texts that stand for this configuration. -/
inductive Written (config : HostConfig) : List Char → Prop
  | object {data : List Char} {kept : List (String × List Char)} {text : List Char} :
      config.data.Written data → config.Selects data kept → Spaced (objectParts kept) text →
        config.Written text

/-- What is known of the configuration once the members with these names have been read. -/
def known (config : HostConfig) (names : List String) : HostConfig where
  data := valueOnceRead "data" names config.data standard.data
  scriptId? := valueOnceRead "script_id" names config.scriptId? standard.scriptId?

theorem written_text (config : HostConfig) : config.Written config.text :=
  .object config.data.written_text
    ⟨List.Subperm.refl _, .inl (by simp [membersWith]), .inl (by simp [membersWith])⟩ (spaced_object _)

/-- No member of a configuration is asked for either. -/
theorem lenient_record : record.Lenient where
  optional := by
    intro field hfield
    simp only [record, List.mem_cons, List.not_mem_nil, or_false] at hfield
    obtain rfl | rfl := hfield <;> rfl
  check _ := rfl

/-- A fixed id may be missing, and is then written as a missing value and not left out. -/
theorem reads_idText (id? : Option String) : Reader.string.orNull.Reads (idText id?) id? := by
  cases id? with
  | none => exact Reader.reads_orNull_null Reader.string
  | some id => exact Reader.reads_string_orNull id

/-- The member with the keys is read by their own record, so any text of the keys will do. -/
theorem takesIn {config : HostConfig} {data : List Char} (hdata : config.data.Written data)
    {m : String × List Char} (hm : m ∈ config.membersWith data) : record.TakesIn config.known m := by
  simp only [membersWith, List.mem_cons, List.not_mem_nil, or_false] at hm
  obtain rfl | rfl := hm
  · exact ⟨_, _, rfl, hdata.reads.map _, fun names => by simp [known, valueOnceRead]⟩
  · exact ⟨_, _, rfl, (reads_idText config.scriptId?).map _, fun names => by simp [known, valueOnceRead]⟩

theorem Selects.known_eq {config : HostConfig} {data : List Char} {kept : List (String × List Char)}
    (h : config.Selects data kept) : config.known (kept.map Prod.fst).reverse = config := by
  rw [known, valueOnceRead_eq h.data, valueOnceRead_eq h.scriptId]

/-- Any text of a configuration is read as the configuration. -/
theorem Written.reads {config : HostConfig} {text : List Char} (h : config.Written text) :
    record.read.Reads text config := by
  obtain ⟨hdata, hkept, htext⟩ := h
  have hread := lenient_record.reads_selection rfl (fun m => takesIn hdata) (by simp [membersWith])
    hkept.subperm htext
  rwa [hkept.known_eq] at hread

end HostConfig

theorem ConfigFault.fromText_of_reads {α : Type} {r : Reader α} {text : List Char} {v : α}
    (h : r.Reads text v) : fromText r.ofBytes (String.ofList text) = .ok v := by
  rw [fromText, Utf8.ofString, String.toList_ofList, h.ofBytes_eq]
  rfl

/-- **Configuration text reads back.** What is written for a configuration, and whatever else stands for it with
members left out or in another order, is read as that configuration; the same holds of its keys alone. -/
theorem config_read_back :
    (∀ keys : DataKeys, keys.Written keys.text ∧ ∀ text, keys.Written text →
      ConfigFault.fromText DataKeys.ofBytes (String.ofList text) = .ok keys) ∧
    ∀ config : HostConfig, config.Written config.text ∧ ∀ text, config.Written text →
      ConfigFault.fromText HostConfig.ofBytes (String.ofList text) = .ok config :=
  ⟨fun keys => ⟨keys.written_text, fun _ h => ConfigFault.fromText_of_reads h.reads⟩,
    fun config => ⟨config.written_text, fun _ h => ConfigFault.fromText_of_reads h.reads⟩⟩

/-- Keys of which one is not standard; its text needs escapes. -/
def oneKey : DataKeys := { DataKeys.standard with inputKey := "a\"b\n\x01" }

/-- The member of that key alone. -/
def oneKeyText : List Char := "\x7b\"input_key\":\"a\\\"b\\n\\u0001\"\x7d".toList

def namedConfig : HostConfig := ⟨oneKey, some "greeter"⟩

/-- The keys come last. -/
def namedConfigText : List Char :=
  "\x7b\"script_id\":\"greeter\",\"data\":\x7b\"input_key\":\"a\\\"b\\n\\u0001\"\x7d\x7d".toList

/-- Members that are left out, a nested object that comes last, and a key with a quote, a line feed and a
control character. -/
theorem config_read_back_oneKey :
    (oneKey.Written oneKeyText ∧
      ConfigFault.fromText DataKeys.ofBytes (String.ofList oneKeyText) = .ok oneKey) ∧
    namedConfig.Written namedConfigText ∧
      ConfigFault.fromText HostConfig.ofBytes (String.ofList namedConfigText) = .ok namedConfig := by
  have hkeys : oneKey.Written oneKeyText := by
    have hkept : oneKey.Selects [("input_key", quote oneKey.inputKey)] :=
      ⟨by decide, .inr rfl, .inl (by decide), .inr rfl, .inr rfl⟩
    have htext : oneKeyText = object [("input_key", quote oneKey.inputKey)] := by decide
    exact .object hkept (htext ▸ spaced_object _)
  have hconfig : namedConfig.Written namedConfigText := by
    have hkept : namedConfig.Selects oneKeyText [("script_id", quote "greeter"), ("data", oneKeyText)] :=
      ⟨by decide, .inl (by decide), .inl (by decide)⟩
    have htext : namedConfigText = object [("script_id", quote "greeter"), ("data", oneKeyText)] := by decide
    exact .object hkeys hkept (htext ▸ spaced_object _)
  exact ⟨⟨hkeys, (config_read_back.1 oneKey).2 _ hkeys⟩, hconfig, (config_read_back.2 namedConfig).2 _ hconfig⟩

end ScriptHost
