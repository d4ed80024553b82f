import ScriptHost.Json.Reader

/-!
# Records

A record is read from an object, member by member in any order, or from an array that lists the fields in
their order. Reading starts from an initial state, and each field is a reader of an update of that state,
so a field that is left out keeps its default. Faults count in the order of the text: an unknown or a
repeated key is refused before its value is looked at, and the record's own check comes last.
-/

namespace ScriptHost.Json

/-- A field: its key, whether it may be left out, and how its value changes the record. -/
structure Field (σ : Type) where
  name : String
  required : Bool
  read : Reader (σ → σ)

/-- How a record is read. `closed` records refuse keys that name no field; others pass over them. -/
structure Record (σ : Type) where
  title : String
  fields : List (Field σ)
  closed : Bool
  initial : σ
  check : σ → Except Fault Unit

namespace Record

variable {σ : Type}

def expected (r : Record σ) : String := "struct " ++ r.title

def field? (r : Record σ) (key : String) : Option (Field σ) := r.fields.find? fun f => f.name == key

/-- A record part way through: its state and the keys of the fields that have been read. -/
structure Progress (σ : Type) where
  state : σ
  seen : List String

def afterKey {α : Type} (read : Reader α) : Reader α
  | .colon :: rest => do
    let reading ← read rest
    return reading.extend (by simp)
  | [] => .error .endInObject
  | _ :: _ => .error .colonExpected

def member (r : Record σ) (p : Progress σ) : Reader (Progress σ)
  | .string read _ :: rest => do
    let key ← read
    match r.field? key with
    | none =>
      -- an open record passes over the value and forgets the key
      if r.closed then .error (.unknownMember key (r.fields.map Field.name))
      else
        let reading ← afterKey Reader.skip rest
        return (reading.map fun _ => p).extend (by simp)
    | some field =>
      if p.seen.contains key then .error (.repeatedMember key)
      else
        let reading ← afterKey field.read rest
        return (reading.map fun update => ⟨update p.state, key :: p.seen⟩).extend (by simp)
  | .closeObject :: _ => .error .trailingComma
  | [] => .error .endInValue
  | _ :: _ => .error .keyExpected

/-- Members with commas between them, up to the closing brace. -/
def members (r : Record σ) (p : Progress σ) (tokens : List Token) :
    Except Fault (Reading (Progress σ) tokens) :=
  match r.member p tokens with
  | .error fault => .error fault
  | .ok ⟨p, .closeObject :: rest, h⟩ =>
    .ok ⟨p, rest, by rw [List.length_cons] at h; omega⟩
  | .ok ⟨p, .comma :: rest, h⟩ =>
    match r.members p rest with
    | .error fault => .error fault
    | .ok reading => .ok (reading.extend (by rw [List.length_cons] at h; omega))
  | .ok ⟨_, [], _⟩ => .error .endInObject
  | .ok ⟨_, _ :: _, _⟩ => .error .objectCommaExpected
termination_by tokens.length
decreasing_by
  rw [List.length_cons] at h; omega

def body (r : Record σ) : Reader (Progress σ)
  | .closeObject :: rest => .ok (.first ⟨r.initial, []⟩ _ rest)
  | [] => .error .endInObject
  | t :: rest => r.members ⟨r.initial, []⟩ (t :: rest)

/-- The first field that is needed and was not read. -/
def missing? (r : Record σ) (p : Progress σ) : Option String :=
  (r.fields.find? fun f => f.required && !p.seen.contains f.name).map Field.name

/-- What was read of the elements of an array. Unlike a reading it may have taken nothing. -/
structure Elements (σ : Type) (tokens : List Token) where
  state : σ
  rest : List Token
  within : rest.length ≤ tokens.length

/-- The tokens from the next element on, after its comma if it is not the first; nothing if a closing
bracket comes instead. -/
def nextElement (index : Nat) :
    (tokens : List Token) → Except Fault (Option { rest : List Token // rest.length ≤ tokens.length })
  | [] => .error .endInList
  | .closeArray :: _ => .ok none
  | t :: rest =>
    if index = 0 then .ok (some ⟨t :: rest, Nat.le_refl _⟩)
    else
      match t, rest with
      | .comma, .closeArray :: _ => .error .trailingComma
      | .comma, rest => .ok (some ⟨rest, by simp⟩)
      | _, _ => .error .listCommaExpected

/-- The remaining elements of an array; `index` counts those before them. A closing bracket leaves the
remaining fields out. -/
def elements (r : Record σ) (index : Nat) (state : σ) :
    List (Field σ) → (tokens : List Token) → Except Fault (Elements σ tokens)
  | [], tokens => .ok ⟨state, tokens, Nat.le_refl _⟩
  | field :: fields, tokens => do
    match ← nextElement index tokens with
    | none =>
      match (field :: fields).findIdx? Field.required with
      | some n => .error (.tooShort (index + n) r.expected)
      | none => return ⟨state, tokens, Nat.le_refl _⟩
    | some ⟨tail, h⟩ =>
      let reading ← field.read tail
      let more ← r.elements (index + 1) (reading.value state) fields reading.rest
      return ⟨more.state, more.rest, by have := reading.shorter; have := more.within; omega⟩

def closing : Reader Unit
  | .closeArray :: rest => .ok (.first () _ rest)
  | .comma :: .closeArray :: _ => .error .trailingComma
  | [] => .error .endInList
  | _ :: _ => .error .trailingText

def read (r : Record σ) : Reader σ
  | .openObject :: rest => do
    let reading ← r.body rest
    match r.missing? reading.value with
    | some name => .error (.missingMember name)
    | none =>
      r.check reading.value.state
      return (reading.map Progress.state).extend (by simp)
  | .openArray :: rest => do
    let found ← r.elements 0 r.initial r.fields rest
    r.check found.state
    let after ← closing found.rest
    return ⟨found.state, after.rest, by
      have h₁ := found.within
      have h₂ := after.shorter
      rw [List.length_cons]; omega⟩
  | tokens => Reader.scalar r.expected (fun _ => none) tokens

end Record

end ScriptHost.Json
