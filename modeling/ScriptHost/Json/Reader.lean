import ScriptHost.Json.Walk

/-!
# Readers

A `Reader α` takes a value of type `α` from the front of a list of tokens. That it takes at least one
token is part of its type, so loops over readers end. A reader that asks for another kind of value than
it meets says what it met; a scalar is read first, so its own fault counts before its kind does.
-/

namespace ScriptHost.Json

/-- What was read from the front of some tokens, and what follows it. -/
structure Reading (α : Type) (tokens : List Token) where
  value : α
  rest : List Token
  shorter : rest.length < tokens.length

abbrev Reader (α : Type) : Type := (tokens : List Token) → Except Fault (Reading α tokens)

namespace Reading

variable {α β : Type} {tokens : List Token}

/-- A value that took one token. -/
def first (v : α) (t : Token) (rest : List Token) : Reading α (t :: rest) :=
  ⟨v, rest, Nat.lt_succ_self rest.length⟩

def map (f : α → β) (r : Reading α tokens) : Reading β tokens := ⟨f r.value, r.rest, r.shorter⟩

/-- Seen from before an earlier token. -/
def extend {inner : List Token} (r : Reading α inner) (h : inner.length ≤ tokens.length) :
    Reading α tokens :=
  ⟨r.value, r.rest, Nat.lt_of_lt_of_le r.shorter h⟩

end Reading

namespace Reader

variable {α β : Type}

def map (f : α → β) (r : Reader α) : Reader β := fun tokens => (r tokens).map (Reading.map f)

def skip : Reader Unit := fun tokens =>
  match h : Walk.run Walk.skipping (.value []) tokens with
  | .error fault => .error fault
  | .ok (_, rest) => .ok ⟨(), rest, Walk.length_run_lt h⟩

/-- A scalar that is accepted; anything else is of the wrong type. -/
def scalar (expected : String) (accept : Scalar → Option (Except Fault α)) : Reader α
  | [] => .error .endInValue
  | .openObject :: _ => .error (.wrongType .map expected)
  | .openArray :: _ => .error (.wrongType .sequence expected)
  | .string read _ :: rest => do
    -- a fault inside the scalar counts before its kind
    let s ← read
    match accept (.string s) with
    | some result => return .first (← result) _ rest
    | none => .error (.wrongType (.scalar (.string s)) expected)
  | .bare read _ :: rest => do
    let s ← read
    match accept s with
    | some result => return .first (← result) _ rest
    | none => .error (.wrongType (.scalar s) expected)
  | .closeObject :: _ | .closeArray :: _ | .colon :: _ | .comma :: _ | .stray :: _ =>
    .error .valueExpected

def string : Reader String :=
  scalar "a string" fun
    | .string s => some (.ok s)
    | _ => none

/-- The null of a value that carries nothing. -/
def unit : Reader Unit :=
  scalar "unit" fun
    | .null => some (.ok ())
    | _ => none

/-- A whole number below a power of two. -/
def unsigned (bits : Nat) : Reader Nat :=
  let expected := s!"u{bits}"
  scalar expected fun
    | .number (.int n) =>
      some (if 0 ≤ n ∧ n < Int.ofNat (Nat.pow 2 bits) then .ok n.toNat else .error (.wrongRange n expected))
    | _ => none

/-- Nothing for null, else what the reader reads. -/
def orNull (r : Reader α) : Reader (Option α)
  | .bare (.ok .null) _ :: rest => .ok (.first none _ rest)
  | tokens => (r tokens).map (Reading.map some)

/-- Reads a whole text: nothing but blanks may follow the value. -/
def ofBytes (r : Reader α) (bytes : List UInt8) : Except Fault α := do
  let reading ← r (Token.ofBytes bytes)
  match reading.rest with
  | [] => return reading.value
  | _ :: _ => .error .trailingText

end Reader

end ScriptHost.Json
