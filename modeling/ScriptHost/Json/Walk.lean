import ScriptHost.Json.Token

/-!
# Walking over a value

A value of any depth is taken from the front of a list of tokens without recursion on its depth: the
containers that are still open form a stack, and each token takes the walk from one state to the next or
completes it. What becomes of the parts is left to a `Plan`: `building` builds the value, and `Walk.skipping`
only makes sure that there is one.
-/

namespace ScriptHost.Json

/-- What a walk makes of the parts of a value. -/
structure Plan (κ α : Type) where
  key : Except Fault String → Except Fault Unit → Except Fault κ
  text : Except Fault String → Except Fault Unit → Except Fault α
  bare : Except Fault Scalar → Except Fault Unit → Except Fault α
  list : List α → α
  map : List (κ × α) → α

namespace Walk

variable {κ α : Type}

/-- A container that waits for a value: the parts so far, the latest first, and the key in an object. -/
inductive Frame (κ α : Type) where
  | list (done : List α)
  | map (done : List (κ × α)) (key : κ)

/-- What may come next, inside the open containers. -/
inductive State (κ α : Type) where
  | value (stack : List (Frame κ α))
  | listStart (stack : List (Frame κ α))
  | afterItem (done : List α) (stack : List (Frame κ α))
  | mapStart (stack : List (Frame κ α))
  | key (done : List (κ × α)) (stack : List (Frame κ α))
  | colon (done : List (κ × α)) (key : κ) (stack : List (Frame κ α))
  | afterMember (done : List (κ × α)) (stack : List (Frame κ α))

/-- What is missing when the text ends here. -/
def State.endFault : State κ α → Fault
  | .value _ => .endInValue
  | .listStart _ | .afterItem _ _ => .endInList
  | .mapStart _ | .key _ _ | .colon _ _ _ | .afterMember _ _ => .endInObject

/-- A value is complete: the walk is done, or goes on in the container that waited for it. -/
def complete (v : α) : List (Frame κ α) → State κ α ⊕ α
  | [] => .inr v
  | .list done :: stack => .inl (.afterItem (v :: done) stack)
  | .map done key :: stack => .inl (.afterMember ((key, v) :: done) stack)

def startValue (plan : Plan κ α) (stack : List (Frame κ α)) : Token → Except Fault (State κ α ⊕ α)
  | .openObject => .ok (.inl (.mapStart stack))
  | .openArray => .ok (.inl (.listStart stack))
  | .string read skip => (plan.text read skip).map (complete · stack)
  | .bare read skip => (plan.bare read skip).map (complete · stack)
  | .closeObject | .closeArray | .colon | .comma | .stray => .error .valueExpected

def startMember (plan : Plan κ α) (done : List (κ × α)) (stack : List (Frame κ α)) :
    Token → Except Fault (State κ α ⊕ α)
  | .string read skip => (plan.key read skip).map fun key => .inl (.colon done key stack)
  | _ => .error .keyExpected

def step (plan : Plan κ α) : State κ α → Token → Except Fault (State κ α ⊕ α)
  | .value stack, t => startValue plan stack t
  | .listStart stack, .closeArray => .ok (complete (plan.list []) stack)
  | .listStart stack, t => startValue plan (.list [] :: stack) t
  | .afterItem done stack, .closeArray => .ok (complete (plan.list done.reverse) stack)
  | .afterItem done stack, .comma => .ok (.inl (.value (.list done :: stack)))
  | .afterItem _ _, _ => .error .listCommaExpected
  | .mapStart stack, .closeObject => .ok (complete (plan.map []) stack)
  | .mapStart stack, t => startMember plan [] stack t
  | .key done stack, t => startMember plan done stack t
  | .colon done key stack, .colon => .ok (.inl (.value (.map done key :: stack)))
  | .colon _ _ _, _ => .error .colonExpected
  | .afterMember done stack, .closeObject => .ok (complete (plan.map done.reverse) stack)
  | .afterMember done stack, .comma => .ok (.inl (.key done stack))
  | .afterMember _ _, _ => .error .objectCommaExpected

/-- Walks to the end of the value and leaves what follows it. -/
def run (plan : Plan κ α) : State κ α → List Token → Except Fault (α × List Token)
  | state, [] => .error state.endFault
  | state, t :: rest =>
    match step plan state t with
    | .error fault => .error fault
    | .ok (.inr v) => .ok (v, rest)
    | .ok (.inl next) => run plan next rest

/-- A walk that ends well has taken at least one token. Induction along its steps. -/
theorem length_run_lt {plan : Plan κ α} {state : State κ α} {tokens rest : List Token} {v : α}
    (h : run plan state tokens = .ok (v, rest)) : rest.length < tokens.length := by
  fun_induction run plan state tokens with
  | case1 | case2 => cases h
  | case3 => cases h; simp
  | case4 =>
    rename_i ih
    have := ih h
    rw [List.length_cons]; omega

/-- Passes over a value and asks for no more than its form. -/
def skipping : Plan Unit Unit where
  key _ skip := skip
  text _ skip := skip
  bare _ skip := skip
  list _ := ()
  map _ := ()

end Walk

def Scalar.toValue : Scalar → Value
  | .null => .null
  | .bool b => .bool b
  | .number n => .number n
  | .string s => .string s

/-- Builds the value; of two members with one key the later counts. -/
def building : Plan String Value where
  key read _ := read
  text read _ := read.map .string
  bare read _ := read.map Scalar.toValue
  list items := .list items
  map members := .map (Entries.ofList members)

def valueOfBytes (bytes : List UInt8) : Except Fault Value :=
  match Walk.run building (.value []) (Token.ofBytes bytes) with
  | .error fault => .error fault
  | .ok (v, []) => .ok v
  | .ok (_, _ :: _) => .error .trailingText

end ScriptHost.Json
