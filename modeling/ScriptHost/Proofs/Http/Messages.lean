import ScriptHost.Http.Message
import ScriptHost.Proofs.Text.Decoding

/-!
# Messages from their parts, and messages as data

A message is put together only if every part of it passes its check, and it then holds the parts as they were
given, apart from the names of headers, which are kept in lower case (`RequestSpec.build_eq_ok_iff`,
`ResponseSpec.build_eq_ok_iff`). It can be laid out as data exactly if its body is text, and the data are then
its fields with that text (`Message.toData_cases`).
-/

namespace ScriptHost

/-- Steps that may fail succeed together exactly if each of them does. Everything that is put together in steps
is taken apart with this. -/
theorem bind_eq_ok_iff {ε α β : Type} {x : Except ε α} {f : α → Except ε β} {b : β} :
    (x >>= f) = .ok b ↔ ∃ a, x = .ok a ∧ f a = .ok b := by
  cases x with
  | error e => exact ⟨nofun, nofun⟩
  | ok a => exact ⟨fun h => ⟨a, rfl, h⟩, fun ⟨_, ha, hb⟩ => Except.ok.inj ha ▸ hb⟩

namespace Http

/-! ## Building

A specification of a message is a list of parts that are checked one after the other. What is said of a message
that was built is said of its parts. -/

namespace Header

/-- A line as it is kept. -/
def ofLine (line : String × List UInt8) : Header := ⟨line.1.toLower, line.2⟩

/-- A line passes both of its checks, for its value and for its name. -/
def lineAccepted (line : String × List UInt8) : Bool := line.2.all isValueByte && isName line.1

/-- A line is accepted or refused, and if it is accepted only the case of its name is lost. -/
theorem build_eq_ok_iff {line : String × List UInt8} {h : Header} :
    build line = .ok h ↔ lineAccepted line = true ∧ h = ofLine line := by
  unfold build lineAccepted ofLine
  cases line.2.all isValueByte <;> cases isName line.1 <;> simp [eq_comm]

/-- All lines are accepted, or there are no headers. Induction on the lines. -/
theorem mapM_build_eq_ok_iff {lines : List (String × List UInt8)} {headers : List Header} :
    lines.mapM build = .ok headers ↔ lines.all lineAccepted = true ∧ headers = lines.map ofLine := by
  induction lines generalizing headers with
  | nil => simp [pure, Except.pure, eq_comm]
  | cons line rest ih =>
    rw [List.mapM_cons, bind_eq_ok_iff]
    constructor
    · rintro ⟨h, hline, hrest⟩
      obtain ⟨others, hothers, hheaders⟩ := bind_eq_ok_iff.mp hrest
      obtain ⟨haccepted, rfl⟩ := build_eq_ok_iff.mp hline
      obtain ⟨hacceptedRest, rfl⟩ := ih.mp hothers
      cases hheaders
      exact ⟨by simp [haccepted, hacceptedRest], rfl⟩
    · rintro ⟨haccepted, rfl⟩
      rw [List.all_cons, Bool.and_eq_true] at haccepted
      have hrest := ih.mpr ⟨haccepted.2, rfl⟩
      exact ⟨_, build_eq_ok_iff.mpr ⟨haccepted.1, rfl⟩, bind_eq_ok_iff.mpr ⟨_, hrest, rfl⟩⟩

end Header

/-- **What a request is built from.** The three checks are made in this order, and what passes them is kept. -/
theorem RequestSpec.build_eq_ok_iff {spec : RequestSpec} {r : Request} :
    spec.build = .ok r ↔
      isMethod spec.method = true ∧ spec.headers.all Header.lineAccepted = true ∧
        ∃ uri, Uri.parse spec.uri.toList = .ok uri ∧
          r = ⟨spec.method, uri, spec.version, spec.headers.map Header.ofLine, spec.body⟩ := by
  unfold build
  cases isMethod spec.method with
  | false => exact ⟨nofun, nofun⟩
  | true =>
    show (((Uri.parse spec.uri.toList).mapError Fault.badUri >>= fun uri =>
      spec.headers.mapM Header.build >>= fun headers => pure _) = .ok r) ↔ _
    cases Uri.parse spec.uri.toList with
    | error fault => exact ⟨nofun, nofun⟩
    | ok uri =>
      show (spec.headers.mapM Header.build >>= fun headers => pure _) = .ok r ↔ _
      simp only [bind_eq_ok_iff, Header.mapM_build_eq_ok_iff, Except.ok.injEq]
      constructor
      · rintro ⟨_, ⟨haccepted, rfl⟩, h⟩
        cases h
        exact ⟨trivial, haccepted, uri, rfl, rfl⟩
      · rintro ⟨-, haccepted, _, rfl, rfl⟩
        exact ⟨_, ⟨haccepted, rfl⟩, rfl⟩

/-- **What a response is built from.** A status within its bounds, and lines that are accepted. -/
theorem ResponseSpec.build_eq_ok_iff {spec : ResponseSpec} {r : Response} :
    spec.build = .ok r ↔
      spec.headers.all Header.lineAccepted = true ∧
        ∃ status, Status.ofNat? spec.status = some status ∧
          r = ⟨status, spec.version, spec.headers.map Header.ofLine, spec.body⟩ := by
  unfold build
  cases Status.ofNat? spec.status with
  | none => simp
  | some status =>
    simp only [bind_eq_ok_iff, Header.mapM_build_eq_ok_iff, Option.some.injEq]
    constructor
    · rintro ⟨_, ⟨haccepted, rfl⟩, h⟩
      cases h
      exact ⟨haccepted, status, rfl, rfl⟩
    · rintro ⟨haccepted, _, rfl, rfl⟩
      exact ⟨_, ⟨haccepted, rfl⟩, rfl⟩

/-! ## Messages as data

Requests and responses differ in their fields only, so what they share is said of messages. -/

/-- A request or a response. -/
inductive Message where
  | request (r : Request)
  | response (r : Response)

namespace Message

def headers : Message → List Header
  | .request r => r.headers
  | .response r => r.headers

def body : Message → List UInt8
  | .request r => r.body
  | .response r => r.body

/-- The fields of either kind, with the text of the body given. -/
def fields (m : Message) (body : String) : List (String × Value) :=
  match m with
  | .request r => r.fields body
  | .response r => r.fields body

def toData : Message → Except Utf8.Fault DataMap
  | .request r => r.toData
  | .response r => r.toData

/-- Both kinds are laid out in one way. -/
theorem toData_eq (m : Message) :
    m.toData = (Utf8.decodeString m.body).map fun body => Entries.ofList (m.fields body) := by
  cases m with
  | request r =>
    simp only [toData, body, Request.toData]
    cases Utf8.decodeString r.body <;> rfl
  | response r =>
    simp only [toData, body, Response.toData]
    cases Utf8.decodeString r.body <;> rfl

/-- **A message becomes data, or its body is no text.** In the first case the data are the fields with the text
of the body, in the second the fault says where the text breaks off. -/
theorem toData_cases (m : Message) :
    (∃ body, Utf8.ofString body = m.body ∧ m.toData = .ok (Entries.ofList (m.fields body))) ∨
    ¬ Utf8.WellFormed m.body ∧ ∃ fault, m.toData = .error fault ∧ fault.Locates m.body := by
  rw [toData_eq]
  obtain ⟨body, hbody, hok⟩ | ⟨hill, fault, herror, hlocates⟩ := Utf8.decodeString_cases m.body
  · exact .inl ⟨body, hbody, by rw [hok]; rfl⟩
  · exact .inr ⟨hill, fault, by rw [herror]; rfl, hlocates⟩

/-- The only way in which a message can fail to be data is that its body cannot be decoded. -/
theorem toData_eq_error_iff {m : Message} {fault : Utf8.Fault} :
    m.toData = .error fault ↔ Utf8.decodeString m.body = .error fault := by
  rw [toData_eq]
  cases Utf8.decodeString m.body <;> simp [Except.map]

/-! Fields that both kinds have. -/

theorem get?_header (m : Message) (body : String) :
    (Entries.ofList (m.fields body)).get? "Header" = some (.map (Header.toData m.headers)) := by
  rw [Entries.get?_ofList]
  cases m <;> rfl

theorem get?_body (m : Message) (body : String) :
    (Entries.ofList (m.fields body)).get? "Body" = some (.string body) := by
  rw [Entries.get?_ofList]
  cases m <;> rfl

/-- The length is that of the bytes and not that of the text. -/
theorem get?_contentLength (m : Message) (body : String) :
    (Entries.ofList (m.fields body)).get? "ContentLength" = some (.ofNat m.body.length) := by
  rw [Entries.get?_ofList]
  cases m <;> rfl

end Message

end Http

end ScriptHost
