import ScriptHost.Item
import ScriptHost.Proofs.Http.Messages

/-!
# Bodies of messages

A body that is text comes through to the data as it is, with its length in bytes beside it; any other body
refuses the message, and the refusal says which item it was and where its text breaks off.

* **`body_kept_or_located`**: this holds of requests and of responses, and two messages with one body agree on
  it, be they requests or responses.
-/

namespace ScriptHost.Http

namespace Message

/-- The message as an item that is written into a context. -/
def item : Message → Item
  | .request r => .request r
  | .response r => .response r

/-- Whose body a refusal names. -/
def owner : Message → BodyOwner
  | .request _ => .request
  | .response _ => .response

/-- The data hold the body as a text, and its length in bytes. -/
def HoldsBody (m : Message) (data : DataMap) : Prop :=
  (∃ text, data.get? "Body" = some (.string text) ∧ Utf8.ofString text = m.body) ∧
    data.get? "ContentLength" = some (.ofNat m.body.length)

/-- Either the data hold the body, or the fault locates the place where its text breaks off. -/
theorem holdsBody_or_located (m : Message) :
    (∃ data, m.toData = .ok data ∧ m.HoldsBody data) ∨
    ¬ Utf8.WellFormed m.body ∧ ∃ fault, m.toData = .error fault ∧ fault.Locates m.body := by
  obtain ⟨body, hbody, hok⟩ | hill := m.toData_cases
  · exact .inl ⟨_, hok, ⟨body, m.get?_body body, hbody⟩, m.get?_contentLength body⟩
  · exact .inr hill

/-- An item is refused for its body exactly if it cannot be made into data, with the same fault and at its own
position. -/
theorem classify_eq_error_iff {m : Message} {position : Nat} {fault : Utf8.Fault} :
    m.item.classify position = .error (.invalidBody position m.owner fault) ↔ m.toData = .error fault := by
  cases m with
  | request r =>
    simp only [item, owner, toData, Item.classify]
    cases r.toData <;> simp
  | response r =>
    simp only [item, owner, toData, Item.classify]
    cases r.toData <;> simp

/-- A body that is text is kept, and any other is refused with the place where its text breaks off. -/
structure KeepsBody (m : Message) : Prop where
  ok_iff : (∃ data, m.toData = .ok data) ↔ Utf8.WellFormed m.body
  holds : ∀ data, m.toData = .ok data → m.HoldsBody data
  refused : ¬ Utf8.WellFormed m.body →
    ∃ fault, fault.Locates m.body ∧ ∀ position,
      m.item.classify position = .error (.invalidBody position m.owner fault)

/-- **Every message keeps its body or is refused for it.** The two cases of `holdsBody_or_located` exclude each
other, since what is held is a text. -/
theorem keepsBody (m : Message) : m.KeepsBody := by
  obtain ⟨data, hok, hholds⟩ | ⟨hill, fault, herror, hlocates⟩ := m.holdsBody_or_located
  · have hwell : Utf8.WellFormed m.body := by
      obtain ⟨⟨text, -, hbody⟩, -⟩ := hholds
      exact ⟨text.toList, hbody⟩
    refine ⟨⟨fun _ => hwell, fun _ => ⟨data, hok⟩⟩, fun data' hok' => ?_, fun hill => absurd hwell hill⟩
    rw [hok] at hok'
    cases hok'
    exact hholds
  · have hrefused (data : DataMap) : m.toData ≠ .ok data := by
      rw [herror]
      nofun
    exact ⟨⟨fun ⟨data, hok⟩ => absurd hok (hrefused data), fun hwell => absurd hwell hill⟩,
      fun data hok => absurd hok (hrefused data),
      fun _ => ⟨fault, hlocates, fun _ => classify_eq_error_iff.mpr herror⟩⟩

/-- Two messages treat their bodies alike. -/
structure AgreesOnBody (m n : Message) : Prop where
  ok_iff : (∃ data, m.toData = .ok data) ↔ ∃ data, n.toData = .ok data
  body : ∀ data data', m.toData = .ok data → n.toData = .ok data' → data.get? "Body" = data'.get? "Body"
  length : ∀ data data', m.toData = .ok data → n.toData = .ok data' →
    data.get? "ContentLength" = data'.get? "ContentLength"
  error_iff : ∀ fault, m.toData = .error fault ↔ n.toData = .error fault
  refused_iff : ∀ position fault,
    m.item.classify position = .error (.invalidBody position m.owner fault) ↔
      n.item.classify position = .error (.invalidBody position n.owner fault)

/-- **Messages with one body agree on it.** Both decode the same bytes, and a text is determined by its bytes. -/
theorem agreesOnBody {m n : Message} (h : m.body = n.body) : m.AgreesOnBody n := by
  have herror (fault : Utf8.Fault) : m.toData = .error fault ↔ n.toData = .error fault := by
    rw [toData_eq_error_iff, toData_eq_error_iff, h]
  -- data agree because both hold the body, and faults because `toData` asks the body only
  refine ⟨by rw [m.keepsBody.ok_iff, n.keepsBody.ok_iff, h], fun data data' hm hn => ?_,
    fun data data' hm hn => ?_, herror, fun position fault => ?_⟩
  · obtain ⟨⟨text, hdata, htext⟩, -⟩ := m.keepsBody.holds data hm
    obtain ⟨⟨text', hdata', htext'⟩, -⟩ := n.keepsBody.holds data' hn
    have : text = text' := Utf8.ofString_inj.mp (by rw [htext, htext', h])
    rw [hdata, hdata', this]
  · rw [(m.keepsBody.holds data hm).2, (n.keepsBody.holds data' hn).2, h]
  · rw [classify_eq_error_iff, classify_eq_error_iff, herror]

end Message

/-- **Bodies come through or are refused with their place.** The data of a message hold its body byte for byte,
or the message is refused where the text of its body breaks off, and messages with one body agree on all of it. -/
theorem body_kept_or_located :
    (∀ m : Message, m.KeepsBody) ∧ ∀ m n : Message, m.body = n.body → m.AgreesOnBody n :=
  ⟨Message.keepsBody, fun _ _ => Message.agreesOnBody⟩

/-- A letter of two bytes, and then a surrogate, which no text has. -/
def surrogateBody : List UInt8 := [0xC3, 0xA9, 0xED, 0xA0, 0x80]

def surrogateRequest : Message := .request ⟨"PUT", ⟨none, none, ['/'], none⟩, .v11, [], surrogateBody⟩

def surrogateResponse : Message := .response ⟨⟨422, by decide, by decide⟩, .v11, [], surrogateBody⟩

/-- Both are refused behind the letter, since the first byte of the surrogate cannot be completed. -/
theorem body_kept_or_located_surrogateBody :
    surrogateRequest.body = surrogateResponse.body ∧
      surrogateRequest.item.classify 3 = .error (.invalidBody 3 .request ⟨2, some 1⟩) ∧
      surrogateResponse.item.classify 3 = .error (.invalidBody 3 .response ⟨2, some 1⟩) := by
  have hagree := body_kept_or_located.2 surrogateRequest surrogateResponse rfl
  have hrefused : surrogateRequest.item.classify 3 = .error (.invalidBody 3 .request ⟨2, some 1⟩) :=
    Message.classify_eq_error_iff.mpr (Message.toData_eq_error_iff.mpr rfl)
  exact ⟨rfl, hrefused, (hagree.refused_iff 3 _).mp hrefused⟩

end ScriptHost.Http
