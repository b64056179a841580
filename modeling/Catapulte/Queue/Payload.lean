import Catapulte.Domain.Port
import Catapulte.Serde.Dto

namespace Catapulte

structure EnvelopeDto where
  idempotencyKey : Option String
  subject : Option String
  sender : String
  recipients : List RecipientDto
  body : BodySourceDto
  vars : Json.Map
  attachments : List AttachmentRefDto

structure QueuedEmailPayload where
  id : Nat
  correlationId : Option String
  envelope : EnvelopeDto

namespace EnvelopeDto

def serialize (e : EnvelopeDto) : Json :=
  .object [("idempotency_key", .optString e.idempotencyKey), ("subject", .optString e.subject),
    ("sender", .string e.sender), ("recipients", .array (e.recipients.map RecipientDto.serialize)),
    ("body", e.body.serialize), ("variables", .object e.vars.entries),
    ("attachments", .array (e.attachments.map AttachmentRefDto.serialize))]

def deserialize (j : Json) : Option EnvelopeDto := do
  let f ← j.fields 7
  let idempotencyKey ← f.optional 0 "idempotency_key" Json.asString
  let subject ← f.optional 1 "subject" Json.asString
  let sender ← f.required 2 "sender" Json.asString
  let recipients ← f.required 3 "recipients" (Json.asSeq RecipientDto.deserialize)
  let body ← f.required 4 "body" BodySourceDto.deserialize
  let vars ← f.required 5 "variables" Json.asMap
  let attachments ← f.defaulted 6 "attachments" (Json.asSeq AttachmentRefDto.deserialize) []
  pure ⟨idempotencyKey, subject, sender, recipients, body, vars, attachments⟩

/-- Every `size_bytes` is a `u64`. -/
def Fits (e : EnvelopeDto) : Prop := ∀ a ∈ e.attachments, a.Fits

end EnvelopeDto

section

/-! The text and the parser of a `Uuid` and the parser of a `Url` are those of other crates. -/

variable (showUuid : Nat → String) (parseUuid : String → Option Nat) (parseUrl : String → Option Url)

namespace QueuedEmailPayload

def ofEmail (id : EmailId) (envelope : Envelope) : QueuedEmailPayload where
  id := id.uuid
  correlationId := envelope.correlationId
  envelope :=
    ⟨envelope.idempotencyKey, envelope.subject, envelope.sender, recipientsToDto envelope.recipients,
      .ofBodySource envelope.body, envelope.vars,
      envelope.attachments.map AttachmentRefDto.ofAttachmentRef⟩

def tryToEmail (payload : QueuedEmailPayload) : Except String (EmailId × Envelope) := do
  let body ← payload.envelope.body.tryToBodySource parseUrl
  let recipients := recipientsFromDto payload.envelope.recipients
  let attachments := payload.envelope.attachments.map AttachmentRefDto.toAttachmentRef
  pure (⟨payload.id⟩, ⟨payload.envelope.idempotencyKey, payload.correlationId, payload.envelope.subject,
    payload.envelope.sender, recipients, body, payload.envelope.vars, attachments⟩)

def serialize (payload : QueuedEmailPayload) : Json :=
  .object ([("id", .string (showUuid payload.id))] ++
    (payload.correlationId.toList.map fun c => ("correlation_id", .string c)) ++
    [("envelope", payload.envelope.serialize)])

def deserialize (j : Json) : Option QueuedEmailPayload := do
  let f ← j.fields 3
  let id ← f.required 0 "id" fun j => j.asString.bind parseUuid
  let correlationId ← f.defaulted 1 "correlation_id" (Json.nullable Json.asString) none
  let envelope ← f.required 2 "envelope" EnvelopeDto.deserialize
  pure ⟨id, correlationId, envelope⟩

end QueuedEmailPayload

namespace NatsAdapter

/-- The message that `enqueue` publishes. -/
def payload (id : EmailId) (envelope : Envelope) : Json :=
  (QueuedEmailPayload.ofEmail id envelope).serialize showUuid

/-- What `dequeue` makes of the message. -/
def parsePayload (j : Json) : Except EmailQueueError (EmailId × Envelope) :=
  match QueuedEmailPayload.deserialize parseUuid j with
  | none => .error (.storage "deserializing NATS payload")
  | some payload =>
      match payload.tryToEmail parseUrl with
      | .ok email => .ok email
      | .error source => .error (.storage source)

end NatsAdapter

end

theorem EnvelopeDto.deserialize_serialize {e : EnvelopeDto} (h : e.Fits) :
    deserialize e.serialize = some e := by
  have hrecipients := Json.asSeq_array (g := RecipientDto.serialize) (f := id) e.recipients
    fun r _ => RecipientDto.deserialize_serialize r
  have hattachments := Json.asSeq_array (g := AttachmentRefDto.serialize) (f := id) e.attachments
    fun a ha => AttachmentRefDto.deserialize_serialize (h a ha)
  simp [deserialize, serialize, Json.fields, Json.Fields.optional, Json.Fields.required,
    Json.Fields.defaulted, Json.Fields.get, List.lookup_cons, hrecipients, hattachments]

theorem EnvelopeDto.fits_of_deserialize {j : Json} {e : EnvelopeDto} (h : deserialize j = some e) :
    e.Fits := by
  simp only [deserialize, Option.bind_eq_bind, Option.bind_eq_some_iff] at h
  obtain ⟨f, -, _, -, _, -, _, -, _, -, _, -, _, -, attachments, hattachments, h⟩ := h
  cases h
  simp only [Json.Fields.defaulted] at hattachments
  split at hattachments
  · exact Json.forall_of_asSeq (fun _ _ => AttachmentRefDto.fits_of_deserialize) hattachments
  · cases hattachments
    nofun

namespace QueuedEmailPayload

variable {showUuid : Nat → String} {parseUuid : String → Option Nat} {parseUrl : String → Option Url}

theorem deserialize_serialize (huuid : ∀ id, parseUuid (showUuid id) = some id) {p : QueuedEmailPayload}
    (h : p.envelope.Fits) : deserialize parseUuid (p.serialize showUuid) = some p := by
  obtain ⟨id, correlationId, envelope⟩ := p
  cases correlationId <;>
    simp [deserialize, serialize, Json.fields, Json.Fields.required, Json.Fields.defaulted,
      Json.Fields.get, List.lookup_cons, Json.nullable, huuid, EnvelopeDto.deserialize_serialize h]

theorem tryToEmail_ofEmail (hurl : ∀ u, parseUrl u.text = some u) (id : EmailId) (envelope : Envelope) :
    (ofEmail id envelope).tryToEmail parseUrl = .ok (id, envelope) := by
  have hattachments : (envelope.attachments.map AttachmentRefDto.ofAttachmentRef).map
      AttachmentRefDto.toAttachmentRef = envelope.attachments := by
    rw [List.map_map]
    exact List.map_id'' (fun _ => rfl) _
  simp [tryToEmail, ofEmail, tryToBodySource_ofBodySource hurl, hattachments, bind, Except.bind, pure, Except.pure]

theorem fits_of_tryToEmail {p : QueuedEmailPayload} (h : p.envelope.Fits) {id : EmailId}
    {envelope : Envelope} (hp : p.tryToEmail parseUrl = .ok (id, envelope)) :
    (ofEmail id envelope).envelope.Fits := by
  simp only [tryToEmail, bind, Except.bind, pure, Except.pure] at hp
  split at hp
  · cases hp
  · cases hp
    intro a ha
    obtain ⟨b, hb, rfl⟩ := List.mem_map.mp ha
    obtain ⟨dto, hdto, rfl⟩ := List.mem_map.mp hb
    exact h dto hdto

end QueuedEmailPayload

namespace NatsAdapter

variable {showUuid : Nat → String} {parseUuid : String → Option Nat} {parseUrl : String → Option Url}

theorem parsePayload_payload (huuid : ∀ id, parseUuid (showUuid id) = some id)
    (hurl : ∀ u, parseUrl u.text = some u) {id : EmailId} {envelope : Envelope}
    (h : (QueuedEmailPayload.ofEmail id envelope).envelope.Fits) :
    parsePayload parseUuid parseUrl (payload showUuid id envelope) = .ok (id, envelope) := by
  rw [parsePayload, payload, QueuedEmailPayload.deserialize_serialize huuid h]
  simp only [QueuedEmailPayload.tryToEmail_ofEmail hurl]

/-- What a payload without the members `correlation_id` and `attachments` is. -/
def olderPayload (showUuid : Nat → String) (id : EmailId) (envelope : Envelope) : Json :=
  let e := (QueuedEmailPayload.ofEmail id envelope).envelope
  .object [("id", .string (showUuid id.uuid)), ("envelope", .object [
    ("idempotency_key", .optString e.idempotencyKey), ("subject", .optString e.subject),
    ("sender", .string e.sender), ("recipients", .array (e.recipients.map RecipientDto.serialize)),
    ("body", e.body.serialize), ("variables", .object e.vars.entries)])]

theorem parsePayload_older (huuid : ∀ id, parseUuid (showUuid id) = some id)
    (hurl : ∀ u, parseUrl u.text = some u) (id : EmailId) (envelope : Envelope) :
    parsePayload parseUuid parseUrl (olderPayload showUuid id envelope) =
      .ok (id, { envelope with correlationId := none, attachments := [] }) := by
  have hrecipients := Json.asSeq_array (g := RecipientDto.serialize) (f := fun r => r)
    (recipientsToDto envelope.recipients) fun r _ => RecipientDto.deserialize_serialize r
  have hd : QueuedEmailPayload.deserialize parseUuid (olderPayload showUuid id envelope) =
      some (.ofEmail id { envelope with correlationId := none, attachments := [] }) := by
    simp [QueuedEmailPayload.deserialize, olderPayload, QueuedEmailPayload.ofEmail,
      EnvelopeDto.deserialize, Json.fields, Json.Fields.optional, Json.Fields.required,
      Json.Fields.defaulted, Json.Fields.get, List.lookup_cons, huuid, hrecipients]
  rw [parsePayload, hd]
  simp only [QueuedEmailPayload.tryToEmail_ofEmail hurl]

/-- An email comes back from its message as it was, and so does the email of every
message that can be read, an older one included. -/
theorem payload_round_trip (huuid : ∀ id, parseUuid (showUuid id) = some id)
    (hurl : ∀ u, parseUrl u.text = some u) :
    (∀ id envelope, (∀ a ∈ envelope.attachments, a.sizeBytes < 2 ^ 64) →
      parsePayload parseUuid parseUrl (payload showUuid id envelope) = .ok (id, envelope)) ∧
    (∀ j id envelope, parsePayload parseUuid parseUrl j = .ok (id, envelope) →
      parsePayload parseUuid parseUrl (payload showUuid id envelope) = .ok (id, envelope)) ∧
    (∀ j p, QueuedEmailPayload.deserialize parseUuid j = some p →
      QueuedEmailPayload.deserialize parseUuid (p.serialize showUuid) = some p) ∧
    ∀ id envelope, parsePayload parseUuid parseUrl (olderPayload showUuid id envelope) =
      .ok (id, { envelope with correlationId := none, attachments := [] }) := by
  have hfits : ∀ {j p}, QueuedEmailPayload.deserialize parseUuid j = some p → p.envelope.Fits := by
    intro j p hp
    simp only [QueuedEmailPayload.deserialize, Option.bind_eq_bind, Option.bind_eq_some_iff] at hp
    obtain ⟨f, -, _, -, _, -, e, he, hp⟩ := hp
    cases hp
    obtain ⟨j, -, hj⟩ := Option.bind_eq_some_iff.mp he
    exact EnvelopeDto.fits_of_deserialize hj
  refine ⟨fun id envelope h => ?_, fun j id envelope h => ?_, fun j p hp => ?_, ?_⟩
  · refine parsePayload_payload huuid hurl fun a ha => ?_
    obtain ⟨b, hb, rfl⟩ := List.mem_map.mp ha
    exact h b hb
  · unfold parsePayload at h
    split at h
    · cases h
    · rename_i p hp
      split at h <;> cases h
      rename_i hok
      exact parsePayload_payload huuid hurl (QueuedEmailPayload.fits_of_tryToEmail (hfits hp) hok)
  · exact QueuedEmailPayload.deserialize_serialize huuid (hfits hp)
  · exact parsePayload_older huuid hurl

/-- The text of the uuid 1, and some other text for every other uuid. -/
def sampleShow (id : Nat) : String :=
  if id = 1 then "00000000-0000-0000-0000-000000000001" else String.ofList (List.replicate id 'x')

def sampleParse (s : String) : Option Nat :=
  if s = "00000000-0000-0000-0000-000000000001" then some 1 else some s.toList.length

theorem sampleParse_sampleShow (id : Nat) : sampleParse (sampleShow id) = some id := by
  by_cases h : id = 1
  · subst h
    rfl
  · rw [sampleShow, if_neg h, sampleParse, if_neg, String.toList_ofList, List.length_replicate]
    intro heq
    have hlist := congrArg String.toList heq
    rw [String.toList_ofList] at hlist
    cases id with
    | zero => cases hlist
    | succ id => exact absurd (List.cons.inj hlist).1 (by decide)

def sampleEnvelope : Envelope where
  idempotencyKey := some "order-1"
  correlationId := some "request-7"
  subject := none
  sender := "a@example.com"
  recipients := [(.cc, "b@example.com"), (.to, "c@example.com")]
  body := .mjml (.remote ⟨"https://example.com/t.mjml"⟩)
  vars := .single "n" (.number 3)
  attachments := [⟨"f.pdf", "application/pdf", 12, ⟨"fs", "k"⟩⟩]

theorem sampleEnvelope_round_trip :
    parsePayload sampleParse (fun s => some ⟨s⟩) (payload sampleShow ⟨1⟩ sampleEnvelope) =
      .ok (⟨1⟩, sampleEnvelope) :=
  (payload_round_trip sampleParse_sampleShow fun _ => rfl).1 _ _ (by decide)

end NatsAdapter

end Catapulte
