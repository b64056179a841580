import Catapulte.Serde.Dto
import Catapulte.Storage.Adapters

namespace Catapulte

structure EnvelopeBodyDto where
  source : BodySourceDto
  attachments : List AttachmentRefDto

def EnvelopeBodyDto.serialize (b : EnvelopeBodyDto) : Json :=
  .object [("source", b.source.serialize),
    ("attachments", .array (b.attachments.map AttachmentRefDto.serialize))]

inductive EnvelopeBodyDtoDeser
  | withAttachments (source : BodySourceDto) (attachments : List AttachmentRefDto)
  | legacy (source : BodySourceDto)

namespace EnvelopeBodyDtoDeser

def withAttachments? (j : Json) : Option EnvelopeBodyDtoDeser := do
  let f ← j.variantFields
  let source ← f.required 0 "source" BodySourceDto.deserialize
  let attachments ← f.defaulted 1 "attachments" (Json.asSeq AttachmentRefDto.deserialize) []
  pure (withAttachments source attachments)

/-- Untagged: the first variant that fits. -/
def deserialize (j : Json) : Option EnvelopeBodyDtoDeser :=
  withAttachments? j <|> (BodySourceDto.deserialize j).map legacy

def split : EnvelopeBodyDtoDeser → BodySourceDto × List AttachmentRefDto
  | withAttachments source attachments => (source, attachments)
  | legacy source => (source, [])

end EnvelopeBodyDtoDeser

/-- The columns of a row of `emails`. -/
structure EmailColumns where
  id : EmailId
  idempotencyKey : Option String
  correlationId : Option String
  subject : Option String
  sender : String
  recipients : Json
  body : Json
  vars : Json

/-- The columns that `save` binds. -/
def EmailColumns.ofEnvelope (id : EmailId) (envelope : Envelope) : EmailColumns where
  id := id
  idempotencyKey := envelope.idempotencyKey
  correlationId := envelope.correlationId
  subject := envelope.subject
  sender := envelope.sender
  recipients := .array ((recipientsToDto envelope.recipients).map RecipientDto.serialize)
  body := EnvelopeBodyDto.serialize
    ⟨.ofBodySource envelope.body, envelope.attachments.map AttachmentRefDto.ofAttachmentRef⟩
  vars := .object envelope.vars.entries

/-- `parse_envelope` of both adapters, where `parseUrl` is the parser of the `url` crate. -/
def parseEnvelope (parseUrl : String → Option Url) (row : EmailColumns) : Except String Envelope := do
  let some bodyDeser := EnvelopeBodyDtoDeser.deserialize row.body | .error "reading body"
  let (bodyDto, attachmentDtos) := bodyDeser.split
  let .ok body := bodyDto.tryToBodySource parseUrl | .error "deserializing body"
  let attachments := attachmentDtos.map AttachmentRefDto.toAttachmentRef
  let some recipients := Json.asSeq RecipientDto.deserialize row.recipients | .error "reading recipients"
  let some vars := row.vars.asMap | .error "reading variables"
  pure ⟨row.idempotencyKey, row.correlationId, row.subject, row.sender, recipientsFromDto recipients, body,
    vars, attachments⟩

abbrev EmailTable := List EmailColumns

def EmailTable.find (table : EmailTable) (id : EmailId) : Option EmailColumns :=
  table.find? fun row => row.id = id

/-- `fetch_optional` of the row, and its decoding. -/
def EmailTable.fetchForDequeue (table : EmailTable) (parseUrl : String → Option Url) (id : EmailId) :
    Except EmailQueueError (Option (EmailId × Envelope)) :=
  match table.find id with
  | none => .ok none
  | some row =>
      match parseEnvelope parseUrl row with
      | .ok envelope => .ok (some (row.id, envelope))
      | .error source => .error (.storage source)

namespace StorageAdapter

/-- The insert of `save`: the new table and the number of inserted rows. -/
def insertRow (table : EmailTable) (row : EmailColumns) : StorageAdapter → Option (EmailTable × Nat)
  | sqlite =>
      if table.any fun r => r.id = row.id ∨ (row.idempotencyKey.isSome ∧ r.idempotencyKey = row.idempotencyKey)
      then some (table, 0) else some (table ++ [row], 1)
  | postgres =>
      if table.any fun r => row.idempotencyKey.isSome ∧ r.idempotencyKey = row.idempotencyKey
      then some (table, 0)
      else if table.any fun r => r.id = row.id then none else some (table ++ [row], 1)

def saveRow (a : StorageAdapter) (table : EmailTable) (id : EmailId) (envelope : Envelope) :
    EmailTable × Except EmailRepositoryError SaveResult :=
  match a.insertRow table (.ofEnvelope id envelope) with
  | none => (table, .error (.storage "inserting email"))
  | some (table', affected) =>
      if affected = 1 then (table', .ok (.created id))
      else
        match envelope.idempotencyKey with
        | none => (table', .error (.storage
            "insert skipped with no idempotency key (unexpected id collision)"))
        | some key =>
            match table'.find? fun row => row.idempotencyKey = some key with
            | some row => (table', .ok (.duplicate row.id))
            | none => (table', .error (.storage "fetching existing email by idempotency key"))

end StorageAdapter

/-- The statements of `set_attachments`. -/
inductive SetAttachmentsStatement
  | start
  | read
  | write
  | commit

namespace EmailTable

def setBody (table : EmailTable) (id : EmailId) (body : Json) : EmailTable :=
  table.map fun row => if row.id = id then { row with body } else row

def notFound (id : EmailId) : EmailRepositoryError :=
  .storage s!"email not found for set_attachments: id={id.uuid}"

/-- `set_attachments` of both adapters; `fails` are the statements that return an
error. A transaction that does not commit changes nothing, but a `COMMIT` whose reply is
lost `lands`. -/
def setAttachments (table : EmailTable) (fails : SetAttachmentsStatement → Bool) (id : EmailId)
    (attachments : List AttachmentRef) (lands : Bool := false) : EmailTable × Except EmailRepositoryError Unit :=
  if fails .start then (table, .error (.storage "starting transaction"))
  else if fails .read then (table, .error (.storage "reading body for set_attachments"))
  else
    match table.find id with
    | none => (table, .error (notFound id))
    | some row =>
        match EnvelopeBodyDtoDeser.deserialize row.body with
        | none => (table, .error (.storage "reading body for set_attachments"))
        | some existingBody =>
            let source := existingBody.split.1
            let newBody : EnvelopeBodyDto := ⟨source, attachments.map AttachmentRefDto.ofAttachmentRef⟩
            if fails .write then (table, .error (.storage "writing body for set_attachments"))
            else if (table.filter fun row => row.id = id).length = 0 then (table, .error (notFound id))
            else if fails .commit then
              (if lands then table.setBody id newBody.serialize else table,
                .error (.storage "committing set_attachments transaction"))
            else (table.setBody id newBody.serialize, .ok ())

end EmailTable

namespace EnvelopeBodyDtoDeser

theorem deserialize_serialize {b : EnvelopeBodyDto} (h : ∀ a ∈ b.attachments, a.Fits) :
    deserialize b.serialize = some (withAttachments b.source b.attachments) := by
  have hattachments := Json.asSeq_array (g := AttachmentRefDto.serialize) (f := id) b.attachments
    fun a ha => AttachmentRefDto.deserialize_serialize (h a ha)
  simp [deserialize, withAttachments?, EnvelopeBodyDto.serialize, Json.variantFields, Json.Fields.required,
    Json.Fields.defaulted, Json.Fields.get, List.lookup_cons, hattachments]

/-- The bare shape is never taken for the other one: the `source` of an inline
template is a string, which is no body. -/
theorem deserialize_legacy (source : BodySourceDto) : deserialize source.serialize = some (legacy source) := by
  have hnone : withAttachments? source.serialize = none := by cases source <;> rfl
  rw [deserialize, hnone, BodySourceDto.deserialize_serialize]
  rfl

end EnvelopeBodyDtoDeser

variable {parseUrl : String → Option Url}

theorem parseEnvelope_eq (hurl : ∀ u, parseUrl u.text = some u) {row : EmailColumns} {body : BodySource}
    {bodyDeser : EnvelopeBodyDtoDeser} {recipients : List (RecipientKind × String)}
    {vars : Json.Map} (hbody : EnvelopeBodyDtoDeser.deserialize row.body = some bodyDeser)
    (hsource : bodyDeser.split.1 = .ofBodySource body)
    (hrecipients : row.recipients = .array ((recipientsToDto recipients).map RecipientDto.serialize))
    (hvars : row.vars = .object vars.entries) :
    parseEnvelope parseUrl row = .ok ⟨row.idempotencyKey, row.correlationId, row.subject, row.sender,
      recipients, body, vars, bodyDeser.split.2.map AttachmentRefDto.toAttachmentRef⟩ := by
  have hr := Json.asSeq_array (g := RecipientDto.serialize) (f := fun r => r)
    (recipientsToDto recipients) fun r _ => RecipientDto.deserialize_serialize r
  rw [List.map_id'] at hr
  simp [parseEnvelope, hbody, hsource, hrecipients, hvars, tryToBodySource_ofBodySource hurl, hr]
  rfl

theorem parseEnvelope_setBody {row : EmailColumns} {envelope : Envelope}
    {bodyDeser newDeser : EnvelopeBodyDtoDeser} {body : Json}
    (h : parseEnvelope parseUrl row = .ok envelope)
    (hbody : EnvelopeBodyDtoDeser.deserialize row.body = some bodyDeser)
    (hnew : EnvelopeBodyDtoDeser.deserialize body = some newDeser)
    (hsource : newDeser.split.1 = bodyDeser.split.1) :
    parseEnvelope parseUrl { row with body } =
      .ok { envelope with attachments := newDeser.split.2.map AttachmentRefDto.toAttachmentRef } := by
  simp only [parseEnvelope, hbody, hnew, hsource] at h ⊢
  cases hb : bodyDeser.split.1.tryToBodySource parseUrl with
  | error e => simp [hb] at h
  | ok b =>
      cases hr : Json.asSeq RecipientDto.deserialize row.recipients with
      | none => simp [hb, hr] at h
      | some recipients =>
          cases hv : row.vars.asMap with
          | none => simp [hb, hr, hv] at h
          | some vars =>
              simp only [hb, hr, hv] at h ⊢
              cases h
              rfl

theorem deserialize_of_parseEnvelope {row : EmailColumns} {envelope : Envelope}
    (h : parseEnvelope parseUrl row = .ok envelope) :
    ∃ bodyDeser, EnvelopeBodyDtoDeser.deserialize row.body = some bodyDeser := by
  cases hb : EnvelopeBodyDtoDeser.deserialize row.body with
  | none => simp [parseEnvelope, hb] at h
  | some bodyDeser => exact ⟨bodyDeser, rfl⟩

theorem fits_ofAttachmentRef {attachments : List AttachmentRef} (h : ∀ a ∈ attachments, a.sizeBytes < 2 ^ 64) :
    ∀ dto ∈ attachments.map AttachmentRefDto.ofAttachmentRef, dto.Fits := by
  intro dto hdto
  obtain ⟨a, ha, rfl⟩ := List.mem_map.mp hdto
  exact h a ha

theorem map_toAttachmentRef (attachments : List AttachmentRef) :
    (attachments.map AttachmentRefDto.ofAttachmentRef).map AttachmentRefDto.toAttachmentRef = attachments := by
  rw [List.map_map]
  exact List.map_id'' (fun _ => rfl) _

theorem parseEnvelope_ofEnvelope (hurl : ∀ u, parseUrl u.text = some u) (id : EmailId) {envelope : Envelope}
    (h : ∀ a ∈ envelope.attachments, a.sizeBytes < 2 ^ 64) :
    parseEnvelope parseUrl (.ofEnvelope id envelope) = .ok envelope := by
  have hparse : parseEnvelope parseUrl (.ofEnvelope id envelope) = _ := parseEnvelope_eq hurl
    (EnvelopeBodyDtoDeser.deserialize_serialize (fits_ofAttachmentRef h)) rfl rfl rfl
  rw [hparse]
  simp only [EmailColumns.ofEnvelope, EnvelopeBodyDtoDeser.split, map_toAttachmentRef]

theorem parseEnvelope_legacy (hurl : ∀ u, parseUrl u.text = some u) (id : EmailId) (envelope : Envelope) :
    parseEnvelope parseUrl { EmailColumns.ofEnvelope id envelope with
      body := (BodySourceDto.ofBodySource envelope.body).serialize } =
        .ok { envelope with attachments := [] } := by
  have hparse : parseEnvelope parseUrl { EmailColumns.ofEnvelope id envelope with
      body := (BodySourceDto.ofBodySource envelope.body).serialize } = _ := parseEnvelope_eq hurl
    (EnvelopeBodyDtoDeser.deserialize_legacy _) rfl rfl rfl
  rw [hparse]
  rfl

namespace EmailTable

variable {table table' : EmailTable} {id : EmailId} {envelope : Envelope}
  {fails : SetAttachmentsStatement → Bool} {attachments : List AttachmentRef}

theorem find_setBody (table : EmailTable) (id : EmailId) (body : Json) :
    (table.setBody id body).find id = (table.find id).map fun row => { row with body } := by
  induction table with
  | nil => rfl
  | cons row table ih =>
      by_cases h : row.id = id
      · simp [setBody, find, h]
      · have hne : ({ row with body } : EmailColumns).id ≠ id := h
        simp only [setBody, find, List.map_cons, List.find?_cons, h, if_false, decide_false] at ih ⊢
        exact ih

theorem find_eq_some {row : EmailColumns} (h : table.find id = some row) : row ∈ table ∧ row.id = id :=
  ⟨List.mem_of_find?_eq_some h, by simpa using List.find?_some h⟩

theorem fetchForDequeue_eq_ok {e : EmailId × Envelope} :
    table.fetchForDequeue parseUrl id = .ok (some e) ↔
      ∃ row, table.find id = some row ∧ parseEnvelope parseUrl row = .ok e.2 ∧ e.1 = id := by
  unfold fetchForDequeue
  cases hf : table.find id with
  | none => simp
  | some row =>
      have hid := (find_eq_some hf).2
      cases hp : parseEnvelope parseUrl row with
      | error source => simp [hp]
      | ok envelope =>
          obtain ⟨id', envelope'⟩ := e
          simp [hp, hid, eq_comm, and_comm]

theorem setAttachments_ok (hf : ∀ statement, fails statement = false)
    (hfetch : table.fetchForDequeue parseUrl id = .ok (some (id, envelope)))
    (h : ∀ a ∈ attachments, a.sizeBytes < 2 ^ 64) :
    ∃ table', table.setAttachments fails id attachments = (table', .ok ()) ∧
      table'.fetchForDequeue parseUrl id = .ok (some (id, { envelope with attachments })) := by
  obtain ⟨row, hfind, hparse, -⟩ := fetchForDequeue_eq_ok.mp hfetch
  obtain ⟨bodyDeser, hbody⟩ := deserialize_of_parseEnvelope hparse
  have hsome : ¬ (table.filter fun row => row.id = id).length = 0 := by
    intro hz
    have hmem : row ∈ table.filter fun row => row.id = id :=
      List.mem_filter.mpr ⟨(find_eq_some hfind).1, by simpa using (find_eq_some hfind).2⟩
    rw [List.length_eq_zero_iff.mp hz] at hmem
    cases hmem
  refine ⟨table.setBody id (EnvelopeBodyDto.serialize
    ⟨bodyDeser.split.1, attachments.map AttachmentRefDto.ofAttachmentRef⟩), ?_, ?_⟩
  · simp only [setAttachments, hf, hfind, hbody, hsome, if_false, Bool.false_eq_true]
  refine fetchForDequeue_eq_ok.mpr ⟨_, by rw [find_setBody, hfind]; rfl, ?_, rfl⟩
  have hset := parseEnvelope_setBody hparse hbody
    (EnvelopeBodyDtoDeser.deserialize_serialize (b := ⟨bodyDeser.split.1, _⟩) (fits_ofAttachmentRef h)) rfl
  rw [hset]
  simp only [EnvelopeBodyDtoDeser.split, map_toAttachmentRef]

/-- Whatever fails, only the body of the one email changes, and nothing when the
call returns an error, unless its `COMMIT` lands. -/
theorem setAttachments_frame {lands : Bool} (h : table.setAttachments fails id attachments lands = (table', r)) :
    table' = table ∨ (r = .ok () ∨ lands = true) ∧ ∃ body, table' = table.setBody id body := by
  simp only [setAttachments] at h
  split at h
  · cases h; exact .inl rfl
  split at h
  · cases h; exact .inl rfl
  split at h
  · cases h; exact .inl rfl
  split at h
  · cases h; exact .inl rfl
  split at h
  · cases h; exact .inl rfl
  split at h
  · cases h; exact .inl rfl
  split at h
  · cases h
    cases lands with
    | true => exact .inr ⟨.inr rfl, _, rfl⟩
    | false => exact .inl rfl
  · cases h
    exact .inr ⟨.inl rfl, _, rfl⟩

theorem filter_setBody (table : EmailTable) (id : EmailId) (body : Json) :
    (table.setBody id body).filter (fun row => row.id ≠ id) = table.filter fun row => row.id ≠ id := by
  induction table with
  | nil => rfl
  | cons row table ih =>
      by_cases h : row.id = id <;> simp_all [setBody]

end EmailTable

namespace StorageAdapter

variable {a : StorageAdapter} {table table' : EmailTable} {id : EmailId} {envelope : Envelope}

theorem insertRow_one {row : EmailColumns} (h : a.insertRow table row = some (table', 1)) :
    table' = table ++ [row] ∧ ∀ r ∈ table, r.id ≠ row.id := by
  cases a with
  | sqlite =>
      simp only [insertRow] at h
      split at h <;> cases h
      rename_i hnone
      refine ⟨rfl, fun r hr hid => hnone ?_⟩
      exact List.any_eq_true.mpr ⟨r, hr, by simp [hid]⟩
  | postgres =>
      simp only [insertRow] at h
      split at h
      · cases h
      · split at h <;> cases h
        rename_i hnone
        refine ⟨rfl, fun r hr hid => hnone ?_⟩
        exact List.any_eq_true.mpr ⟨r, hr, by simp [hid]⟩

theorem saveRow_created (h : a.saveRow table id envelope = (table', .ok (.created id))) :
    table'.find id = some (.ofEnvelope id envelope) := by
  simp only [saveRow] at h
  split at h
  · cases h
  · rename_i table₁ affected hinsert
    split at h
    · rename_i hone
      cases h
      subst hone
      obtain ⟨rfl, hids⟩ := insertRow_one hinsert
      have hnone : table.find? (fun row => row.id = id) = none :=
        List.find?_eq_none.mpr fun r hr => by simpa [EmailColumns.ofEnvelope] using hids r hr
      simp [EmailTable.find, List.find?_append, hnone, EmailColumns.ofEnvelope]
    · split at h
      · cases h
      · split at h <;> cases h

end StorageAdapter

/-- An envelope is read back as it was saved, with the attachments that were set
last, whichever shape its body was stored in; no other row is touched, and none
when setting attachments fails. -/
theorem envelope_round_trip {parseUrl : String → Option Url} (hurl : ∀ u, parseUrl u.text = some u)
    (a : StorageAdapter) (table : EmailTable) (id : EmailId) (fails : SetAttachmentsStatement → Bool) :
    (∀ (envelope : Envelope) attachments table₁, (∀ x ∈ attachments, x.sizeBytes < 2 ^ 64) →
      a.saveRow table id { envelope with attachments := [] } = (table₁, .ok (.created id)) →
      ∃ table₂, table₁.setAttachments (fun _ => false) id attachments = (table₂, .ok ()) ∧
        table₂.fetchForDequeue parseUrl id = .ok (some (id, { envelope with attachments }))) ∧
    (∀ (envelope : Envelope) attachments, (∀ x ∈ attachments, x.sizeBytes < 2 ^ 64) →
      table.fetchForDequeue parseUrl id = .ok (some (id, envelope)) →
      ∃ table₂, table.setAttachments (fun _ => false) id attachments = (table₂, .ok ()) ∧
        table₂.fetchForDequeue parseUrl id = .ok (some (id, { envelope with attachments }))) ∧
    (∀ (envelope : Envelope), table.find id = some { EmailColumns.ofEnvelope id envelope with
        body := (BodySourceDto.ofBodySource envelope.body).serialize } →
      table.fetchForDequeue parseUrl id = .ok (some (id, { envelope with attachments := [] }))) ∧
    ∀ attachments table₂ r, table.setAttachments fails id attachments = (table₂, r) →
      table₂.filter (fun row => row.id ≠ id) = table.filter (fun row => row.id ≠ id) ∧
      ∀ e, r = .error e → table₂ = table := by
  have hnever : ∀ statement : SetAttachmentsStatement, (fun _ => false) statement = false := fun _ => rfl
  refine ⟨fun envelope attachments table₁ hfits hsave => ?_, fun envelope attachments hfits hfetch => ?_,
    fun envelope hrow => ?_, fun attachments table₂ r hset => ?_⟩
  · have hfetch : table₁.fetchForDequeue parseUrl id = .ok (some (id, { envelope with attachments := [] })) :=
      EmailTable.fetchForDequeue_eq_ok.mpr
        ⟨_, StorageAdapter.saveRow_created hsave, parseEnvelope_ofEnvelope hurl id nofun, rfl⟩
    have hset := EmailTable.setAttachments_ok hnever hfetch hfits
    exact hset
  · exact EmailTable.setAttachments_ok hnever hfetch hfits
  · exact EmailTable.fetchForDequeue_eq_ok.mpr ⟨_, hrow, parseEnvelope_legacy hurl id envelope, rfl⟩
  · rcases EmailTable.setAttachments_frame hset with rfl | ⟨rfl | hlands, body, rfl⟩
    · exact ⟨rfl, fun _ _ => rfl⟩
    · exact ⟨EmailTable.filter_setBody table id body, nofun⟩
    · cases hlands

def inlineEnvelope : Envelope :=
  ⟨some "order-1", none, some "hello", "a@example.com", [(.bcc, "b@example.com")],
    .mjml (.inline "<mjml></mjml>"), .single "n" .null, []⟩

theorem inlineEnvelope_round_trip : ∃ table,
    StorageAdapter.saveRow .postgres [] ⟨1⟩ inlineEnvelope = (table, .ok (.created ⟨1⟩)) ∧
    ∃ table', table.setAttachments (fun _ => false) ⟨1⟩ [⟨"f.pdf", "application/pdf", 12, ⟨"fs", "k"⟩⟩] =
        (table', .ok ()) ∧
      table'.fetchForDequeue (fun s => some ⟨s⟩) ⟨1⟩ = .ok (some (⟨1⟩, { inlineEnvelope with
        attachments := [⟨"f.pdf", "application/pdf", 12, ⟨"fs", "k"⟩⟩] })) :=
  ⟨_, rfl, (@envelope_round_trip (fun s => some ⟨s⟩) (fun _ => rfl) .postgres [] ⟨1⟩
    fun _ => false).1 inlineEnvelope _ _ (by decide) rfl⟩

end Catapulte
