import Catapulte.Domain.Port

namespace Catapulte

inductive AttachmentInput
  | inline (filename contentType : String) (bytes : List UInt8)
  | stream (filename contentType : String) (reader : AttachmentReader)
  | remote (filename contentType : String) (url : Url)

structure SubmitEmailInput where
  idempotencyKey : Option String
  correlationId : Option String
  subject : Option String
  sender : String
  recipients : List (RecipientKind × String)
  body : BodySource
  vars : Json.Map
  attachments : List AttachmentInput

/-- The envelope of a submission with the attachments written so far. -/
def SubmitEmailInput.envelope (input : SubmitEmailInput) (attachments : List AttachmentRef) :
    Envelope where
  idempotencyKey := input.idempotencyKey
  correlationId := input.correlationId
  subject := input.subject
  sender := input.sender
  recipients := input.recipients
  body := input.body
  vars := input.vars
  attachments := attachments

def plainSubmission (idempotencyKey : Option String) (attachments : List AttachmentInput) :
    SubmitEmailInput :=
  ⟨idempotencyKey, none, none, "sender@example.com", [(.to, "to@example.com")],
    .plain ⟨some "hello", none, .inl rfl⟩, .new, attachments⟩

inductive SubmitEmailError
  | persist (e : EmailRepositoryError)
  | enqueue (e : EmailQueueError)
  | attachmentStore (source : AttachmentStoreError)
  | attachmentFetch (source : AttachmentFetchError)
  deriving DecidableEq, Repr

def SubmitEmailError.isTransient : SubmitEmailError → Bool
  | persist _ | enqueue _ | attachmentStore _ => true
  | attachmentFetch _ => false

structure SubmitEmailService (M : Type → Type) where
  repository : EmailRepository M
  queue : EmailQueue M
  eventPublisher : EventPublisher M
  attachmentStore : AttachmentStore M
  attachmentFetcher : AttachmentFetcher M

namespace SubmitEmailService

variable {M : Type → Type} [Monad M]

/-- The compensation of every error path: the blobs written so far, then the
row. The results of the deletes are dropped. -/
def rollback (svc : SubmitEmailService M) (id : EmailId) (e : SubmitEmailError) :
    List AttachmentRef → M (Except SubmitEmailError EmailId)
  | [] => do
      let _ ← svc.repository.delete id
      return .error e
  | r :: refs => do
      let _ ← svc.attachmentStore.delete r.blob
      svc.rollback id e refs

/-- The tail of `execute`, from the enqueue on. -/
def handOver (svc : SubmitEmailService M) (id : EmailId) (envelope : Envelope) :
    M (Except SubmitEmailError EmailId) := do
  match ← svc.queue.enqueue id envelope with
  | .error e => svc.rollback id (.enqueue e) envelope.attachments
  | .ok () =>
      -- A failed publication is only logged.
      let _ ← svc.eventPublisher.publish (.queued id envelope.correlationId)
      return .ok id

def patchAttachments (svc : SubmitEmailService M) (id : EmailId) (input : SubmitEmailInput)
    (writtenRefs : List AttachmentRef) : M (Except SubmitEmailError EmailId) :=
  if writtenRefs.isEmpty then svc.handOver id (input.envelope writtenRefs)
  else do
    match ← svc.repository.setAttachments id writtenRefs with
    | .error e => svc.rollback id (.persist e) writtenRefs
    | .ok () => svc.handOver id (input.envelope writtenRefs)

/-- One `put` of the attachment loop, followed by `rest`. -/
def store (svc : SubmitEmailService M) (id : EmailId) (filename contentType : String)
    (reader : AttachmentReader) (writtenRefs : List AttachmentRef)
    (rest : List AttachmentRef → M (Except SubmitEmailError EmailId)) :
    M (Except SubmitEmailError EmailId) := do
  match ← svc.attachmentStore.put reader with
  | .ok putResult => rest (writtenRefs ++ [⟨filename, contentType, putResult.sizeBytes, putResult.blob⟩])
  | .error e => svc.rollback id (.attachmentStore e) writtenRefs

/-- The attachment loop; an error leaves `execute` from inside the loop. -/
def writeAttachments (svc : SubmitEmailService M) (id : EmailId) (input : SubmitEmailInput) :
    List AttachmentInput → List AttachmentRef → M (Except SubmitEmailError EmailId)
  | [], writtenRefs => svc.patchAttachments id input writtenRefs
  | .inline filename contentType bytes :: rest, writtenRefs =>
      svc.store id filename contentType bytes writtenRefs (svc.writeAttachments id input rest)
  | .stream filename contentType reader :: rest, writtenRefs =>
      svc.store id filename contentType reader writtenRefs (svc.writeAttachments id input rest)
  | .remote filename contentType url :: rest, writtenRefs => do
      match ← svc.attachmentFetcher.fetch url with
      | .ok reader =>
          svc.store id filename contentType reader writtenRefs (svc.writeAttachments id input rest)
      | .error e => svc.rollback id (.attachmentFetch e) writtenRefs

/-- `id` is the fresh email id the call starts by generating. The row is
reserved with an empty attachment list. -/
def execute (svc : SubmitEmailService M) (id : EmailId) (input : SubmitEmailInput) :
    M (Except SubmitEmailError EmailId) := do
  match ← svc.repository.save id (input.envelope []) with
  | .error e => return .error (.persist e)
  | .ok (.duplicate existingId) => return .ok existingId
  | .ok (.created _) => svc.writeAttachments id input input.attachments []

end SubmitEmailService

end Catapulte
