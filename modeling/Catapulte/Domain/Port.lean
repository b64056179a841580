import Catapulte.Domain.Entity

namespace Catapulte

theorem exists_of_bind_eq_ok {ε α β : Type} {x : Except ε α} {f : α → Except ε β} {b : β} (h : x >>= f = .ok b) :
    ∃ a, x = .ok a ∧ f a = .ok b := by
  cases x with
  | error e => cases h
  | ok a => exact ⟨a, rfl, h⟩

inductive EmailRepositoryError
  | storage (source : String)
  deriving DecidableEq, Repr

inductive EmailQueueError
  | storage (source : String)
  deriving DecidableEq, Repr

inductive EventPublisherError
  | publish (source : String)
  deriving DecidableEq, Repr

inductive AttachmentStoreError
  | io (source : String)
  | notFound
  deriving DecidableEq, Repr

inductive AttachmentFetchError
  | schemeNotAllowed (scheme : String)
  | domainNotAllowed (domain : String)
  | tooLarge
  | fetch (source : String)
  deriving DecidableEq, Repr

inductive SendError
  | send (senderName : SenderName) (source : String)
  | noMatchingRoute (senderDomain : String)
  deriving DecidableEq, Repr

namespace SendError

def senderName : SendError → Option SenderName
  | send senderName _ => some senderName
  | noMatchingRoute _ => none

def isTransient : SendError → Bool
  | send .. => true
  | noMatchingRoute _ => false

def display : SendError → String
  | send .. => "email send failed"
  | noMatchingRoute senderDomain => "no route matches sender domain " ++ senderDomain.quote

end SendError

/-- The first three carry the text their own error displays. -/
inductive ProcessQueuedEmailError
  | resolve (message : String)
  | interpolate (message : String)
  | render (message : String)
  | send (e : SendError)
  | attachmentResolve (source : String)
  deriving DecidableEq, Repr

namespace ProcessQueuedEmailError

def senderName : ProcessQueuedEmailError → Option SenderName
  | send e => e.senderName
  | _ => none

def errorClass : ProcessQueuedEmailError → ErrorClass
  | resolve _ => .templateResolve
  | interpolate _ => .templateInterpolate
  | render _ => .templateRender
  | attachmentResolve _ => .attachment
  | send (.send ..) => .delivery
  | send (.noMatchingRoute _) => .routing

def display : ProcessQueuedEmailError → String
  | resolve message | interpolate message | render message => message
  | send e => e.display
  | attachmentResolve _ => "attachment resolve failed"

end ProcessQueuedEmailError

inductive SaveResult
  | created (id : EmailId)
  | duplicate (id : EmailId)
  deriving DecidableEq, Repr

inductive EmailStatus
  | queued
  | sent
  | failed
  deriving DecidableEq, Repr

structure ListEmailsParams where
  status : Option EmailStatus
  afterMs : Option Int
  beforeMs : Option Int
  recipient : Option String
  template : Option String
  id : Option EmailId
  limit : Nat
  offset : Nat

structure EmailRecord where
  id : EmailId
  idempotencyKey : Option String
  subject : Option String
  sender : String
  recipients : List (RecipientKind × String)
  createdAtMs : Int
  status : EmailStatus
  deriving DecidableEq, Repr

/-- Everything a reader yields until its end. -/
abbrev AttachmentReader := List UInt8

structure PutResult where
  blob : BlobRef
  sizeBytes : Nat

/-- The bytes of a token, read as one number. -/
abbrev AckToken := Nat

structure DequeuedEmail where
  id : EmailId
  envelope : Envelope
  attempt : Nat
  token : AckToken

structure Duration where
  nanos : Nat
  deriving DecidableEq, Repr

def Duration.fromSecs (s : Nat) : Duration := ⟨s * 1000000000⟩

def Duration.asMillis (d : Duration) : Nat := d.nanos / 1000000

structure EmailRepository (M : Type → Type) where
  save : EmailId → Envelope → M (Except EmailRepositoryError SaveResult)
  listAllAttachmentBlobs : M (Except EmailRepositoryError (List BlobRef))
  setAttachments : EmailId → List AttachmentRef → M (Except EmailRepositoryError Unit)
  delete : EmailId → M (Except EmailRepositoryError Unit)

/-- `dequeue` blocks until an item is there. `poll` is one turn of its wait:
`none` when the turn found nothing. -/
structure EmailQueue (M : Type → Type) where
  enqueue : EmailId → Envelope → M (Except EmailQueueError Unit)
  poll : M (Except EmailQueueError (Option DequeuedEmail))
  ack : AckToken → M (Except EmailQueueError Unit)
  nack : AckToken → Duration → M (Except EmailQueueError Unit)

structure EventPublisher (M : Type → Type) where
  publish : LifecycleEvent → M (Except EventPublisherError Unit)

structure AttachmentStore (M : Type → Type) where
  backendName : String
  put : AttachmentReader → M (Except AttachmentStoreError PutResult)
  delete : BlobRef → M (Except AttachmentStoreError Unit)
  listKeysOlderThan : Duration → M (Except String (List String))

structure AttachmentFetcher (M : Type → Type) where
  fetch : Url → M (Except AttachmentFetchError AttachmentReader)

structure ProcessQueuedEmailUseCase (M : Type → Type) where
  execute : Envelope → M (Except ProcessQueuedEmailError SenderName)

end Catapulte
