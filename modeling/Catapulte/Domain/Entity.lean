import Catapulte.Serde.Json

namespace Catapulte

structure EmailId where
  uuid : Nat
  deriving DecidableEq, Repr

inductive RecipientKind
  | to
  | cc
  | bcc
  deriving DecidableEq, Repr

structure Url where
  text : String
  deriving DecidableEq, Repr

/-- A plain body carries the proof that one of its two parts is there. -/
structure Plain where
  text : Option String
  html : Option String
  nonempty : text.isSome ∨ html.isSome

inductive InvalidPlainBody
  | empty

def Plain.tryNew (text html : Option String) : Except InvalidPlainBody Plain :=
  if h : text.isSome ∨ html.isSome then .ok ⟨text, html, h⟩ else .error .empty

inductive MjmlSource
  | inline (source : String)
  | named (name : String)
  | remote (url : Url)

inductive BodySource
  | plain (p : Plain)
  | mjml (m : MjmlSource)

structure BlobRef where
  backend : String
  key : String
  deriving DecidableEq, Repr

structure AttachmentRef where
  filename : String
  contentType : String
  sizeBytes : Nat
  blob : BlobRef
  deriving DecidableEq, Repr

structure Envelope where
  idempotencyKey : Option String
  correlationId : Option String
  subject : Option String
  sender : String
  recipients : List (RecipientKind × String)
  body : BodySource
  vars : Json.Map
  attachments : List AttachmentRef

structure SenderName where
  name : String
  deriving DecidableEq, Repr

inductive ErrorClass
  | templateResolve
  | templateInterpolate
  | templateRender
  | attachment
  | delivery
  | routing
  deriving DecidableEq, Repr

def ErrorClass.asStr : ErrorClass → String
  | .templateResolve => "template_resolve"
  | .templateInterpolate => "template_interpolate"
  | .templateRender => "template_render"
  | .attachment => "attachment"
  | .delivery => "delivery"
  | .routing => "routing"

inductive LifecycleEvent
  | queued (id : EmailId) (correlationId : Option String)
  | sending (id : EmailId) (attempt : Nat) (correlationId : Option String)
  | sent (id : EmailId) (senderName : SenderName) (correlationId : Option String)
  | retrying (id : EmailId) (attempt : Nat) (reason : String) (errorClass : ErrorClass)
      (senderName : Option SenderName) (correlationId : Option String)
  | failed (id : EmailId) (attempt : Nat) (reason : String) (errorClass : ErrorClass)
      (senderName : Option SenderName) (correlationId : Option String)
  deriving DecidableEq, Repr

namespace LifecycleEvent

def eventType : LifecycleEvent → String
  | queued .. => "queued"
  | sending .. => "sending"
  | sent .. => "delivery.succeeded"
  | retrying .. => "retrying"
  | failed .. => "delivery.failed"

def emailId : LifecycleEvent → EmailId
  | queued id .. | sending id .. | sent id .. | retrying id .. | failed id .. => id

def senderName : LifecycleEvent → Option SenderName
  | queued .. | sending .. => none
  | sent _ senderName _ => some senderName
  | retrying _ _ _ _ senderName _ | failed _ _ _ _ senderName _ => senderName

def errorClass : LifecycleEvent → Option ErrorClass
  | retrying _ _ _ errorClass _ _ | failed _ _ _ errorClass _ _ => some errorClass
  | _ => none

def payload : LifecycleEvent → Json
  | queued _ correlationId => .object [("correlation_id", .optString correlationId)]
  | sending _ attempt correlationId =>
      .object [("attempt", .number attempt), ("correlation_id", .optString correlationId)]
  | sent _ senderName correlationId =>
      .object [("sender_name", .string senderName.name), ("correlation_id", .optString correlationId)]
  | retrying _ attempt reason errorClass senderName correlationId
  | failed _ attempt reason errorClass senderName correlationId =>
      .object [("attempt", .number attempt), ("reason", .string reason),
        ("error_class", .string errorClass.asStr),
        ("sender_name", .optString (senderName.map SenderName.name)),
        ("correlation_id", .optString correlationId)]

/-- The two events that end the life of an email. -/
def Terminal : LifecycleEvent → Prop
  | sent .. | failed .. => True
  | _ => False

instance : DecidablePred Terminal
  | .sent .. | .failed .. => isTrue trivial
  | .queued .. | .sending .. | .retrying .. => isFalse id

theorem terminal_iff (e : LifecycleEvent) :
    e.Terminal ↔ e.eventType = "delivery.succeeded" ∨ e.eventType = "delivery.failed" := by
  cases e <;> simp [Terminal, eventType]

end LifecycleEvent

end Catapulte
