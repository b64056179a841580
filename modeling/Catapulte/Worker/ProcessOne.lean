import Catapulte.Domain.Port

namespace Catapulte

def maxAttempts : Nat := 3

/-- The shift is on `u64`; it is only taken for attempts below `maxAttempts`. -/
def backoff (attempt : Nat) : Duration :=
  .fromSecs (min (30 * 2 ^ (attempt - 1) % 2 ^ 64) 3600)

structure WorkerState (M : Type → Type) where
  processQueuedEmail : ProcessQueuedEmailUseCase M
  emailQueue : EmailQueue M
  eventPublisher : EventPublisher M
  attachmentStore : AttachmentStore M
  emailRepository : EmailRepository M

def isTerminal (e : ProcessQueuedEmailError) (attempt : Nat) : Bool :=
  (match e with
    | .send s => !s.isTransient
    | _ => false) || decide (maxAttempts ≤ attempt)

namespace DequeuedEmail

def sendingEvent (item : DequeuedEmail) : LifecycleEvent :=
  .sending item.id item.attempt item.envelope.correlationId

def sentEvent (item : DequeuedEmail) (senderName : SenderName) : LifecycleEvent :=
  .sent item.id senderName item.envelope.correlationId

def failedEvent (item : DequeuedEmail) (e : ProcessQueuedEmailError) : LifecycleEvent :=
  .failed item.id item.attempt e.display e.errorClass e.senderName item.envelope.correlationId

def retryingEvent (item : DequeuedEmail) (e : ProcessQueuedEmailError) : LifecycleEvent :=
  .retrying item.id item.attempt e.display e.errorClass e.senderName item.envelope.correlationId

end DequeuedEmail

namespace WorkerState

variable {M : Type → Type} [Monad M]

/-- The deletes of the attachment blobs after a send, then the Sent event.
Failed deletes and a failed publication are only logged. -/
def cleanUp (st : WorkerState M) (item : DequeuedEmail) (senderName : SenderName) :
    List AttachmentRef → M Unit
  | [] => do
      let _ ← st.eventPublisher.publish (item.sentEvent senderName)
      return ()
  | att :: rest => do
      let _ ← st.attachmentStore.delete att.blob
      st.cleanUp item senderName rest

def onSuccess (st : WorkerState M) (item : DequeuedEmail) (senderName : SenderName) : M Unit := do
  match ← st.emailQueue.ack item.token with
  | .error _ => return ()
  | .ok () =>
      let _ ← st.emailRepository.setAttachments item.id []
      st.cleanUp item senderName item.envelope.attachments

def onFailure (st : WorkerState M) (item : DequeuedEmail) (e : ProcessQueuedEmailError) : M Unit :=
  if isTerminal e item.attempt then do
    match ← st.emailQueue.ack item.token with
    | .error _ => return ()
    | .ok () =>
        let _ ← st.eventPublisher.publish (item.failedEvent e)
        return ()
  else do
    match ← st.emailQueue.nack item.token (backoff item.attempt) with
    | .error _ => return ()
    | .ok () =>
        let _ ← st.eventPublisher.publish (item.retryingEvent e)
        return ()

def processOne (st : WorkerState M) (item : DequeuedEmail) : M Unit := do
  let _ ← st.eventPublisher.publish item.sendingEvent
  match ← st.processQueuedEmail.execute item.envelope with
  | .ok senderName => st.onSuccess item senderName
  | .error e => st.onFailure item e

/-- One turn of the worker's loop: a poll of the queue and, when it hands an
item out, the task spawned for that item. A failed dequeue is only logged. -/
def turn (st : WorkerState M) : M Unit := do
  match ← st.emailQueue.poll with
  | .ok (some item) => st.processOne item
  | .ok none => return ()
  | .error _ => return ()

end WorkerState

end Catapulte
