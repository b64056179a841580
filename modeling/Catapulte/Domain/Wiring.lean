import Catapulte.Async.Congruence
import Catapulte.Domain.SubmitEmail
import Catapulte.Worker.ProcessOne
import Catapulte.Gc.Sweep

namespace Catapulte

open Async

variable {M N : Type → Type} [Monad M] [Monad N]

section Ports

variable (R : Congruence M N)

structure EmailRepository.Related (r : EmailRepository M) (r' : EmailRepository N) : Prop where
  save : ∀ id envelope, R.rel (r.save id envelope) (r'.save id envelope)
  listAllAttachmentBlobs : R.rel r.listAllAttachmentBlobs r'.listAllAttachmentBlobs
  setAttachments : ∀ id attachments, R.rel (r.setAttachments id attachments) (r'.setAttachments id attachments)
  delete : ∀ id, R.rel (r.delete id) (r'.delete id)

structure EmailQueue.Related (q : EmailQueue M) (q' : EmailQueue N) : Prop where
  enqueue : ∀ id envelope, R.rel (q.enqueue id envelope) (q'.enqueue id envelope)
  poll : R.rel q.poll q'.poll
  ack : ∀ token, R.rel (q.ack token) (q'.ack token)
  nack : ∀ token delay, R.rel (q.nack token delay) (q'.nack token delay)

def EventPublisher.Related (p : EventPublisher M) (p' : EventPublisher N) : Prop :=
  ∀ event, R.rel (p.publish event) (p'.publish event)

structure AttachmentStore.Related (s : AttachmentStore M) (s' : AttachmentStore N) : Prop where
  backendName : s.backendName = s'.backendName
  put : ∀ reader, R.rel (s.put reader) (s'.put reader)
  delete : ∀ blob, R.rel (s.delete blob) (s'.delete blob)
  listKeysOlderThan : ∀ age, R.rel (s.listKeysOlderThan age) (s'.listKeysOlderThan age)

structure SubmitEmailService.RelatedPorts (svc : SubmitEmailService M) (svc' : SubmitEmailService N) : Prop where
  repository : svc.repository.Related R svc'.repository
  queue : svc.queue.Related R svc'.queue
  attachmentStore : svc.attachmentStore.Related R svc'.attachmentStore
  attachmentFetcher : ∀ url, R.rel (svc.attachmentFetcher.fetch url) (svc'.attachmentFetcher.fetch url)

structure SubmitEmailService.Related (svc : SubmitEmailService M) (svc' : SubmitEmailService N) : Prop
    extends svc.RelatedPorts R svc' where
  eventPublisher : svc.eventPublisher.Related R svc'.eventPublisher

structure WorkerState.RelatedPorts (st : WorkerState M) (st' : WorkerState N) : Prop where
  processQueuedEmail : ∀ envelope, R.rel (st.processQueuedEmail.execute envelope) (st'.processQueuedEmail.execute envelope)
  emailQueue : st.emailQueue.Related R st'.emailQueue
  attachmentStore : st.attachmentStore.Related R st'.attachmentStore
  emailRepository : st.emailRepository.Related R st'.emailRepository

structure WorkerState.Related (st : WorkerState M) (st' : WorkerState N) : Prop extends st.RelatedPorts R st' where
  eventPublisher : st.eventPublisher.Related R st'.eventPublisher

structure AttachmentGc.Related (gc : AttachmentGc M) (gc' : AttachmentGc N) : Prop where
  repository : gc.repository.Related R gc'.repository
  store : gc.store.Related R gc'.store
  isCancelled : R.rel gc.isCancelled gc'.isCancelled
  gracePeriod : gc.gracePeriod = gc'.gracePeriod

end Ports

variable {R : Congruence M N}

namespace SubmitEmailService

variable {svc : SubmitEmailService M} {svc' : SubmitEmailService N} (h : svc.Related R svc') (id : EmailId)
  (input : SubmitEmailInput)
include h

theorem rollback_rel (e : SubmitEmailError) (refs : List AttachmentRef) :
    R.rel (svc.rollback id e refs) (svc'.rollback id e refs) := by
  induction refs with
  | nil => exact R.bind (h.repository.delete id) fun _ => R.pure _
  | cons r refs ih => exact R.bind (h.attachmentStore.delete r.blob) fun _ => ih

theorem handOver_rel (envelope : Envelope) : R.rel (svc.handOver id envelope) (svc'.handOver id envelope) := by
  refine R.bind (h.queue.enqueue id envelope) fun r => ?_
  cases r with
  | error e => exact rollback_rel h id _ _
  | ok u => exact R.bind (h.eventPublisher _) fun _ => R.pure _

theorem patchAttachments_rel (refs : List AttachmentRef) :
    R.rel (svc.patchAttachments id input refs) (svc'.patchAttachments id input refs) := by
  unfold patchAttachments
  split
  · exact handOver_rel h id _
  · refine R.bind (h.repository.setAttachments id refs) fun r => ?_
    cases r with
    | error e => exact rollback_rel h id _ _
    | ok u => exact handOver_rel h id _

theorem store_rel {filename contentType : String} {reader : AttachmentReader} {refs : List AttachmentRef}
    {rest : List AttachmentRef → M (Except SubmitEmailError EmailId)}
    {rest' : List AttachmentRef → N (Except SubmitEmailError EmailId)} (hrest : ∀ refs, R.rel (rest refs) (rest' refs)) :
    R.rel (svc.store id filename contentType reader refs rest) (svc'.store id filename contentType reader refs rest') := by
  refine R.bind (h.attachmentStore.put reader) fun r => ?_
  cases r with
  | error e => exact rollback_rel h id _ _
  | ok result => exact hrest _

theorem writeAttachments_rel (attachments : List AttachmentInput) (refs : List AttachmentRef) :
    R.rel (svc.writeAttachments id input attachments refs) (svc'.writeAttachments id input attachments refs) := by
  induction attachments generalizing refs with
  | nil => exact patchAttachments_rel h id input refs
  | cons att rest ih =>
      cases att with
      | inline filename contentType bytes => exact store_rel h id ih
      | stream filename contentType reader => exact store_rel h id ih
      | remote filename contentType url =>
          refine R.bind (h.attachmentFetcher url) fun r => ?_
          cases r with
          | error e => exact rollback_rel h id _ _
          | ok reader => exact store_rel h id ih

theorem execute_rel : R.rel (svc.execute id input) (svc'.execute id input) := by
  refine R.bind (h.repository.save id _) fun r => ?_
  rcases r with e | created | existing
  · exact R.pure _
  · exact writeAttachments_rel h id input _ _
  · exact R.pure _

end SubmitEmailService

namespace WorkerState

variable {st : WorkerState M} {st' : WorkerState N} (h : st.Related R st') (item : DequeuedEmail)
include h

theorem cleanUp_rel (senderName : SenderName) (refs : List AttachmentRef) :
    R.rel (st.cleanUp item senderName refs) (st'.cleanUp item senderName refs) := by
  induction refs with
  | nil => exact R.bind (h.eventPublisher _) fun _ => R.pure _
  | cons ref refs ih => exact R.bind (h.attachmentStore.delete ref.blob) fun _ => ih

theorem onSuccess_rel (senderName : SenderName) : R.rel (st.onSuccess item senderName) (st'.onSuccess item senderName) := by
  refine R.bind (h.emailQueue.ack item.token) fun r => ?_
  cases r with
  | error e => exact R.pure _
  | ok u => exact R.bind (h.emailRepository.setAttachments item.id []) fun _ => cleanUp_rel h item senderName _

theorem onFailure_rel (e : ProcessQueuedEmailError) : R.rel (st.onFailure item e) (st'.onFailure item e) := by
  unfold onFailure
  split
  · refine R.bind (h.emailQueue.ack item.token) fun r => ?_
    cases r with
    | error e' => exact R.pure _
    | ok u => exact R.bind (h.eventPublisher _) fun _ => R.pure _
  · refine R.bind (h.emailQueue.nack item.token _) fun r => ?_
    cases r with
    | error e' => exact R.pure _
    | ok u => exact R.bind (h.eventPublisher _) fun _ => R.pure _

theorem processOne_rel : R.rel (st.processOne item) (st'.processOne item) := by
  refine R.bind (h.eventPublisher _) fun _ => R.bind (h.processQueuedEmail item.envelope) fun r => ?_
  cases r with
  | error e => exact onFailure_rel h item e
  | ok senderName => exact onSuccess_rel h item senderName

theorem turn_rel : R.rel st.turn st'.turn := by
  refine R.bind h.emailQueue.poll fun r => ?_
  rcases r with e | _ | item
  · exact R.pure _
  · exact R.pure _
  · exact processOne_rel h item

end WorkerState

namespace AttachmentGc

variable {gc : AttachmentGc M} {gc' : AttachmentGc N} (h : gc.Related R gc')
include h

theorem removeOrphans_rel (live keys : List String) : R.rel (gc.removeOrphans live keys) (gc'.removeOrphans live keys) := by
  induction keys with
  | nil => exact R.pure _
  | cons key keys ih =>
      refine R.bind h.isCancelled fun cancelled => ?_
      rw [h.store.backendName]
      split
      · exact R.pure _
      · split
        · exact ih
        · exact R.bind (h.store.delete _) fun _ => ih

theorem sweepOnce_rel : R.rel gc.sweepOnce gc'.sweepOnce := by
  refine R.bind h.isCancelled fun cancelled => ?_
  rw [h.store.backendName, h.gracePeriod]
  split
  · exact R.pure _
  · refine R.bind h.repository.listAllAttachmentBlobs fun live => ?_
    cases live with
    | error e => exact R.pure _
    | ok liveBlobs =>
        refine R.bind (h.store.listKeysOlderThan _) fun keys => ?_
        cases keys with
        | error e => exact R.pure _
        | ok onDisk => exact removeOrphans_rel h _ _

end AttachmentGc

end Catapulte
