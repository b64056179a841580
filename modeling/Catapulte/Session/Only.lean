import Catapulte.Async.Program
import Catapulte.Domain.SubmitEmail
import Catapulte.Worker.ProcessOne

namespace Catapulte

open Async

variable {I : Interface} {P : I.Op → Prop}

/-- Every call that a submission may make satisfies `P`. -/
structure SubmitEmailService.Only (svc : SubmitEmailService (Program I)) (P : I.Op → Prop) : Prop where
  save : ∀ id envelope, (svc.repository.save id envelope).Only P
  setAttachments : ∀ id attachments, (svc.repository.setAttachments id attachments).Only P
  delete : ∀ id, (svc.repository.delete id).Only P
  enqueue : ∀ id envelope, (svc.queue.enqueue id envelope).Only P
  publish : ∀ id correlationId, (svc.eventPublisher.publish (.queued id correlationId)).Only P
  put : ∀ reader, (svc.attachmentStore.put reader).Only P
  deleteBlob : ∀ blob, (svc.attachmentStore.delete blob).Only P
  fetch : ∀ url, (svc.attachmentFetcher.fetch url).Only P

namespace SubmitEmailService

variable {svc : SubmitEmailService (Program I)} {id : EmailId} {input : SubmitEmailInput}

theorem rollback_only (h : svc.Only P) (e : SubmitEmailError) (refs : List AttachmentRef) :
    (svc.rollback id e refs).Only P := by
  induction refs with
  | nil => exact (h.delete id).bind fun _ => trivial
  | cons r refs ih => exact (h.deleteBlob r.blob).bind fun _ => ih

theorem handOver_only (h : svc.Only P) (envelope : Envelope) : (svc.handOver id envelope).Only P := by
  refine (h.enqueue id envelope).bind fun r => ?_
  cases r with
  | error e => exact rollback_only h _ _
  | ok => exact (h.publish _ _).bind fun _ => trivial

theorem patchAttachments_only (h : svc.Only P) (writtenRefs : List AttachmentRef) :
    (svc.patchAttachments id input writtenRefs).Only P := by
  unfold patchAttachments
  split
  · exact handOver_only h _
  · refine (h.setAttachments id writtenRefs).bind fun r => ?_
    cases r with
    | error e => exact rollback_only h _ _
    | ok => exact handOver_only h _

theorem store_only (h : svc.Only P) {filename contentType : String} {reader : AttachmentReader}
    {writtenRefs : List AttachmentRef} {rest : List AttachmentRef → Program I (Except SubmitEmailError EmailId)}
    (hrest : ∀ refs, (rest refs).Only P) :
    (svc.store id filename contentType reader writtenRefs rest).Only P := by
  refine (h.put reader).bind fun r => ?_
  cases r with
  | error e => exact rollback_only h _ _
  | ok => exact hrest _

theorem writeAttachments_only (h : svc.Only P) (atts : List AttachmentInput) (writtenRefs : List AttachmentRef) :
    (svc.writeAttachments id input atts writtenRefs).Only P := by
  induction atts generalizing writtenRefs with
  | nil => exact patchAttachments_only h _
  | cons att atts ih =>
      cases att with
      | inline | stream => exact store_only h fun refs => ih refs
      | remote filename contentType url =>
          refine (h.fetch url).bind fun r => ?_
          cases r with
          | error e => exact rollback_only h _ _
          | ok => exact store_only h fun refs => ih refs

theorem execute_only (h : svc.Only P) (id : EmailId) (input : SubmitEmailInput) :
    (svc.execute id input).Only P := by
  refine (h.save id _).bind fun r => ?_
  cases r with
  | error e => trivial
  | ok saved =>
      cases saved with
      | duplicate => trivial
      | created => exact writeAttachments_only h _ _

end SubmitEmailService

/-- Every call that the processing of the item may make satisfies `P`. -/
structure WorkerState.Only (st : WorkerState (Program I)) (item : DequeuedEmail) (P : I.Op → Prop) : Prop where
  execute : (st.processQueuedEmail.execute item.envelope).Only P
  ack : (st.emailQueue.ack item.token).Only P
  nack : ∀ delay, (st.emailQueue.nack item.token delay).Only P
  publish : ∀ event, (st.eventPublisher.publish event).Only P
  setAttachments : (st.emailRepository.setAttachments item.id []).Only P
  deleteBlob : ∀ blob, (st.attachmentStore.delete blob).Only P

namespace WorkerState

variable {st : WorkerState (Program I)} {item : DequeuedEmail}

theorem cleanUp_only (h : st.Only item P) (senderName : SenderName) (atts : List AttachmentRef) :
    (st.cleanUp item senderName atts).Only P := by
  induction atts with
  | nil => exact (h.publish _).bind fun _ => trivial
  | cons att atts ih => exact (h.deleteBlob att.blob).bind fun _ => ih

theorem onSuccess_only (h : st.Only item P) (senderName : SenderName) :
    (st.onSuccess item senderName).Only P := by
  refine h.ack.bind fun r => ?_
  cases r with
  | error e => trivial
  | ok => exact h.setAttachments.bind fun _ => cleanUp_only h _ _

theorem onFailure_only (h : st.Only item P) (e : ProcessQueuedEmailError) : (st.onFailure item e).Only P := by
  unfold onFailure
  split
  · refine h.ack.bind fun r => ?_
    cases r with
    | error e => trivial
    | ok => exact (h.publish _).bind fun _ => trivial
  · refine (h.nack _).bind fun r => ?_
    cases r with
    | error e => trivial
    | ok => exact (h.publish _).bind fun _ => trivial

theorem processOne_only (h : st.Only item P) : (st.processOne item).Only P := by
  refine (h.publish _).bind fun _ => h.execute.bind fun r => ?_
  cases r with
  | ok senderName => exact onSuccess_only h senderName
  | error e => exact onFailure_only h e

end WorkerState

end Catapulte
