import Catapulte.Async.Session
import Catapulte.Storage.Adapters

namespace Catapulte

open Async

namespace Adapters

variable (a : Adapters) (id : EmailId) (refs : List AttachmentRef)

@[simp] theorem repository_delete : a.storage.emailRepository.delete id = ask (.deleteEmail id) := by
  cases h : a.storage <;> rfl

@[simp] theorem repository_setAttachments :
    a.storage.emailRepository.setAttachments id refs = ask (.setAttachments id refs) := by
  cases h : a.storage <;> rfl

@[simp] theorem repository_listAllAttachmentBlobs :
    a.storage.emailRepository.listAllAttachmentBlobs = ask .selectLiveBodies := by
  cases h : a.storage <;> rfl

end Adapters

/-- The stages of a submission. Between its row and its queue entry it holds
the refs written so far; `patched` says that the row lists them. -/
inductive SubmitStage
  | saving
  | looking (key : String)
  | reserved (refs : List AttachmentRef) (patched : Bool)
  | queued (refs : List AttachmentRef)
  | announcing (refs : List AttachmentRef) (uuid : Nat)
  | undoing (refs : List AttachmentRef) (e : SubmitEmailError)
  | ended (result : Except SubmitEmailError EmailId)

namespace SubmitStage

def afterInsert (idempotencyKey : Option String) : Except EmailRepositoryError Nat → SubmitStage
  | .error e => ended (.error (.persist e))
  | .ok affected =>
      if affected = 1 then reserved [] false
      else
        match idempotencyKey with
        | none => ended (.error (.persist
            (.storage "insert skipped with no idempotency key (unexpected id collision)")))
        | some key => looking key

theorem afterInsert_ne_ok (idempotencyKey : Option String) (r : Except EmailRepositoryError Nat)
    (id : EmailId) : afterInsert idempotencyKey r ≠ ended (.ok id) := by
  cases r with
  | error e => simp [afterInsert]
  | ok affected =>
      simp only [afterInsert]
      split
      · simp
      · cases idempotencyKey <;> simp

def afterSave : Except EmailRepositoryError SaveResult → SubmitStage
  | .error e => ended (.error (.persist e))
  | .ok (.duplicate existing) => ended (.ok existing)
  | .ok (.created _) => reserved [] false

def afterEnqueue (refs : List AttachmentRef) : Except EmailQueueError Unit → SubmitStage
  | .error e => undoing refs (.enqueue e)
  | .ok () => queued refs

end SubmitStage

open SubmitStage

inductive SubmitMoves (a : Adapters) (id : EmailId) (input : SubmitEmailInput) :
    SubmitStage → (op : Effect) → op.Reply → SubmitStage → Prop
  | insertOrIgnore {r} : SubmitMoves a id input saving (.insertOrIgnore id (input.envelope [])) r
      (afterInsert input.idempotencyKey r)
  | insertOnConflict {r} : SubmitMoves a id input saving (.insertOnConflict id (input.envelope [])) r
      (afterInsert input.idempotencyKey r)
  | found {key existing} : SubmitMoves a id input (looking key) (.selectIdByKey key) (.ok existing)
      (ended (.ok existing))
  | notFound {key e} : SubmitMoves a id input (looking key) (.selectIdByKey key) (.error e)
      (ended (.error (.persist e)))
  | fetched {refs url reader} : SubmitMoves a id input (reserved refs false) (.fetch url) (.ok reader)
      (reserved refs false)
  | fetchFailed {refs url e} : SubmitMoves a id input (reserved refs false) (.fetch url) (.error e)
      (undoing refs (.attachmentFetch e))
  | stored {refs reader filename contentType result} :
      SubmitMoves a id input (reserved refs false) (.putBlob "fs" reader) (.ok result)
        (reserved (refs ++ [⟨filename, contentType, result.sizeBytes, result.blob⟩]) false)
  | storeFailed {refs reader e} : SubmitMoves a id input (reserved refs false) (.putBlob "fs" reader)
      (.error e) (undoing refs (.attachmentStore e))
  | patched {refs} : SubmitMoves a id input (reserved refs false) (.setAttachments id refs) (.ok ())
      (reserved refs true)
  | patchFailed {refs e} : SubmitMoves a id input (reserved refs false) (.setAttachments id refs)
      (.error e) (undoing refs (.persist e))
  | enqueued {refs patched} (hq : a.queue ≠ .memory) (h : patched = true ∨ refs = []) :
      SubmitMoves a id input (reserved refs patched) (.insertEntry id) (.ok ()) (queued refs)
  | enqueueFailed {refs patched e} (hq : a.queue ≠ .memory) (h : patched = true ∨ refs = []) :
      SubmitMoves a id input (reserved refs patched) (.insertEntry id) (.error e)
        (undoing refs (.enqueue e))
  | sent {refs patched} (hq : a.queue = .memory) (h : patched = true ∨ refs = []) :
      SubmitMoves a id input (reserved refs patched) (.send id (input.envelope refs)) (.ok ())
        (queued refs)
  | sendFailed {refs patched e} (hq : a.queue = .memory) :
      SubmitMoves a id input (reserved refs patched) (.send id (input.envelope refs)) (.error e)
        (undoing refs (.enqueue e))
  | drawn {refs uuid} : SubmitMoves a id input (queued refs) .newUuid uuid (announcing refs uuid)
  | announced {refs uuid r} : SubmitMoves a id input (announcing refs uuid)
      (.insertEvent uuid (.queued id input.correlationId)) r (ended (.ok id))
  | blobDeleted {ref refs e r} : SubmitMoves a id input (undoing (ref :: refs) e)
      (.deleteBlob ref.blob) r (undoing refs e)
  | rowDeleted {e r} : SubmitMoves a id input (undoing [] e) (.deleteEmail id) r (ended (.error e))

variable {a : Adapters} {id : EmailId} {input : SubmitEmailInput}

/-- A submission that keeps to its session ends with the result of its last stage. -/
abbrev FollowsSubmit (a : Adapters) (id : EmailId) (input : SubmitEmailInput)
    (p : Prog (Except SubmitEmailError EmailId)) (st : SubmitStage) : Prop :=
  p.Follows (SubmitMoves a id input) (fun st r => st = ended r) st

theorem rollback_follows (e : SubmitEmailError) (refs : List AttachmentRef) :
    FollowsSubmit a id input (a.submitEmail.rollback id e refs) (undoing refs e) := by
  induction refs with
  | nil =>
      simp only [SubmitEmailService.rollback, Adapters.submitEmail, Adapters.repository_delete]
      exact fun r => ⟨_, .rowDeleted, rfl⟩
  | cons ref refs ih => exact fun r => ⟨_, .blobDeleted, ih⟩

theorem enqueue_follows {refs : List AttachmentRef} {patched : Bool} (h : patched = true ∨ refs = []) :
    (a.queue.emailQueue.enqueue id (input.envelope refs)).Follows (SubmitMoves a id input)
      (fun st r => st = afterEnqueue refs r) (reserved refs patched) := by
  cases hq : a.queue with
  | sqlite | postgres =>
      rintro (e | ⟨⟩)
      · exact ⟨_, .enqueueFailed (by simp [hq]) h, rfl⟩
      · exact ⟨_, .enqueued (by simp [hq]) h, rfl⟩
  | memory =>
      rintro (e | ⟨⟩)
      · exact ⟨_, .sendFailed hq, rfl⟩
      · exact ⟨_, .sent hq h, rfl⟩

theorem handOver_follows {refs : List AttachmentRef} {patched : Bool} (h : patched = true ∨ refs = []) :
    FollowsSubmit a id input (a.submitEmail.handOver id (input.envelope refs))
      (reserved refs patched) := by
  refine (enqueue_follows h).bind ?_
  rintro _ (e | ⟨⟩) rfl
  · exact rollback_follows _ _
  · exact fun uuid => ⟨_, .drawn, fun r => ⟨_, .announced, rfl⟩⟩

theorem patchAttachments_follows (refs : List AttachmentRef) :
    FollowsSubmit a id input (a.submitEmail.patchAttachments id input refs) (reserved refs false) := by
  unfold SubmitEmailService.patchAttachments
  split
  · exact handOver_follows (.inr (List.isEmpty_iff.mp ‹_›))
  · simp only [Adapters.submitEmail, Adapters.repository_setAttachments]
    rintro (e | ⟨⟩)
    · exact ⟨_, .patchFailed, rollback_follows _ _⟩
    · exact ⟨_, .patched, handOver_follows (.inl rfl)⟩

theorem store_follows {filename contentType : String} {reader : AttachmentReader}
    {refs : List AttachmentRef} {rest : List AttachmentRef → Prog (Except SubmitEmailError EmailId)}
    (hrest : ∀ refs, FollowsSubmit a id input (rest refs) (reserved refs false)) :
    FollowsSubmit a id input (a.submitEmail.store id filename contentType reader refs rest)
      (reserved refs false) := by
  rintro (e | result)
  · exact ⟨_, .storeFailed, rollback_follows _ _⟩
  · exact ⟨_, .stored, hrest _⟩

theorem writeAttachments_follows (attachments : List AttachmentInput) (refs : List AttachmentRef) :
    FollowsSubmit a id input (a.submitEmail.writeAttachments id input attachments refs)
      (reserved refs false) := by
  induction attachments generalizing refs with
  | nil => exact patchAttachments_follows refs
  | cons att rest ih =>
      cases att with
      | inline filename contentType bytes => exact store_follows ih
      | stream filename contentType reader => exact store_follows ih
      | remote filename contentType url =>
          rintro (e | reader)
          · exact ⟨_, .fetchFailed, rollback_follows _ _⟩
          · exact ⟨_, .fetched, store_follows ih⟩

theorem saveResult_follows (r : Except EmailRepositoryError Nat) :
    (saveResult id (input.envelope []) r).Follows (SubmitMoves a id input)
      (fun st r => st = afterSave r) (afterInsert input.idempotencyKey r) := by
  cases r with
  | error e => rfl
  | ok affected =>
      simp only [saveResult, afterInsert, SubmitEmailInput.envelope]
      split
      · rfl
      · cases input.idempotencyKey with
        | none => rfl
        | some key =>
            rintro (e | existing)
            · exact ⟨_, .notFound, rfl⟩
            · exact ⟨_, .found, rfl⟩

theorem save_follows :
    (a.storage.emailRepository.save id (input.envelope [])).Follows (SubmitMoves a id input)
      (fun st r => st = afterSave r) saving := by
  cases a.storage with
  | sqlite => exact fun r => ⟨_, .insertOrIgnore, saveResult_follows r⟩
  | postgres => exact fun r => ⟨_, .insertOnConflict, saveResult_follows r⟩

theorem execute_follows : FollowsSubmit a id input (a.submitEmail.execute id input) saving := by
  refine save_follows.bind ?_
  rintro _ (e | ⟨created⟩ | ⟨existing⟩) rfl
  · rfl
  · exact writeAttachments_follows _ _
  · rfl

end Catapulte
