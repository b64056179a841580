import Catapulte.Async.Session
import Catapulte.Session.Submit

namespace Catapulte

open Async

inductive Outcome
  | sent (senderName : SenderName)
  | failed (e : ProcessQueuedEmailError)
  | retrying (e : ProcessQueuedEmailError)

def DequeuedEmail.closingEvent (item : DequeuedEmail) : Outcome → LifecycleEvent
  | .sent senderName => item.sentEvent senderName
  | .failed e => item.failedEvent e
  | .retrying e => item.retryingEvent e

inductive TurnStage
  | polling
  | claiming (now : Int)
  | reading (row : ClaimedEntry)
  | orphaned (row : ClaimedEntry)
  | sending (item : DequeuedEmail)
  | sendingDrawn (item : DequeuedEmail) (uuid : Nat)
  | executing (item : DequeuedEmail)
  | acking (item : DequeuedEmail) (outcome : Outcome)
  | nacking (item : DequeuedEmail) (e : ProcessQueuedEmailError)
  | leasing (item : DequeuedEmail) (e : ProcessQueuedEmailError) (now : Int)
  | clearing (item : DequeuedEmail) (senderName : SenderName)
  | cleaning (item : DequeuedEmail) (senderName : SenderName) (refs : List AttachmentRef)
  | closing (item : DequeuedEmail) (outcome : Outcome)
  | closingDrawn (item : DequeuedEmail) (outcome : Outcome) (uuid : Nat)
  | ended

namespace TurnStage

def afterClaim : Option ClaimedEntry → TurnStage
  | none => ended
  | some row => if row.attemptCount < 2 ^ 32 then reading row else ended

def afterRead (row : ClaimedEntry) : Option Envelope → TurnStage
  | none => orphaned row
  | some envelope => sending ⟨row.emailId, envelope, row.attemptCount, row.entryId⟩

def afterPoll : Option DequeuedEmail → TurnStage
  | none => ended
  | some item => sending item

def afterProcess (item : DequeuedEmail) : Except ProcessQueuedEmailError SenderName → TurnStage
  | .ok senderName => acking item (.sent senderName)
  | .error e => if isTerminal e item.attempt then acking item (.failed e) else nacking item e

def afterAck (item : DequeuedEmail) : Outcome → TurnStage
  | .sent senderName => clearing item senderName
  | outcome => closing item outcome

end TurnStage

open TurnStage

inductive TurnMoves (a : Adapters) : TurnStage → (op : Effect) → op.Reply → TurnStage → Prop
  | clock {now} (hq : a.queue ≠ .memory) : TurnMoves a polling .now now (claiming now)
  | received {r} (hq : a.queue = .memory) : TurnMoves a polling .recv (.ok r) (afterPoll r)
  | recvFailed {e} (hq : a.queue = .memory) : TurnMoves a polling .recv (.error e) ended
  | claimed {now r} (hq : a.queue = .sqlite) : TurnMoves a (claiming now)
      (.claimNext now (now + processingTimeoutMs)) (.ok r) (afterClaim r)
  | claimFailed {now e} (hq : a.queue = .sqlite) : TurnMoves a (claiming now)
      (.claimNext now (now + processingTimeoutMs)) (.error e) ended
  | committed {now r} (hq : a.queue = .postgres) : TurnMoves a (claiming now)
      (.claimTransaction now (now + processingTimeoutMs)) (.ok r) (afterPoll r)
  | commitFailed {now e} (hq : a.queue = .postgres) : TurnMoves a (claiming now)
      (.claimTransaction now (now + processingTimeoutMs)) (.error e) ended
  | read {row r} : TurnMoves a (reading row) (.selectEmail row.emailId) (.ok r) (afterRead row r)
  | readFailed {row e} : TurnMoves a (reading row) (.selectEmail row.emailId) (.error e) ended
  | orphanDeleted {row r} : TurnMoves a (orphaned row) (.deleteEntry row.entryId) r ended
  | sendingDrawn {item uuid} : TurnMoves a (sending item) .newUuid uuid (sendingDrawn item uuid)
  | sendingPublished {item uuid r} : TurnMoves a (sendingDrawn item uuid)
      (.insertEvent uuid item.sendingEvent) r (executing item)
  | processed {item r} : TurnMoves a (executing item) (.process item.envelope) r (afterProcess item r)
  | acked {item outcome} (hq : a.queue ≠ .memory) : TurnMoves a (acking item outcome)
      (.deleteEntry item.token) (.ok ()) (afterAck item outcome)
  | ackFailed {item outcome e} (hq : a.queue ≠ .memory) : TurnMoves a (acking item outcome)
      (.deleteEntry item.token) (.error e) ended
  | removed {item outcome} (hq : a.queue = .memory) : TurnMoves a (acking item outcome)
      (.removePending item.token) (.ok ()) (afterAck item outcome)
  | removeFailed {item outcome e} (hq : a.queue = .memory) : TurnMoves a (acking item outcome)
      (.removePending item.token) (.error e) ended
  | nackClock {item e now} (hq : a.queue ≠ .memory) : TurnMoves a (nacking item e) .now now
      (leasing item e now)
  | leased {item e now} : TurnMoves a (leasing item e now)
      (.leaseEntry item.token (nackUntil now (backoff item.attempt))) (.ok ())
      (closing item (.retrying e))
  | leaseFailed {item e now e'} : TurnMoves a (leasing item e now)
      (.leaseEntry item.token (nackUntil now (backoff item.attempt))) (.error e') ended
  | requeued {item e} (hq : a.queue = .memory) : TurnMoves a (nacking item e)
      (.requeuePending item.token (backoff item.attempt)) (.ok ()) (closing item (.retrying e))
  | requeueFailed {item e e'} (hq : a.queue = .memory) : TurnMoves a (nacking item e)
      (.requeuePending item.token (backoff item.attempt)) (.error e') ended
  | cleared {item senderName r} : TurnMoves a (clearing item senderName) (.setAttachments item.id []) r
      (cleaning item senderName item.envelope.attachments)
  | cleaned {item senderName ref refs r} : TurnMoves a (cleaning item senderName (ref :: refs))
      (.deleteBlob ref.blob) r (cleaning item senderName refs)
  | sentDrawn {item senderName uuid} : TurnMoves a (cleaning item senderName []) .newUuid uuid
      (closingDrawn item (.sent senderName) uuid)
  | closingDrawn {item outcome uuid} : TurnMoves a (closing item outcome) .newUuid uuid
      (closingDrawn item outcome uuid)
  | closed {item outcome uuid r} : TurnMoves a (closingDrawn item outcome uuid)
      (.insertEvent uuid (item.closingEvent outcome)) r ended

variable {a : Adapters}

abbrev FollowsTurn (a : Adapters) {α : Type} (p : Prog α) (st : TurnStage) : Prop :=
  p.Follows (TurnMoves a) (fun st _ => st = ended) st

theorem ack_follows (item : DequeuedEmail) (outcome : Outcome) :
    (a.queue.emailQueue.ack item.token).Follows (TurnMoves a)
      (fun st r => st = match r with | .ok () => afterAck item outcome | .error _ => ended)
      (acking item outcome) := by
  cases hq : a.queue with
  | sqlite | postgres =>
      rintro (e | ⟨⟩)
      · exact ⟨_, .ackFailed (by simp [hq]), rfl⟩
      · exact ⟨_, .acked (by simp [hq]), rfl⟩
  | memory =>
      rintro (e | ⟨⟩)
      · exact ⟨_, .removeFailed hq, rfl⟩
      · exact ⟨_, .removed hq, rfl⟩

theorem nack_follows (item : DequeuedEmail) (e : ProcessQueuedEmailError) :
    (a.queue.emailQueue.nack item.token (backoff item.attempt)).Follows (TurnMoves a)
      (fun st r => st = match r with | .ok () => closing item (.retrying e) | .error _ => ended)
      (nacking item e) := by
  cases hq : a.queue with
  | sqlite | postgres =>
      refine fun now => ⟨_, .nackClock (by simp [hq]), ?_⟩
      rintro (e' | ⟨⟩)
      · exact ⟨_, .leaseFailed, rfl⟩
      · exact ⟨_, .leased, rfl⟩
  | memory =>
      rintro (e' | ⟨⟩)
      · exact ⟨_, .requeueFailed hq, rfl⟩
      · exact ⟨_, .requeued hq, rfl⟩

theorem closing_follows (item : DequeuedEmail) (outcome : Outcome) :
    FollowsTurn a (do let _ ← publish (item.closingEvent outcome); return ()) (closing item outcome) :=
  fun _ => ⟨_, .closingDrawn, fun _ => ⟨_, .closed, rfl⟩⟩

theorem cleanUp_follows (item : DequeuedEmail) (senderName : SenderName) (refs : List AttachmentRef) :
    FollowsTurn a (a.worker.cleanUp item senderName refs) (cleaning item senderName refs) := by
  induction refs with
  | nil => exact fun _ => ⟨_, .sentDrawn, fun _ => ⟨_, .closed, rfl⟩⟩
  | cons ref refs ih => exact fun r => ⟨_, .cleaned, ih⟩

theorem onSuccess_follows (item : DequeuedEmail) (senderName : SenderName) :
    FollowsTurn a (a.worker.onSuccess item senderName) (acking item (.sent senderName)) := by
  refine (ack_follows item _).bind ?_
  rintro _ (e | ⟨⟩) rfl
  · rfl
  · simp only [Adapters.worker, Adapters.repository_setAttachments]
    exact fun r => ⟨_, .cleared, cleanUp_follows item senderName _⟩

theorem onFailure_follows (item : DequeuedEmail) (e : ProcessQueuedEmailError) :
    FollowsTurn a (a.worker.onFailure item e) (afterProcess item (.error e)) := by
  simp only [WorkerState.onFailure, afterProcess]
  split
  · refine (ack_follows item (.failed e)).bind ?_
    rintro _ (e' | ⟨⟩) rfl
    · rfl
    · exact closing_follows item (.failed e)
  · refine (nack_follows item e).bind ?_
    rintro _ (e' | ⟨⟩) rfl
    · rfl
    · exact closing_follows item (.retrying e)

theorem processOne_follows (item : DequeuedEmail) :
    FollowsTurn a (a.worker.processOne item) (sending item) := by
  refine fun uuid => ⟨_, .sendingDrawn, fun r => ⟨_, .sendingPublished, ?_⟩⟩
  rintro (e | senderName)
  · exact ⟨_, .processed, onFailure_follows item e⟩
  · exact ⟨_, .processed, onSuccess_follows item senderName⟩

theorem fetchClaimed_follows (row : ClaimedEntry) :
    (SqliteAdapter.fetchClaimed row).Follows (TurnMoves a)
      (fun st r => st = match r with | .ok item => afterPoll item | .error _ => ended)
      (afterClaim (some row)) := by
  simp only [SqliteAdapter.fetchClaimed, afterClaim]
  split
  · rintro (e | _ | envelope)
    · exact ⟨_, .readFailed, rfl⟩
    · refine ⟨_, .read, ?_⟩
      rintro (e | ⟨⟩)
      · exact ⟨_, .orphanDeleted, rfl⟩
      · exact ⟨_, .orphanDeleted, rfl⟩
    · exact ⟨_, .read, rfl⟩
  · rfl

theorem poll_follows : a.queue.emailQueue.poll.Follows (TurnMoves a)
    (fun st r => st = match r with | .ok item => afterPoll item | .error _ => ended) polling := by
  cases hq : a.queue with
  | sqlite =>
      refine fun now => ⟨_, .clock (by simp [hq]), ?_⟩
      rintro (e | _ | row)
      · exact ⟨_, .claimFailed hq, rfl⟩
      · exact ⟨_, .claimed hq, rfl⟩
      · exact ⟨_, .claimed hq, fetchClaimed_follows row⟩
  | postgres =>
      refine fun now => ⟨_, .clock (by simp [hq]), ?_⟩
      rintro (e | item)
      · exact ⟨_, .commitFailed hq, rfl⟩
      · exact ⟨_, .committed hq, rfl⟩
  | memory =>
      rintro (e | item)
      · exact ⟨_, .recvFailed hq, rfl⟩
      · exact ⟨_, .received hq, rfl⟩

theorem turn_follows : FollowsTurn a a.worker.turn polling := by
  refine poll_follows.bind ?_
  rintro _ (e | _ | item) rfl
  · rfl
  · rfl
  · exact processOne_follows item

end Catapulte
