import Catapulte.Async.Past
import Catapulte.Async.Session
import Catapulte.Storage.Adapters

namespace Catapulte

open Async

/-- The calls of a SQL queue. An ack or a nack is made for a delivery, that is for the
`try_dequeue` call that returned the item. -/
inductive QueueCall (ι : Type)
  | enqueue (id : EmailId) (envelope : Envelope)
  | tryDequeue
  | ack (delivery : ι) (token : AckToken)
  | nack (delivery : ι) (token : AckToken) (delay : Duration)

inductive QueueResult
  | enqueued (result : Except EmailQueueError Unit)
  | dequeued (result : Except EmailQueueError (Option DequeuedEmail))
  | settled (result : Except EmailQueueError Unit)

def StorageAdapter.emailQueue : StorageAdapter → EmailQueue Prog
  | sqlite => SqliteAdapter.emailQueue
  | postgres => PostgresAdapter.emailQueue

variable {ι : Type}

namespace QueueCall

def program (backend : StorageAdapter) : QueueCall ι → Prog QueueResult
  | enqueue id envelope => QueueResult.enqueued <$> backend.emailQueue.enqueue id envelope
  | tryDequeue => QueueResult.dequeued <$> backend.emailQueue.poll
  | ack _ token => QueueResult.settled <$> backend.emailQueue.ack token
  | nack _ token delay => QueueResult.settled <$> backend.emailQueue.nack token delay

def settling : QueueCall ι → Option (ι × AckToken)
  | ack delivery token | nack delivery token _ => some (delivery, token)
  | _ => none

end QueueCall

/-- What happens between the calls: time passes, and the rest of the application writes
to the `emails` table as it likes. -/
inductive QueueDrift
  | tick (nanos : Nat)
  | emails (rows : List EmailRow)

def queueDrift (w : World) : QueueDrift → Option World
  | .tick nanos => some { w with now := w.now + nanos }
  | .emails rows => some { w with emails := rows }

@[reducible] def queueMachine : Machine Sys World Choice QueueDrift := ⟨perform, queueDrift⟩

abbrev QueuePool (ι : Type) := Pool Sys World ι QueueResult

abbrev QueueAct (ι : Type) := Action ι Choice QueueDrift

abbrev QueuePast (ι : Type) := List (QueuePool ι × QueueAct ι)

def QueuePool.start (backend : StorageAdapter) (w : World) (calls : ι → QueueCall ι) : QueuePool ι :=
  Pool.start w fun i => (calls i).program backend

inductive QueueStage
  | begun
  | claiming (now : Int)
  | reading (row : ClaimedEntry)
  | orphaned (row : ClaimedEntry)
  | leasing (now : Int)
  | ended (result : QueueResult)

namespace QueueStage

def afterClaim : Except EmailQueueError (Option ClaimedEntry) → QueueStage
  | .error e => ended (.dequeued (.error e))
  | .ok none => ended (.dequeued (.ok none))
  | .ok (some row) =>
      if row.attemptCount < 2 ^ 32 then reading row else ended (.dequeued (.error (.storage "attempt_count out of range")))

def afterRead (row : ClaimedEntry) : Except EmailQueueError (Option Envelope) → QueueStage
  | .error e => ended (.dequeued (.error e))
  | .ok none => orphaned row
  | .ok (some envelope) => ended (.dequeued (.ok (some ⟨row.emailId, envelope, row.attemptCount, row.entryId⟩)))

end QueueStage

open QueueStage

inductive QueueMoves (backend : StorageAdapter) :
    QueueCall ι → QueueStage → (op : Effect) → op.Reply → QueueStage → Prop
  | stored {id envelope r} : QueueMoves backend (.enqueue id envelope) begun (.insertEntry id) r (ended (.enqueued r))
  | clock {now} : QueueMoves backend .tryDequeue begun .now now (claiming now)
  | claimed {now r} (hb : backend = .sqlite) : QueueMoves backend .tryDequeue (claiming now)
      (.claimNext now (now + processingTimeoutMs)) r (afterClaim r)
  | committed {now r} (hb : backend = .postgres) : QueueMoves backend .tryDequeue (claiming now)
      (.claimTransaction now (now + processingTimeoutMs)) r (ended (.dequeued r))
  | read {row r} : QueueMoves backend .tryDequeue (reading row) (.selectEmail row.emailId) r (afterRead row r)
  | orphanDeleted {row r} : QueueMoves backend .tryDequeue (orphaned row) (.deleteEntry row.entryId) r
      (ended (.dequeued (r.map fun _ => none)))
  | acked {delivery token r} : QueueMoves backend (.ack delivery token) begun (.deleteEntry token) r (ended (.settled r))
  | nackClock {delivery token delay now} : QueueMoves backend (.nack delivery token delay) begun .now now (leasing now)
  | leased {delivery token delay now r} : QueueMoves backend (.nack delivery token delay) (leasing now)
      (.leaseEntry token (nackUntil now delay)) r (ended (.settled r))

variable {backend : StorageAdapter}

abbrev FollowsQueue (backend : StorageAdapter) (call : QueueCall ι) (p : Prog QueueResult) (st : QueueStage) : Prop :=
  p.Follows (QueueMoves backend call) (fun st result => st = ended result) st

theorem fetchClaimed_followsQueue (row : ClaimedEntry) : (SqliteAdapter.fetchClaimed row).Follows
    (QueueMoves (ι := ι) backend .tryDequeue) (fun st r => st = ended (.dequeued r)) (afterClaim (.ok (some row))) := by
  simp only [SqliteAdapter.fetchClaimed, afterClaim]
  split
  · rintro (e | _ | envelope)
    · exact ⟨_, .read, rfl⟩
    · refine ⟨_, .read, ?_⟩
      rintro (e | ⟨⟩) <;> exact ⟨_, .orphanDeleted, rfl⟩
    · exact ⟨_, .read, rfl⟩
  · rfl

theorem poll_followsQueue : backend.emailQueue.poll.Follows (QueueMoves (ι := ι) backend .tryDequeue)
    (fun st r => st = ended (.dequeued r)) begun := by
  cases backend with
  | sqlite =>
      refine fun now => ⟨_, .clock, ?_⟩
      rintro (e | _ | row)
      · exact ⟨_, .claimed rfl, rfl⟩
      · exact ⟨_, .claimed rfl, rfl⟩
      · exact ⟨_, .claimed rfl, fetchClaimed_followsQueue row⟩
  | postgres => exact fun now => ⟨_, .clock, fun r => ⟨_, .committed rfl, rfl⟩⟩

theorem nack_followsQueue (delivery : ι) (token : AckToken) (delay : Duration) :
    (sqlNack token delay).Follows (QueueMoves backend (.nack delivery token delay))
      (fun st r => st = ended (.settled r)) begun :=
  fun _ => ⟨_, .nackClock, fun _ => ⟨_, .leased, rfl⟩⟩

theorem call_follows (call : QueueCall ι) : FollowsQueue backend call (call.program backend) begun := by
  cases call with
  | enqueue id envelope => cases backend <;> exact fun r => ⟨_, .stored, rfl⟩
  | tryDequeue => exact poll_followsQueue.map fun st r h => h
  | ack delivery token => cases backend <;> exact fun r => ⟨_, .acked, rfl⟩
  | nack delivery token delay => cases backend <;> exact (nack_followsQueue delivery token delay).map fun st r h => h

end Catapulte
