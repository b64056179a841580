import Catapulte.Storage.World
import Catapulte.Domain.SubmitEmail
import Catapulte.Worker.ProcessOne
import Catapulte.Gc.Sweep

namespace Catapulte

open Async

abbrev Prog (α : Type) := Program Sys α

abbrev ask (op : Effect) : Prog op.Reply := @Program.call Sys op

def saveResult (id : EmailId) (envelope : Envelope) :
    Except EmailRepositoryError Nat → Prog (Except EmailRepositoryError SaveResult)
  | .error e => return .error e
  | .ok affected =>
      if affected = 1 then return .ok (.created id)
      else
        match envelope.idempotencyKey with
        | none => return .error (.storage "insert skipped with no idempotency key (unexpected id collision)")
        | some key => do
            match ← ask (.selectIdByKey key) with
            | .error e => return .error e
            | .ok existing => return .ok (.duplicate existing)

namespace SqliteAdapter

def save (id : EmailId) (envelope : Envelope) : Prog (Except EmailRepositoryError SaveResult) := do
  saveResult id envelope (← ask (.insertOrIgnore id envelope))

def emailRepository : EmailRepository Prog where
  save := save
  listAllAttachmentBlobs := ask .selectLiveBodies
  setAttachments id attachments := ask (.setAttachments id attachments)
  delete id := ask (.deleteEmail id)

end SqliteAdapter

namespace PostgresAdapter

def save (id : EmailId) (envelope : Envelope) : Prog (Except EmailRepositoryError SaveResult) := do
  saveResult id envelope (← ask (.insertOnConflict id envelope))

def emailRepository : EmailRepository Prog where
  save := save
  listAllAttachmentBlobs := ask .selectLiveBodies
  setAttachments id attachments := ask (.setAttachments id attachments)
  delete id := ask (.deleteEmail id)

end PostgresAdapter

inductive StorageAdapter
  | sqlite
  | postgres
  deriving DecidableEq, Repr

def StorageAdapter.emailRepository : StorageAdapter → EmailRepository Prog
  | sqlite => SqliteAdapter.emailRepository
  | postgres => PostgresAdapter.emailRepository

/-- The event id is drawn before the insert is sent. The other sinks of the
publisher do not touch the database and their failures are swallowed. -/
def publish (event : LifecycleEvent) : Prog (Except EventPublisherError Unit) := do
  let uuid ← ask .newUuid
  ask (.insertEvent uuid event)

def eventPublisher : EventPublisher Prog := ⟨publish⟩

def processingTimeoutMs : Int := 300000

/-- `now_ms().saturating_add(delay_ms)`. -/
def nackUntil (now : Int) (delay : Duration) : Int :=
  min (now + min (delay.asMillis : Int) i64Max) i64Max

def sqlNack (token : AckToken) (delay : Duration) : Prog (Except EmailQueueError Unit) := do
  let now ← ask .now
  ask (.leaseEntry token (nackUntil now delay))

namespace SqliteAdapter

/-- After the claim: the email row is read, and an orphaned entry is acked. -/
def fetchClaimed (row : ClaimedEntry) : Prog (Except EmailQueueError (Option DequeuedEmail)) :=
  if row.attemptCount < 2 ^ 32 then do
    match ← ask (.selectEmail row.emailId) with
    | .error e => return .error e
    | .ok (some envelope) => return .ok (some ⟨row.emailId, envelope, row.attemptCount, row.entryId⟩)
    | .ok none =>
        match ← ask (.deleteEntry row.entryId) with
        | .error e => return .error e
        | .ok () => return .ok none
  else return .error (.storage "attempt_count out of range")

def tryDequeue : Prog (Except EmailQueueError (Option DequeuedEmail)) := do
  let now ← ask .now
  match ← ask (.claimNext now (now + processingTimeoutMs)) with
  | .error e => return .error e
  | .ok none => return .ok none
  | .ok (some row) => fetchClaimed row

def emailQueue : EmailQueue Prog where
  enqueue id _ := ask (.insertEntry id)
  poll := tryDequeue
  ack token := ask (.deleteEntry token)
  nack := sqlNack

end SqliteAdapter

namespace PostgresAdapter

def tryDequeue : Prog (Except EmailQueueError (Option DequeuedEmail)) := do
  let now ← ask .now
  ask (.claimTransaction now (now + processingTimeoutMs))

def emailQueue : EmailQueue Prog where
  enqueue id _ := ask (.insertEntry id)
  poll := tryDequeue
  ack token := ask (.deleteEntry token)
  nack := sqlNack

end PostgresAdapter

def MemoryQueue.emailQueue : EmailQueue Prog where
  enqueue id envelope := ask (.send id envelope)
  poll := ask .recv
  ack token := ask (.removePending token)
  nack token delay := ask (.requeuePending token delay)

/-- The queues of the system. The one over NATS has a client and a server of its own. -/
inductive QueueAdapter
  | sqlite
  | postgres
  | memory
  deriving DecidableEq, Repr

def QueueAdapter.emailQueue : QueueAdapter → EmailQueue Prog
  | sqlite => SqliteAdapter.emailQueue
  | postgres => PostgresAdapter.emailQueue
  | memory => MemoryQueue.emailQueue

namespace FsAttachmentStore

/-- The loop over the directory entries; hidden names are skipped. -/
def keysOlderThan (age : Duration) : List String → List String → Prog (Except String (List String))
  | [], keys => return .ok keys
  | name :: entries, keys =>
      if name.front? = some '.' then keysOlderThan age entries keys
      else do
        let older ← ask (.isOlderThan "fs" name age)
        keysOlderThan age entries (if older then keys ++ [name] else keys)

def listKeysOlderThan (age : Duration) : Prog (Except String (List String)) := do
  match ← ask .readDir with
  | .error e => return .error e
  | .ok entries => keysOlderThan age entries []

def attachmentStore : AttachmentStore Prog where
  backendName := "fs"
  put reader := ask (.putBlob "fs" reader)
  delete blob := ask (.deleteBlob blob)
  listKeysOlderThan := listKeysOlderThan

end FsAttachmentStore

structure Adapters where
  storage : StorageAdapter
  queue : QueueAdapter
  gracePeriod : Duration

namespace Adapters

def submitEmail (a : Adapters) : SubmitEmailService Prog where
  repository := a.storage.emailRepository
  queue := a.queue.emailQueue
  eventPublisher := Catapulte.eventPublisher
  attachmentStore := FsAttachmentStore.attachmentStore
  attachmentFetcher := ⟨fun url => ask (.fetch url)⟩

def worker (a : Adapters) : WorkerState Prog where
  processQueuedEmail := ⟨fun envelope => ask (.process envelope)⟩
  emailQueue := a.queue.emailQueue
  eventPublisher := Catapulte.eventPublisher
  attachmentStore := FsAttachmentStore.attachmentStore
  emailRepository := a.storage.emailRepository

def attachmentGc (a : Adapters) : AttachmentGc Prog where
  repository := a.storage.emailRepository
  store := FsAttachmentStore.attachmentStore
  isCancelled := ask .isCancelled
  gracePeriod := a.gracePeriod

end Adapters

/-- Everything that runs concurrently. -/
inductive Job
  | submit (id : EmailId) (input : SubmitEmailInput)
  | turn
  | sweep

inductive JobResult
  | submitted (result : Except SubmitEmailError EmailId)
  | worked
  | swept (result : Except SweepError Unit)

def Job.program (a : Adapters) : Job → Prog JobResult
  | submit id input => JobResult.submitted <$> a.submitEmail.execute id input
  | turn => (fun _ => JobResult.worked) <$> a.worker.turn
  | sweep => JobResult.swept <$> a.attachmentGc.sweepOnce

end Catapulte
