import Mathlib.Tactic.Simps.Basic
import Catapulte.Async.Pool
import Catapulte.Domain.Port

namespace Catapulte

/-- A row of `emails`: the columns are those of the envelope. -/
structure EmailRow where
  id : EmailId
  envelope : Envelope
  createdAt : Int

/-- A row of `lifecycle_events`. -/
structure EventRow where
  id : Nat
  emailId : EmailId
  eventType : String
  payload : Json
  senderName : Option String
  errorClass : Option String
  createdAt : Int

/-- A row of `email_queue`. -/
structure QueueEntry where
  id : Nat
  emailId : EmailId
  enqueuedAt : Int
  claimedUntil : Option Int
  attemptCount : Nat
  deriving DecidableEq, Repr

structure QueueItem where
  id : EmailId
  envelope : Envelope
  attempt : Nat

/-- `sleeping` are the requeue tasks spawned by `nack`, with their wake times. -/
structure MemoryQueue where
  channel : List QueueItem
  pending : List (Nat × QueueItem)
  sleeping : List (Nat × QueueItem)
  nextToken : Nat

structure Blob where
  ref : BlobRef
  bytes : List UInt8
  modified : Nat

/-- The shared state. `now` counts nanoseconds since the Unix epoch, `issued`
are the blob keys handed out so far and `lastUuid` is the latest v7 uuid. -/
structure World where
  emails : List EmailRow
  events : List EventRow
  queue : List QueueEntry
  memory : MemoryQueue
  blobs : List Blob
  issued : List String
  lastUuid : Nat
  now : Nat

def i64Max : Int := 2 ^ 63 - 1

def World.nowMs (w : World) : Int := min (w.now / 1000000 : Nat) i64Max

def MemoryQueue.new : MemoryQueue := ⟨[], [], [], 0⟩

def World.empty : World := ⟨[], [], [], .new, [], [], 0, 0⟩

/-- What a call cannot know beforehand: whether it returns `Err` and, if so,
whether it took effect all the same, and the data the outside chooses. -/
structure Choice where
  fails : Bool := false
  lands : Bool := false
  uuid : Nat := 0
  key : String := ""
  stamp : Nat := 0
  bytes : List UInt8 := []
  names : List String := []
  flag : Bool := false
  fetchError : AttachmentFetchError := .tooLarge
  result : Except ProcessQueuedEmailError SenderName := .ok ⟨""⟩

def Choice.settle {ε α : Type} (c : Choice) (w w' : World) (e : ε) (a : α) : World × Except ε α :=
  if c.fails then (if c.lands then w' else w, .error e) else (w', .ok a)

/-- What the claiming `UPDATE ... RETURNING` returns. -/
structure ClaimedEntry where
  entryId : Nat
  emailId : EmailId
  attemptCount : Nat
  deriving DecidableEq, Repr

inductive Effect
  | now
  | newUuid
  | isCancelled
  | insertOrIgnore (id : EmailId) (envelope : Envelope)
  | insertOnConflict (id : EmailId) (envelope : Envelope)
  | selectIdByKey (key : String)
  | selectEmail (id : EmailId)
  | deleteEmail (id : EmailId)
  | setAttachments (id : EmailId) (attachments : List AttachmentRef)
  | selectLiveBodies
  | insertEvent (uuid : Nat) (event : LifecycleEvent)
  | insertEntry (id : EmailId)
  | claimNext (now claimUntil : Int)
  | claimTransaction (now claimUntil : Int)
  | deleteEntry (token : AckToken)
  | leaseEntry (token : AckToken) (claimedUntil : Int)
  | send (id : EmailId) (envelope : Envelope)
  | recv
  | removePending (token : AckToken)
  | requeuePending (token : AckToken) (delay : Duration)
  | fetch (url : Url)
  | putBlob (backend : String) (reader : AttachmentReader)
  | deleteBlob (blob : BlobRef)
  | readDir
  | isOlderThan (backend key : String) (age : Duration)
  | process (envelope : Envelope)

@[reducible] def Effect.Reply : Effect → Type
  | now => Int
  | newUuid => Nat
  | isCancelled => Bool
  | insertOrIgnore .. | insertOnConflict .. => Except EmailRepositoryError Nat
  | selectIdByKey _ => Except EmailRepositoryError EmailId
  | selectEmail _ => Except EmailQueueError (Option Envelope)
  | deleteEmail _ | setAttachments .. => Except EmailRepositoryError Unit
  | selectLiveBodies => Except EmailRepositoryError (List BlobRef)
  | insertEvent .. => Except EventPublisherError Unit
  | insertEntry _ | deleteEntry _ | leaseEntry .. | send .. | removePending _ | requeuePending .. =>
      Except EmailQueueError Unit
  | claimNext .. => Except EmailQueueError (Option ClaimedEntry)
  | claimTransaction .. | recv => Except EmailQueueError (Option DequeuedEmail)
  | fetch _ => Except AttachmentFetchError AttachmentReader
  | putBlob .. => Except AttachmentStoreError PutResult
  | deleteBlob _ => Except AttachmentStoreError Unit
  | readDir => Except String (List String)
  | isOlderThan .. => Bool
  | process _ => Except ProcessQueuedEmailError SenderName

@[reducible] def Sys : Async.Interface := ⟨Effect, Effect.Reply⟩

namespace World

def findEmail (w : World) (id : EmailId) : Option EmailRow := w.emails.find? (fun r => r.id = id)

def findKey (w : World) (key : String) : Option EmailRow :=
  w.emails.find? (fun r => r.envelope.idempotencyKey = some key)

/-- The partial unique index on `idempotency_key`. -/
def keyTaken (w : World) : Option String → Bool
  | none => false
  | some key => (w.findKey key).isSome

/-- A foreign key of `email_queue` or `lifecycle_events` points to the row. -/
def referenced (w : World) (id : EmailId) : Bool :=
  w.queue.any (fun e => e.emailId = id) || w.events.any (fun e => e.emailId = id)

@[simps] def insertEmail (w : World) (id : EmailId) (envelope : Envelope) : World :=
  { w with emails := w.emails ++ [⟨id, envelope, w.nowMs⟩] }

@[simps] def deleteEmail (w : World) (id : EmailId) : World :=
  { w with emails := w.emails.filter (fun r => r.id ≠ id) }

@[simps] def setAttachments (w : World) (id : EmailId) (attachments : List AttachmentRef) : World :=
  { w with emails := w.emails.map fun r =>
      if r.id = id then { r with envelope := { r.envelope with attachments } } else r }

def eventRow (w : World) (uuid : Nat) (event : LifecycleEvent) : EventRow where
  id := uuid
  emailId := event.emailId
  eventType := event.eventType
  payload := event.payload
  senderName := event.senderName.map SenderName.name
  errorClass := event.errorClass.map ErrorClass.asStr
  createdAt := w.nowMs

@[simps] def insertEvent (w : World) (uuid : Nat) (event : LifecycleEvent) : World :=
  { w with events := w.events ++ [w.eventRow uuid event] }

end World

/-- `ORDER BY created_at DESC, id DESC` puts `a` before `b`. -/
def EventRow.later (a b : EventRow) : Bool :=
  decide (b.createdAt < a.createdAt ∨ (a.createdAt = b.createdAt ∧ b.id < a.id))

def latestEvent : List EventRow → Option EventRow
  | [] => none
  | e :: es =>
      match latestEvent es with
      | none => some e
      | some l => if e.later l then some e else some l

namespace World

/-- `COALESCE((SELECT event_type ... LIMIT 1), 'queued')`. -/
def latestEventType (w : World) (id : EmailId) : String :=
  match latestEvent (w.events.filter (fun e => e.emailId = id)) with
  | none => "queued"
  | some e => e.eventType

def liveBlobs (w : World) : List BlobRef :=
  (w.emails.filter (fun r =>
    w.latestEventType r.id ≠ "delivery.succeeded" ∧ w.latestEventType r.id ≠ "delivery.failed")).flatMap
    fun r => r.envelope.attachments.map AttachmentRef.blob

end World

/-- `claimed_until IS NULL OR claimed_until < now`. -/
def QueueEntry.eligible (now : Int) (e : QueueEntry) : Bool :=
  match e.claimedUntil with
  | none => true
  | some t => decide (t < now)

/-- The entry `ORDER BY enqueued_at ASC LIMIT 1` may pick: ties are open. -/
def firstEligible (now : Int) (q : List QueueEntry) (e : QueueEntry) : Bool :=
  e.eligible now && q.all fun e' => !e'.eligible now || decide (e.enqueuedAt ≤ e'.enqueuedAt)

namespace World

@[simps] def insertEntry (w : World) (uuid : Nat) (id : EmailId) : World :=
  { w with queue := w.queue ++ [⟨uuid, id, w.nowMs, none, 0⟩], lastUuid := uuid }

@[simps] def deleteEntry (w : World) (token : AckToken) : World :=
  { w with queue := w.queue.filter (fun e => e.id ≠ token) }

@[simps] def updateEntry (w : World) (token : AckToken) (f : QueueEntry → QueueEntry) : World :=
  { w with queue := w.queue.map fun e => if e.id = token then f e else e }

@[simps!] def claimEntry (w : World) (token : AckToken) (claimUntil : Int) : World :=
  w.updateEntry token fun e =>
    { e with claimedUntil := some claimUntil, attemptCount := e.attemptCount + 1 }

@[simps!] def leaseEntry (w : World) (token : AckToken) (claimedUntil : Int) : World :=
  w.updateEntry token fun e => { e with claimedUntil := some claimedUntil }

/-- The entry a claim gets, if any; `pick` resolves ties in `enqueued_at`. -/
def pickEntry (w : World) (now : Int) (pick : Nat) : Option (Option QueueEntry) :=
  if w.queue.any (·.eligible now) then
    (w.queue.find? fun e => e.id = pick && firstEligible now w.queue e).map some
  else some none

/-- The Postgres transaction after its entry was picked: the claim, and the
deletion of the entry when its email row is missing. -/
def claimInTransaction (w : World) (e : QueueEntry) (claimUntil : Int) :
    World × Option DequeuedEmail :=
  match w.findEmail e.emailId with
  | none => ((w.claimEntry e.id claimUntil).deleteEntry e.id, none)
  | some r => (w.claimEntry e.id claimUntil, some ⟨e.emailId, r.envelope, e.attemptCount + 1, e.id⟩)

end World

namespace MemoryQueue

def send (q : MemoryQueue) (id : EmailId) (envelope : Envelope) : MemoryQueue :=
  { q with channel := q.channel ++ [⟨id, envelope, 1⟩] }

def remove (q : MemoryQueue) (token : AckToken) : MemoryQueue :=
  { q with pending := q.pending.filter (fun p => p.1 ≠ token) }

def recv (q : MemoryQueue) : Option (MemoryQueue × DequeuedEmail) :=
  match q.channel with
  | [] => none
  | item :: channel =>
      some ({ q with channel, pending := q.pending ++ [(q.nextToken, item)], nextToken := q.nextToken + 1 },
        ⟨item.id, item.envelope, item.attempt, q.nextToken⟩)

def requeue (q : MemoryQueue) (token : AckToken) (wake : Nat) : MemoryQueue :=
  match q.pending.find? (fun p => p.1 = token) with
  | none => q
  | some (_, item) => { q.remove token with sleeping := q.sleeping ++ [(wake, item)] }

/-- A requeue task whose delay has passed sends its item again. -/
def wakeUp (q : MemoryQueue) (now k : Nat) : Option MemoryQueue :=
  match q.sleeping[k]? with
  | some (wake, item) =>
      if wake ≤ now then
        some { q with
          channel := q.channel ++ [{ item with attempt := item.attempt + 1 }]
          sleeping := q.sleeping.eraseIdx k }
      else none
  | none => none

end MemoryQueue

namespace World

@[simps] def addBlob (w : World) (ref : BlobRef) (bytes : List UInt8) (stamp : Nat) : World :=
  { w with blobs := w.blobs ++ [⟨ref, bytes, stamp⟩], issued := w.issued ++ [ref.key] }

@[simps] def deleteBlob (w : World) (ref : BlobRef) : World :=
  { w with blobs := w.blobs.filter (fun b => b.ref ≠ ref) }

/-- The key was never handed out, and no blob is stored under it. -/
def KeyFresh (w : World) (key : String) : Prop := key ∉ w.issued ∧ ∀ b ∈ w.blobs, b.ref.key ≠ key

instance (w : World) (key : String) : Decidable (w.KeyFresh key) := inferInstanceAs (Decidable (_ ∧ _))

end World

/-- `modified.elapsed().unwrap_or(ZERO) >= age`. -/
def Blob.isOlderThan (b : Blob) (now : Nat) (age : Duration) : Bool := decide (age.nanos ≤ now - b.modified)

open World in
/-- One call on the shared state. `none` means that the choice does not fit:
a uuid or a key that is not fresh, an entry the claim cannot get, or a receive
that has to wait. -/
def perform (w : World) : (op : Effect) → Choice → Option (World × op.Reply)
  | .now, _ => some (w, w.nowMs)
  | .newUuid, c => if w.lastUuid < c.uuid then some ({ w with lastUuid := c.uuid }, c.uuid) else none
  | .isCancelled, c => some (w, c.flag)
  | .insertOrIgnore id envelope, c =>
      if (w.findEmail id).isSome || w.keyTaken envelope.idempotencyKey then
        some (c.settle w w (.storage "inserting email") 0)
      else some (c.settle w (w.insertEmail id envelope) (.storage "inserting email") 1)
  | .insertOnConflict id envelope, c =>
      if w.keyTaken envelope.idempotencyKey then
        some (c.settle w w (.storage "inserting email") 0)
      else if (w.findEmail id).isSome then some (w, .error (.storage "inserting email"))
      else some (c.settle w (w.insertEmail id envelope) (.storage "inserting email") 1)
  | .selectIdByKey key, c =>
      match c.fails, w.findKey key with
      | false, some r => some (w, .ok r.id)
      | _, _ => some (w, .error (.storage "fetching existing email by idempotency key"))
  | .selectEmail id, c =>
      if c.fails then some (w, .error (.storage "fetching email for dequeue"))
      else some (w, .ok ((w.findEmail id).map EmailRow.envelope))
  | .deleteEmail id, c =>
      if w.referenced id then some (w, .error (.storage "deleting email"))
      else some (c.settle w (w.deleteEmail id) (.storage "deleting email") ())
  | .setAttachments id attachments, c =>
      if (w.findEmail id).isSome then
        some (c.settle w (w.setAttachments id attachments) (.storage "writing body for set_attachments") ())
      else some (w, .error (.storage "email not found for set_attachments"))
  | .selectLiveBodies, c =>
      if c.fails then some (w, .error (.storage "listing email bodies for attachment blobs"))
      else some (w, .ok w.liveBlobs)
  | .insertEvent uuid event, c =>
      if (w.findEmail event.emailId).isSome then
        some (c.settle w (w.insertEvent uuid event) (.publish "inserting lifecycle event") ())
      else some (w, .error (.publish "inserting lifecycle event"))
  | .insertEntry id, c =>
      if (w.findEmail id).isNone || c.fails && !c.lands then
        some (w, .error (.storage "inserting into email_queue"))
      else if w.lastUuid < c.uuid then
        some (c.settle w (w.insertEntry c.uuid id) (.storage "inserting into email_queue") ())
      else none
  | .claimNext now claimUntil, c =>
      (w.pickEntry now c.uuid).map fun
        | none => c.settle w w (.storage "claiming next queue entry") none
        | some e => c.settle w (w.claimEntry e.id claimUntil) (.storage "claiming next queue entry")
            (some ⟨e.id, e.emailId, e.attemptCount + 1⟩)
  | .claimTransaction now claimUntil, c =>
      (w.pickEntry now c.uuid).map fun
        | none => c.settle w w (.storage "finding next queue entry") none
        | some e => c.settle w (w.claimInTransaction e claimUntil).1
            (.storage "committing dequeue transaction") (w.claimInTransaction e claimUntil).2
  | .deleteEntry token, c =>
      some (c.settle w (w.deleteEntry token) (.storage "deleting from email_queue") ())
  | .leaseEntry token claimedUntil, c =>
      some (c.settle w (w.leaseEntry token claimedUntil) (.storage "nacking email_queue entry") ())
  | .send id envelope, c =>
      if c.fails then some (w, .error (.storage "memory queue channel closed"))
      else some ({ w with memory := w.memory.send id envelope }, .ok ())
  | .recv, c =>
      if c.fails then some (w, .error (.storage "memory queue channel closed"))
      else w.memory.recv.map fun (memory, item) => ({ w with memory }, .ok (some item))
  | .removePending token, _ => some ({ w with memory := w.memory.remove token }, .ok ())
  | .requeuePending token delay, _ =>
      some ({ w with memory := w.memory.requeue token (w.now + delay.nanos) }, .ok ())
  | .fetch _, c => some (w, if c.fails then .error c.fetchError else .ok c.bytes)
  | .putBlob backend reader, c =>
      if w.KeyFresh c.key ∧ c.stamp ≤ w.now then
        some (c.settle w (w.addBlob ⟨backend, c.key⟩ reader c.stamp) (.io "put")
          ⟨⟨backend, c.key⟩, reader.length⟩)
      else none
  | .deleteBlob blob, c => some (c.settle w (w.deleteBlob blob) (.io "delete") ())
  | .readDir, c => some (w, if c.fails then .error "failed to read directory" else .ok c.names)
  | .isOlderThan backend key age, c =>
      -- A file whose metadata cannot be read is skipped.
      match c.fails, w.blobs.find? (fun b => b.ref = ⟨backend, key⟩) with
      | false, some b => some (w, b.isOlderThan w.now age)
      | _, _ => some (w, false)
  | .process _, c => some (w, c.result)

inductive Drift
  | tick (nanos : Nat)
  | wake (k : Nat)
  deriving DecidableEq, Repr

/-- Time passes, and sleeping requeue tasks wake up. The clock never goes back. -/
def drift (w : World) : Drift → Option World
  | .tick nanos => some { w with now := w.now + nanos }
  | .wake k => (w.memory.wakeUp w.now k).map fun memory => { w with memory }

@[reducible] def machine : Async.Machine Sys World Choice Drift := ⟨perform, drift⟩

end Catapulte
