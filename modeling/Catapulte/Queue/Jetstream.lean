import Catapulte.Storage.Adapters

namespace Catapulte.Nats

open Async

structure NatsConfig where
  url : String
  stream : String
  subject : String
  consumer : String
  ackWaitSecs : Nat
  maxDeliver : Int
  backoffSecs : List Nat
  deriving DecidableEq

/-- The `White_Space` characters, which `trim` removes. -/
def isWhiteSpace (c : Char) : Bool :=
  let n := c.toNat
  (9 ≤ n && n ≤ 13) || n == 32 || n == 0x85 || n == 0xA0 || n == 0x1680 || (0x2000 ≤ n && n ≤ 0x200A) ||
    n == 0x2028 || n == 0x2029 || n == 0x202F || n == 0x205F || n == 0x3000

def trim (s : List Char) : List Char := (s.dropWhile isWhiteSpace).reverse.dropWhile isWhiteSpace |>.reverse

def parseDigits : List Char → Option Nat
  | [] => none
  | cs => cs.foldlM (fun n c => if c.isDigit then some (10 * n + (c.toNat - '0'.toNat)) else none) 0

/-- `str::parse` into a `u64`. -/
def parseU64 (cs : List Char) : Option Nat := do
  let n ← parseDigits (if cs.head? = some '+' then cs.tail else cs)
  if n < 2 ^ 64 then some n else none

/-- `str::parse` into an `i64`. -/
def parseI64 (cs : List Char) : Option Int := do
  if cs.head? = some '-' then
    let n ← parseDigits cs.tail
    if n ≤ 2 ^ 63 then some (-n) else none
  else
    let n ← parseDigits (if cs.head? = some '+' then cs.tail else cs)
    if n < 2 ^ 63 then some n else none

/-- `str::split(',')`. -/
def splitCommas (cs : List Char) : List (List Char) := cs.splitOn ','

namespace NatsConfig

def parseBackoff (key : String) : List (List Char) → Except String (List Nat)
  | [] => .ok []
  | part :: parts =>
      match parseU64 (trim part) with
      | none => .error s!"invalid value in {key}: {(String.ofList part).quote}"
      | some n => (parseBackoff key parts).map (n :: ·)

/-- `env` gives the variables that are set to a Unicode value. -/
def fromEnv (pfx : String) (env : String → Option String) : Except String NatsConfig := do
  let urlKey := pfx ++ "_URL"
  let some url := env urlKey | .error s!"missing env var {urlKey}"
  let stream := (env (pfx ++ "_STREAM")).getD "CATAPULTE_EMAILS"
  let subject := (env (pfx ++ "_SUBJECT")).getD "catapulte.emails.queued"
  let consumer := (env (pfx ++ "_CONSUMER")).getD "catapulte-worker"
  let ackWaitKey := pfx ++ "_ACK_WAIT_SECS"
  let ackWaitSecs ← match env ackWaitKey with
    | none => .ok 30
    | some v => (parseU64 v.toList).elim (.error s!"invalid {ackWaitKey}: {v.quote}") .ok
  let maxDeliverKey := pfx ++ "_MAX_DELIVER"
  let maxDeliver ← match env maxDeliverKey with
    | none => .ok 3
    | some v => (parseI64 v.toList).elim (.error s!"invalid {maxDeliverKey}: {v.quote}") .ok
  let backoffKey := pfx ++ "_BACKOFF"
  let backoffSecs ← match env backoffKey with
    | none => .ok [30, 60, 120]
    | some v => parseBackoff backoffKey (splitCommas v.toList)
  pure { url, stream, subject, consumer, ackWaitSecs, maxDeliver, backoffSecs }

end NatsConfig

/-- A message of the work queue stream, which keeps it until it is acknowledged. -/
structure Message where
  seq : Nat
  id : EmailId
  envelope : Envelope
  delivered : Nat

inductive AckKind
  | ack
  | nak (delayNs : Nat)
  deriving DecidableEq

inductive Frame
  | message (seq : Nat) (id : EmailId) (envelope : Envelope)
  | reply (token : AckToken) (kind : AckKind)

/-- `buffer` is the outbound buffer of the client, oldest first. `published`
numbers the messages; `rest` is everything that is not NATS. -/
structure World where
  stream : List Message
  buffer : List Frame
  published : Nat
  rest : Catapulte.World

def World.empty : World := ⟨[], [], 0, .empty⟩

structure Choice where
  fails : Bool := false
  lands : Bool := false
  flushed : Bool := false
  seq : Nat := 0
  rest : Catapulte.Choice := {}

inductive Op
  | publish (id : EmailId) (envelope : Envelope)
  | reply (token : AckToken) (kind : AckKind)
  | fetch
  | rest (op : Effect)

@[reducible] def Op.Reply : Op → Type
  | publish .. | reply .. => Except EmailQueueError Unit
  | fetch => Except EmailQueueError (Option DequeuedEmail)
  | rest op => op.Reply

@[reducible] def Client : Interface := ⟨Op, Op.Reply⟩

/-- The server takes one frame. An acknowledged message leaves the stream; a
`-NAK` only moves its next delivery, whose time is left open. -/
def Frame.apply (stream : List Message) : Frame → List Message
  | message seq id envelope => stream ++ [⟨seq, id, envelope, 0⟩]
  | reply token .ack => stream.filter fun m => m.seq ≠ token
  | reply _ (.nak _) => stream

namespace World

@[simps] def flush (w : World) : World := { w with stream := w.buffer.foldl Frame.apply w.stream, buffer := [] }

/-- `Client::publish`: the frame is in the buffer; whether the server has it by
the time of the reply is up to the choice. -/
def send (w : World) (frame : Frame) (flushed : Bool) : World :=
  let w' := { w with buffer := w.buffer ++ [frame] }
  if flushed then w'.flush else w'

@[simps] def deliver (w : World) (seq : Nat) : World :=
  { w with stream := w.stream.map fun m => if m.seq = seq then { m with delivered := m.delivered + 1 } else m }

end World

/-- At most `max_deliver` deliveries when that is positive, otherwise any number. -/
def Message.deliverable (maxDeliver : Int) (m : Message) : Bool := decide (maxDeliver ≤ 0 ∨ (m.delivered : Int) < maxDeliver)

/-- `u32::try_from(info.delivered).unwrap_or(1).max(1)`. -/
def attemptOf (delivered : Nat) : Nat := max (if delivered < 2 ^ 32 then delivered else 1) 1

/-- The delivery of the message to which it is handed the next time. -/
def Message.item (m : Message) : DequeuedEmail := ⟨m.id, m.envelope, attemptOf (m.delivered + 1), m.seq⟩

def nakDelay (delay : Duration) : Nat := min delay.nanos (2 ^ 63 - 1)

/-- One call. A fetch may hand out any message that can be delivered: when an
acknowledgement or a delay has run out is left open. -/
def perform (maxDeliver : Int) (w : World) : (op : Op) → Choice → Option (World × op.Reply)
  | .publish id envelope, c =>
      if c.fails then some (w, .error (.storage "publishing to NATS"))
      else some (({ w with published := w.published + 1 }).send (.message w.published id envelope) c.flushed, .ok ())
  | .reply token kind, c =>
      if c.fails then
        some (w, .error (.storage (if kind = .ack then "publishing ack to NATS" else "publishing nack to NATS")))
      else some (w.send (.reply token kind) c.flushed, .ok ())
  | .fetch, c =>
      match w.stream.find? fun m => m.seq = c.seq && m.deliverable maxDeliver with
      | none => some (w, if c.fails then .error (.storage "fetching from NATS consumer") else .ok none)
      | some m =>
          if c.fails then
            some (if c.lands then w.deliver m.seq else w, .error (.storage "receiving NATS message"))
          else some (w.deliver m.seq, .ok (some m.item))
  | .rest op, c => (Catapulte.perform w.rest op c.rest).map fun (rest, r) => ({ w with rest }, r)

inductive Drift
  | transmit
  | lose (k : Nat)
  | rest (e : Catapulte.Drift)

/-- The oldest frame reaches the server, or a frame of the buffer is lost. -/
def drift (w : World) : Drift → Option World
  | .transmit =>
      match w.buffer with
      | [] => none
      | frame :: buffer => some { w with stream := frame.apply w.stream, buffer }
  | .lose k => if k < w.buffer.length then some { w with buffer := w.buffer.eraseIdx k } else none
  | .rest e => (Catapulte.drift w.rest e).map fun rest => { w with rest }

@[reducible] def machine (maxDeliver : Int) : Machine Client World Choice Drift := ⟨perform maxDeliver, drift⟩

abbrev Prog (α : Type) := Program Client α

abbrev ask (op : Op) : Prog op.Reply := @Program.call Client op

def lift {α : Type} : Catapulte.Prog α → Prog α
  | .done a => .done a
  | .await op next => .await (.rest op) fun r => lift (next r)

namespace NatsAdapter

def enqueue (id : EmailId) (envelope : Envelope) : Prog (Except EmailQueueError Unit) := ask (.publish id envelope)

def ack (token : AckToken) : Prog (Except EmailQueueError Unit) := ask (.reply token .ack)

def nack (token : AckToken) (delay : Duration) : Prog (Except EmailQueueError Unit) :=
  ask (.reply token (.nak (nakDelay delay)))

/-- `poll` is one round of the loop of `dequeue`. -/
def emailQueue : EmailQueue Prog where
  enqueue := enqueue
  poll := ask .fetch
  ack := ack
  nack := nack

end NatsAdapter

def emailRepository (a : StorageAdapter) : EmailRepository Prog where
  save id envelope := lift (a.emailRepository.save id envelope)
  listAllAttachmentBlobs := lift a.emailRepository.listAllAttachmentBlobs
  setAttachments id attachments := lift (a.emailRepository.setAttachments id attachments)
  delete id := lift (a.emailRepository.delete id)

def eventPublisher : EventPublisher Prog := ⟨fun event => lift (Catapulte.eventPublisher.publish event)⟩

def attachmentStore : AttachmentStore Prog where
  backendName := FsAttachmentStore.attachmentStore.backendName
  put reader := lift (FsAttachmentStore.attachmentStore.put reader)
  delete blob := lift (FsAttachmentStore.attachmentStore.delete blob)
  listKeysOlderThan age := lift (FsAttachmentStore.attachmentStore.listKeysOlderThan age)

def submitEmail (a : StorageAdapter) : SubmitEmailService Prog where
  repository := emailRepository a
  queue := NatsAdapter.emailQueue
  eventPublisher := eventPublisher
  attachmentStore := attachmentStore
  attachmentFetcher := ⟨fun url => ask (.rest (.fetch url))⟩

def worker (a : StorageAdapter) : WorkerState Prog where
  processQueuedEmail := ⟨fun envelope => ask (.rest (.process envelope))⟩
  emailQueue := NatsAdapter.emailQueue
  eventPublisher := eventPublisher
  attachmentStore := attachmentStore
  emailRepository := emailRepository a

inductive Job
  | submit (id : EmailId) (input : SubmitEmailInput)
  | turn

inductive JobResult
  | submitted (result : Except SubmitEmailError EmailId)
  | worked

def Job.program (a : StorageAdapter) : Job → Prog JobResult
  | submit id input => JobResult.submitted <$> (submitEmail a).execute id input
  | turn => (fun _ => JobResult.worked) <$> (worker a).turn

abbrev System (ι : Type) := Pool Client World ι JobResult

abbrev Act (ι : Type) := Action ι Choice Drift

/-- The run takes the jobs, over an empty stream, to `s`. -/
abbrev Reaches {ι : Type} [DecidableEq ι] (maxDeliver : Int) (a : StorageAdapter) (jobs : ι → Job)
    (as : List (Act ι)) (s : System ι) : Prop :=
  (Pool.start World.empty fun i => (jobs i).program a).run (machine maxDeliver) as = some s

end Catapulte.Nats
