import Catapulte.Domain.Wiring
import Catapulte.Outbound.Publisher
import Catapulte.Inbound.Stream
import Catapulte.System

namespace Catapulte

open Async

section Beside

variable {I : Interface} (K : Interface)

def EmailRepository.left (r : EmailRepository (Program I)) : EmailRepository (Program (I.beside K)) where
  save id envelope := (r.save id envelope).left K
  listAllAttachmentBlobs := r.listAllAttachmentBlobs.left K
  setAttachments id attachments := (r.setAttachments id attachments).left K
  delete id := (r.delete id).left K

def EmailQueue.left (q : EmailQueue (Program I)) : EmailQueue (Program (I.beside K)) where
  enqueue id envelope := (q.enqueue id envelope).left K
  poll := q.poll.left K
  ack token := (q.ack token).left K
  nack token delay := (q.nack token delay).left K

def AttachmentStore.left (s : AttachmentStore (Program I)) : AttachmentStore (Program (I.beside K)) where
  backendName := s.backendName
  put reader := (s.put reader).left K
  delete blob := (s.delete blob).left K
  listKeysOlderThan age := (s.listKeysOlderThan age).left K

def SubmitEmailService.beside (svc : SubmitEmailService (Program I)) (publisher : EventPublisher (Program (I.beside K))) :
    SubmitEmailService (Program (I.beside K)) where
  repository := svc.repository.left K
  queue := svc.queue.left K
  eventPublisher := publisher
  attachmentStore := svc.attachmentStore.left K
  attachmentFetcher := ⟨fun url => (svc.attachmentFetcher.fetch url).left K⟩

def WorkerState.beside (st : WorkerState (Program I)) (publisher : EventPublisher (Program (I.beside K))) :
    WorkerState (Program (I.beside K)) where
  processQueuedEmail := ⟨fun envelope => (st.processQueuedEmail.execute envelope).left K⟩
  emailQueue := st.emailQueue.left K
  eventPublisher := publisher
  attachmentStore := st.attachmentStore.left K
  emailRepository := st.emailRepository.left K

def AttachmentGc.left (gc : AttachmentGc (Program I)) : AttachmentGc (Program (I.beside K)) where
  repository := gc.repository.left K
  store := gc.store.left K
  isCancelled := gc.isCancelled.left K
  gracePeriod := gc.gracePeriod

variable {K}

section Related

variable {N : Type → Type} [Monad N] {R : Congruence (Program (I.beside K)) N} {S : Congruence (Program I) N}
  (hS : ∀ {α : Type} {p : Program I α} {q : N α}, S.rel p q → R.rel (p.left K) q)
include hS

/-! What relates the ports relates them beside the network. -/

theorem EmailRepository.Related.left {r : EmailRepository (Program I)} {r' : EmailRepository N} (h : r.Related S r') :
    (r.left K).Related R r' where
  save id envelope := hS (h.save id envelope)
  listAllAttachmentBlobs := hS h.listAllAttachmentBlobs
  setAttachments id attachments := hS (h.setAttachments id attachments)
  delete id := hS (h.delete id)

theorem EmailQueue.Related.left {q : EmailQueue (Program I)} {q' : EmailQueue N} (h : q.Related S q') :
    (q.left K).Related R q' where
  enqueue id envelope := hS (h.enqueue id envelope)
  poll := hS h.poll
  ack token := hS (h.ack token)
  nack token delay := hS (h.nack token delay)

theorem AttachmentStore.Related.left {s : AttachmentStore (Program I)} {s' : AttachmentStore N} (h : s.Related S s') :
    (s.left K).Related R s' where
  backendName := h.backendName
  put reader := hS (h.put reader)
  delete blob := hS (h.delete blob)
  listKeysOlderThan age := hS (h.listKeysOlderThan age)

variable {publisher : EventPublisher (Program (I.beside K))}

theorem SubmitEmailService.RelatedPorts.beside {svc : SubmitEmailService (Program I)} {svc' : SubmitEmailService N}
    (h : svc.RelatedPorts S svc') (hp : publisher.Related R svc'.eventPublisher) :
    (svc.beside K publisher).Related R svc' where
  repository := h.repository.left hS
  queue := h.queue.left hS
  attachmentStore := h.attachmentStore.left hS
  attachmentFetcher url := hS (h.attachmentFetcher url)
  eventPublisher := hp

theorem WorkerState.RelatedPorts.beside {st : WorkerState (Program I)} {st' : WorkerState N} (h : st.RelatedPorts S st')
    (hp : publisher.Related R st'.eventPublisher) : (st.beside K publisher).Related R st' where
  processQueuedEmail envelope := hS (h.processQueuedEmail envelope)
  emailQueue := h.emailQueue.left hS
  attachmentStore := h.attachmentStore.left hS
  emailRepository := h.emailRepository.left hS
  eventPublisher := hp

theorem AttachmentGc.Related.left {gc : AttachmentGc (Program I)} {gc' : AttachmentGc N} (h : gc.Related S gc') :
    (gc.left K).Related R gc' where
  repository := h.repository.left hS
  store := h.store.left hS
  isCancelled := hS h.isCancelled
  gracePeriod := h.gracePeriod

end Related

end Beside

/-- Everything on the network that is not the storage. -/
abbrev Net : Interface := Sinks.beside Inbound

abbrev Deployed : Interface := Sys.beside Net

/-- A process over the SQLite, the Postgres or the memory queue. A crash abandons one of its tasks. -/
structure Deployment where
  adapters : Adapters
  publisher : PublisherAdapter
  json : JsonLibrary
  parsers : Parsers
  showUuid : EmailId → String

namespace Deployment

variable (d : Deployment)

def eventPublisher : EventPublisher (Program Deployed) := ⟨d.publisher.publish d.showUuid Inbound⟩

def submitEmail : SubmitEmailService (Program Deployed) := d.adapters.submitEmail.beside Net d.eventPublisher

def worker : WorkerState (Program Deployed) := d.adapters.worker.beside Net d.eventPublisher

def attachmentGc : AttachmentGc (Program Deployed) := d.adapters.attachmentGc.left Net

def consumer (op : InboundCall) : Program Deployed op.Reply := @Program.call Deployed (.right (.right op))

def inbound : InboundNatsServer (Program Deployed) where
  fetchOne := consumer .fetch
  ack seq := consumer (.ack seq)
  nak seq := consumer (.nak seq)
  sleep := consumer (.sleep (.fromSecs 1))
  submitEmail := d.submitEmail.execute

def jobProgram : Job → Program Deployed JobResult
  | .submit id input => JobResult.submitted <$> d.submitEmail.execute id input
  | .turn => (fun _ => JobResult.worked) <$> d.worker.turn
  | .sweep => JobResult.swept <$> d.attachmentGc.sweepOnce

/-- A relation of the deployed application to the one without the network. -/
structure Lifts (R : Congruence (Program Deployed) Prog) (S : Congruence Prog Prog) : Prop where
  left : ∀ {α : Type} {p q : Prog α}, S.rel p q → R.rel (p.left Net) q
  publisher : d.eventPublisher.Related R Catapulte.eventPublisher
  submitEmail : d.adapters.submitEmail.RelatedPorts S d.adapters.submitEmail
  worker : d.adapters.worker.RelatedPorts S d.adapters.worker
  attachmentGc : d.adapters.attachmentGc.Related S d.adapters.attachmentGc

variable {d} {R : Congruence (Program Deployed) Prog} {S : Congruence Prog Prog}

theorem Lifts.execute (h : d.Lifts R S) (id : EmailId) (input : SubmitEmailInput) :
    R.rel (d.submitEmail.execute id input) (d.adapters.submitEmail.execute id input) :=
  SubmitEmailService.execute_rel (h.submitEmail.beside h.left h.publisher) id input

theorem Lifts.jobProgram (h : d.Lifts R S) (job : Job) : R.rel (d.jobProgram job) (job.program d.adapters) := by
  cases job with
  | submit id input => exact R.bind (h.execute id input) fun _ => R.pure _
  | turn => exact R.bind (WorkerState.turn_rel (h.worker.beside h.left h.publisher)) fun _ => R.pure _
  | sweep => exact R.bind (AttachmentGc.sweepOnce_rel (h.attachmentGc.left h.left)) fun _ => R.pure _

variable (d)

theorem lifts_of_publisher (hleft : ∀ {α : Type} (p : Prog α), R.rel (p.left Net) p)
    (hp : d.eventPublisher.Related R Catapulte.eventPublisher) : d.Lifts R (.refl Prog) where
  left h := h ▸ hleft _
  publisher := hp
  submitEmail := ⟨⟨fun _ _ => rfl, rfl, fun _ _ => rfl, fun _ => rfl⟩, ⟨fun _ _ => rfl, rfl, fun _ => rfl, fun _ _ => rfl⟩,
    ⟨rfl, fun _ => rfl, fun _ => rfl, fun _ => rfl⟩, fun _ => rfl⟩
  worker := ⟨fun _ => rfl, ⟨fun _ _ => rfl, rfl, fun _ => rfl, fun _ _ => rfl⟩,
    ⟨rfl, fun _ => rfl, fun _ => rfl, fun _ => rfl⟩, ⟨fun _ _ => rfl, rfl, fun _ _ => rfl, fun _ => rfl⟩⟩
  attachmentGc := ⟨⟨fun _ _ => rfl, rfl, fun _ _ => rfl, fun _ => rfl⟩,
    ⟨rfl, fun _ => rfl, fun _ => rfl, fun _ => rfl⟩, rfl, rfl⟩

theorem lifts_erasing : d.Lifts (Program.erasing Sys Net) (.refl Prog) :=
  d.lifts_of_publisher Program.erases_left d.publisher.erases_publish

end Deployment

inductive DeployedJob
  | core (job : Job)
  | round (id : EmailId)

inductive DeployedResult
  | core (result : JobResult)
  | round (result : InboundNatsServer.Round)

def DeployedJob.program (d : Deployment) : DeployedJob → Program Deployed DeployedResult
  | core job => DeployedResult.core <$> d.jobProgram job
  | round id => DeployedResult.round <$> d.inbound.round d.json d.parsers id

/-- The result of the job for which the task stands. -/
def DeployedResult.Agrees : DeployedResult → JobResult → Prop
  | core r, r' => r = r'
  | round (.submitted r), r' => .submitted r = r'
  | round _, _ => False

def DeployedResult.Empty : DeployedResult → Prop
  | round .idle | round .discarded => True
  | _ => False

/-- The job for which a task stands once its calls to the network are left out. A round stands for
the submission of what it received. -/
inductive StandsFor (d : Deployment) (t : List (Exchange Net)) : DeployedJob → Job → Prop
  | core {job : Job} : StandsFor d t (.core job) job
  | round {id : EmailId} {msg : InboundMessage} {input : SubmitEmailInput}
      (hm : (⟨.right .fetch, .ok (some msg)⟩ : Exchange Net) ∈ t)
      (hi : submissionOf d.json d.parsers msg.payload = some input) : StandsFor d t (.round id) (.submit id input)

/-- What the tasks of the deployed system are without the network. -/
def DeployedJob.erasure {ι : Type} (d : Deployment) (jobs : ι → DeployedJob) :
    Erasure Sys Net ι DeployedResult JobResult where
  rel := DeployedResult.Agrees
  idle := DeployedResult.Empty
  picks i t q := ∃ job, StandsFor d t (jobs i) job ∧ q = job.program d.adapters
  default _ := Job.turn.program d.adapters

theorem discard_picks (d : Deployment) (msg : InboundMessage) {Q : List (Exchange Net) → Prog JobResult → Prop}
    {t : List (Exchange Net)} : (DeployedResult.round <$> d.inbound.discard msg).Picks DeployedResult.Agrees
      DeployedResult.Empty Q t := by
  refine .later fun _ => ?_
  exact .idle trivial

theorem settle_erases (d : Deployment) (msg : InboundMessage) (r : Except SubmitEmailError EmailId) :
    (DeployedResult.round <$> d.inbound.settle msg r).Erases DeployedResult.Agrees
      (.done (JobResult.submitted r) : Prog JobResult) := by
  cases r with
  | ok id => exact fun _ => ⟨_, rfl, rfl⟩
  | error e =>
      simp only [InboundNatsServer.settle]
      split
      · exact fun _ => ⟨_, rfl, rfl⟩
      · exact fun _ => ⟨_, rfl, rfl⟩

theorem round_picks (d : Deployment) (id : EmailId) : ((DeployedJob.round id).program d).Picks DeployedResult.Agrees
    DeployedResult.Empty (fun t q => ∃ job, StandsFor d t (.round id) job ∧ q = job.program d.adapters) [] := by
  refine .later fun r => ?_
  rcases r with e | _ | msg
  · refine .later fun _ => ?_
    exact .idle trivial
  · exact .idle trivial
  · change (DeployedResult.round <$> d.inbound.handleMessage d.json d.parsers id msg).Picks _ _ _ _
    rw [InboundNatsServer.handleMessage_eq]
    cases hi : submissionOf d.json d.parsers msg.payload with
    | none => exact discard_picks d msg
    | some input =>
        refine .now ⟨_, .round List.mem_cons_self hi, rfl⟩ ?_
        dsimp only
        rw [Program.map_eq, Program.bind_assoc]
        refine (d.lifts_erasing.execute id input).bind ?_
        rintro r _ rfl
        exact settle_erases d msg r

theorem StandsFor.mono {d : Deployment} {t t' : List (Exchange Net)} {j : DeployedJob} {job : Job}
    (h : StandsFor d t j job) (ht : t <+: t') : StandsFor d t' j job := by
  cases h with
  | core => exact .core
  | round hm hi => exact .round (ht.subset hm) hi

section Deployed

variable {ι τ κ ε : Type} {d : Deployment} {jobs : ι → DeployedJob} {N : Machine Net τ κ ε} {w : World} {v : τ}

abbrev DeployedAct (ι κ ε : Type) := Action ι (BesideChoice Choice κ) (Drift ⊕ ε)

abbrev DeployedSystem (ι τ : Type) := Pool Deployed (World × τ) ι DeployedResult

/-- The run takes the deployed system, on the network `N`, from its start to `s`. -/
abbrev DeployedReaches [DecidableEq ι] (d : Deployment) (N : Machine Net τ κ ε) (w : World) (v : τ) (jobs : ι → DeployedJob)
    (acts : List (DeployedAct ι κ ε)) (s : DeployedSystem ι τ) : Prop :=
  (Pool.start (w, v) fun i => (jobs i).program d).run (machine.beside N) acts = some s

theorem program_picks (i : ι) : ((jobs i).program d).Picks DeployedResult.Agrees DeployedResult.Empty
    ((DeployedJob.erasure d jobs).picks i) [] := by
  simp only [DeployedJob.erasure]
  cases jobs i with
  | core job => exact .now ⟨job, .core, rfl⟩ ((d.lifts_erasing.jobProgram job).map _ fun _ _ h => h)
  | round id => exact round_picks d id

/-- The deployed system does to the shared state what the submissions, the worker turns and the
sweeps do: the webhook, the event stream and the incoming messages are no part of it. -/
theorem deployed_run [DecidableEq ι] {acts : List (DeployedAct ι κ ε)} {s : DeployedSystem ι τ}
    (hr : DeployedReaches d N w v jobs acts s) :
    ∃ (cores : ι → Job) (bs : List (Act ι)) (b : System ι), Reaches d.adapters w cores bs b ∧
      b.world = s.world.1 ∧ b.calls = leftCalls s.calls ∧
      (∀ i, StandsFor d (Pool.outside i s) (jobs i) (cores i) ∨ cores i = .turn ∧ ∀ act ∈ bs, ¬ act.By i) ∧
      ∀ i r, s.task i = some (.done r) → r.Empty ∨ ∃ r', b.task i = some (.done r') ∧ r.Agrees r' := by
  obtain ⟨q, bs, b, h⟩ := Pool.exists_tracks (M := machine) (e := DeployedJob.erasure d jobs) program_picks hr
  have hcore (i : ι) : ∃ job, q i = job.program d.adapters ∧
      (StandsFor d (Pool.outside i s) (jobs i) job ∨ job = .turn ∧ ∀ act ∈ bs, ¬ act.By i) := by
    rcases h.chosen i with ⟨t, ht, job, hjob, hq⟩ | ⟨hn, hq⟩
    · exact ⟨job, hq, .inl (hjob.mono ht)⟩
    · exact ⟨.turn, hq, .inr ⟨rfl, hn⟩⟩
  choose cores hq hcore using hcore
  obtain rfl := funext hq
  refine ⟨cores, bs, b, h.run, h.world, h.calls, hcore, fun i r hi => ?_⟩
  rcases h.task i _ hi with ⟨-, q', hq', r', rfl, hr'⟩ | ⟨-, hu⟩
  · exact .inr ⟨r', hq', hr'⟩
  · rcases hu.cases with ⟨r', heq, hempty⟩ | ⟨_, _, heq, -⟩
    · cases heq
      exact .inl hempty
    · cases heq

/-! A message with a greeting, whose event is posted once in vain. -/

def greetingText : String :=
  "\x7b\"sender\":\"from@example.com\",\"recipients\":[\x7b\"kind\":\"to\",\"address\":\"to@example.com\"\x7d]," ++
    "\"body\":\x7b\"kind\":\"plain\",\"text\":\"greetings\"\x7d\x7d"

def greetingJson : Json := .object [("sender", .string "from@example.com"),
  ("recipients", .array [.object [("kind", .string "to"), ("address", .string "to@example.com")]]),
  ("body", .object [("kind", .string "plain"), ("text", .string "greetings")])]

def asciiBytes (s : String) : List UInt8 := s.toList.map fun c => .ofNat c.toNat

def greetingDeployment : Deployment where
  adapters := ⟨.sqlite, .sqlite, .fromSecs 86400⟩
  publisher := .storageWebhook ⟨⟨"https://example.com/hook"⟩⟩
  json := ⟨fun bytes => if bytes.head? = some 123 then .ok greetingJson else .error "expected value", fun _ => "invalid type"⟩
  parsers := ⟨fun s => s.toList.contains '@', fun s => some ⟨s⟩, fun _ => none⟩
  showUuid id := toString id.uuid

def greetingRound : Nat → DeployedJob
  | 0 => .round ⟨1⟩
  | _ => .core .sweep

def sinkAnswers (status : Except String Nat) : ∀ op : Sinks.Op, Sinks.Reply op
  | .left (.sleep _) => ()
  | .left (.post ..) => status
  | .right (.publish ..) => .ok ()
  | .turn => true

def netAnswers (fetched : Except String (Option InboundMessage)) (status : Except String Nat) : ∀ op : Net.Op, Net.Reply op
  | .left op => sinkAnswers status op
  | .right .fetch => fetched
  | .right (.ack _) | .right (.nak _) => .ok ()
  | .right (.sleep _) => ()
  | .turn => true

/-- One step of the round: the storage, whether it is polled first, and the status of a post. -/
def greet (c : Choice) (first : Bool) (status : Nat) : DeployedAct Nat (∀ op, Net.Reply op) Empty :=
  .step 0 ⟨c, netAnswers (.ok (some ⟨0, asciiBytes greetingText⟩)) (.ok status), first⟩

/-- The post fails before the event id is drawn, and is made again. -/
def greetingActs : List (DeployedAct Nat (∀ op, Net.Reply op) Empty) :=
  [greet {} true 200, greet {} true 200, greet { uuid := 1 } true 200,
    greet {} false 503, greet {} false 503, greet {} true 200, greet { uuid := 2 } true 200,
    greet {} false 200, greet {} false 200, greet {} false 200, greet {} true 200, greet {} true 200, greet {} true 200]

set_option maxRecDepth 4000 in
theorem greeting_run : ∃ s, DeployedReaches greetingDeployment (.answering Net) .empty () greetingRound greetingActs s ∧
    s.world.1.events.length = 1 ∧
    ∃ (cores : Nat → Job) (bs : List (Act Nat)) (b : System Nat), Reaches greetingDeployment.adapters .empty cores bs b ∧
      b.world = s.world.1 ∧ b.calls = leftCalls s.calls ∧
      (∀ i, StandsFor greetingDeployment (Pool.outside i s) (greetingRound i) (cores i) ∨
        cores i = .turn ∧ ∀ act ∈ bs, ¬ act.By i) ∧
      ∀ i r, s.task i = some (.done r) → r.Empty ∨ ∃ r', b.task i = some (.done r') ∧ r.Agrees r' := by
  have hrun : ∃ s, DeployedReaches greetingDeployment (.answering Net) .empty () greetingRound greetingActs s ∧
      s.world.1.events.length = 1 := ⟨_, rfl, rfl⟩
  obtain ⟨s, hr, hevents⟩ := hrun
  exact ⟨s, hr, hevents, deployed_run hr⟩

end Deployed

end Catapulte
