import Catapulte.Deployment

namespace Catapulte

open Async

/-- An attempt, after the delay if it is not the first. -/
def attempt (url : Url) (body : Json) : Option Duration × Except String Nat → List (Exchange Webhook)
  | (none, response) => [⟨.post url body, response⟩]
  | (some delay, response) => [⟨.sleep delay, ()⟩, ⟨.post url body, response⟩]

def attempts (url : Url) (body : Json) (responses : List (Except String Nat)) : List (Exchange Webhook) :=
  (List.zip [none, some (.fromMillis 100), some (.fromMillis 500)] responses).flatMap (attempt url body)

/-- The attempts end with the first one that succeeds, or with the third. -/
def Tried (responses : List (Except String Nat)) : Prop :=
  ∃ failed last, responses = failed ++ [last] ∧ (∀ r ∈ failed, webhookResult r ≠ .ok ()) ∧
    (webhookResult last = .ok () ∧ failed.length < 3 ∨ failed.length = 2)

variable {w : WebhookPublisher} {body : Json} {t : List (Exchange Webhook)} {r : Except EventPublisherError Unit}

theorem pause_answered {k : Nat} {delay next : Duration} (h : (WebhookPublisher.pause k delay).Answered t next) :
    t = (if 0 < k then [⟨.sleep delay, ()⟩] else []) ∧ next = if 0 < k then .fromMillis 500 else delay := by
  unfold WebhookPublisher.pause at h
  split at h
  · rename_i hk
    obtain ⟨u, t, rfl, rfl, rfl⟩ := h
    simp [hk]
  · rename_i hk
    obtain ⟨rfl, rfl⟩ := h
    simp [hk]

theorem deliver_answered {k : Nat} {ks : List Nat} {delay : Duration} {last : Option String}
    (h : (w.deliver body (k :: ks) delay last).Answered t r) :
    ∃ response t', t = (if 0 < k then [⟨.sleep delay, ()⟩] else []) ++ ⟨.post w.url body, response⟩ :: t' ∧
      (webhookResult response = .ok () ∧ t' = [] ∨ webhookResult response ≠ .ok () ∧
        ∃ e, (w.deliver body ks (if 0 < k then .fromMillis 500 else delay) (some e)).Answered t' r) := by
  obtain ⟨t₁, t₂, next, rfl, hpause, hpost⟩ := Program.answered_bind.mp h
  obtain ⟨rfl, rfl⟩ := pause_answered hpause
  obtain ⟨response, t', rfl, hrest⟩ := hpost
  refine ⟨response, t', rfl, ?_⟩
  dsimp only [Program.bind] at hrest
  cases hr : webhookResult response with
  | ok u =>
      rw [hr] at hrest
      exact .inl ⟨rfl, hrest.1⟩
  | error e =>
      rw [hr] at hrest
      exact .inr ⟨fun heq => (by cases heq), e, hrest⟩

theorem publish_tried {showUuid : EmailId → String} {event : LifecycleEvent} (h : (w.publish showUuid event).Answered t r) :
    ∃ responses, Tried responses ∧ t = attempts w.url (eventToJson showUuid event) responses := by
  obtain ⟨r₁, t₁, rfl, ⟨hok, rfl⟩ | ⟨hfail₁, e, h⟩⟩ := deliver_answered h
  · exact ⟨[r₁], ⟨[], r₁, rfl, fun r hr => absurd hr List.not_mem_nil, .inl ⟨hok, by simp⟩⟩, rfl⟩
  obtain ⟨r₂, t₂, rfl, ⟨hok, rfl⟩ | ⟨hfail₂, e, h⟩⟩ := deliver_answered h
  · exact ⟨[r₁, r₂], ⟨[r₁], r₂, rfl, List.forall_mem_singleton.mpr hfail₁, .inl ⟨hok, by simp⟩⟩, rfl⟩
  obtain ⟨r₃, t₃, rfl, hlast⟩ := deliver_answered h
  obtain rfl : t₃ = [] := by
    rcases hlast with ⟨-, rfl⟩ | ⟨-, e, h⟩
    · rfl
    · exact h.1
  exact ⟨[r₁, r₂, r₃], ⟨[r₁, r₂], r₃, rfl, List.forall_mem_cons.mpr ⟨hfail₁, List.forall_mem_singleton.mpr hfail₂⟩, .inr rfl⟩, rfl⟩

def PublisherAdapter.webhook : PublisherAdapter → Option WebhookPublisher
  | storageWebhook w | storageBoth w _ => some w
  | storage | storageNats _ => none

def PublisherAdapter.nats : PublisherAdapter → Option NatsEventPublisher
  | storageNats n | storageBoth _ n => some n
  | storage | storageWebhook _ => none

def insertedEvents (t : List (Exchange Sys)) : List LifecycleEvent :=
  t.filterMap fun
    | ⟨.insertEvent _ event, _⟩ => some event
    | _ => none

structure Announcement where
  event : LifecycleEvent
  web : List (Exchange Webhook)
  nats : List (Exchange NatsClient)

/-- The webhook was tried as often as it is, and NATS was told once. -/
structure Announcement.Made (d : Deployment) (x : Announcement) : Prop where
  web : match d.publisher.webhook with
    | none => x.web = []
    | some w => ∃ responses, Tried responses ∧ x.web = attempts w.url (eventToJson d.showUuid x.event) responses
  nats : match d.publisher.nats with
    | none => x.nats = []
    | some n => ∃ response, x.nats = [⟨.publish n.subject (eventToJson d.showUuid x.event), response⟩]

def webCalls (t : List (Exchange Deployed)) : List (Exchange Webhook) := Program.lefts (Program.lefts (Program.rights t))

def natsCalls (t : List (Exchange Deployed)) : List (Exchange NatsClient) := Program.rights (Program.lefts (Program.rights t))

/-- The sinks were told of the events that were sent to the database, in the same order. -/
def Announced (d : Deployment) (t : List (Exchange Deployed)) : Prop :=
  ∃ xs : List Announcement, (∀ x ∈ xs, x.Made d) ∧ insertedEvents (Program.lefts t) = xs.map Announcement.event ∧
    webCalls t = xs.flatMap Announcement.web ∧ natsCalls t = xs.flatMap Announcement.nats

variable {d : Deployment}

theorem announced_nil : Announced d [] := ⟨[], fun _ hx => absurd hx List.not_mem_nil, rfl, rfl, rfl⟩

theorem Announced.append {t t' : List (Exchange Deployed)} (h : Announced d t) (h' : Announced d t') :
    Announced d (t ++ t') := by
  obtain ⟨xs, hmade, hevents, hweb, hnats⟩ := h
  obtain ⟨ys, hmade', hevents', hweb', hnats'⟩ := h'
  refine ⟨xs ++ ys, List.forall_mem_append.mpr ⟨hmade, hmade'⟩, ?_, ?_, ?_⟩
  · simp only [insertedEvents, Program.lefts_append, List.filterMap_append, List.map_append] at hevents hevents' ⊢
    rw [hevents, hevents']
  · simp only [webCalls, Program.rights_append, Program.lefts_append, List.flatMap_append] at hweb hweb' ⊢
    rw [hweb, hweb']
  · simp only [natsCalls, Program.rights_append, Program.lefts_append, List.flatMap_append] at hnats hnats' ⊢
    rw [hnats, hnats']

def Effect.Unannounced (op : Effect) : Prop := ∀ uuid event, op ≠ .insertEvent uuid event

theorem insertedEvents_eq_nil {t : List (Exchange Sys)} (h : ∀ x ∈ t, x.1.Unannounced) : insertedEvents t = [] := by
  refine List.filterMap_eq_nil_iff.mpr fun x hx => ?_
  obtain ⟨op, r⟩ := x
  have hop := h _ hx
  cases op with
  | insertEvent uuid event => exact absurd rfl (hop uuid event)
  | _ => rfl

theorem announced_left {α : Type} {p : Prog α} (hp : p.Only Effect.Unannounced) (t : List (Exchange Deployed)) (a : α)
    (h : (p.left Net).Answered t a) : Announced d t := by
  obtain ⟨hl, hr⟩ := Program.answered_left h
  refine ⟨[], fun _ hx => absurd hx List.not_mem_nil, insertedEvents_eq_nil (hp.answered hl), ?_, ?_⟩
  · rw [webCalls, hr]
    rfl
  · rw [natsCalls, hr]
    rfl

theorem publish_inserted {event : LifecycleEvent} {t : List (Exchange Sys)} {r : Except EventPublisherError Unit}
    (h : (Catapulte.publish event).Answered t r) : insertedEvents t = [event] := by
  obtain ⟨uuid, t, rfl, r', t', rfl, rfl, -⟩ := h
  rfl

theorem natsPublish_answered {n : NatsEventPublisher} {showUuid : EmailId → String} {event : LifecycleEvent}
    {t : List (Exchange NatsClient)} {r : Except EventPublisherError Unit} (h : (n.publish showUuid event).Answered t r) :
    ∃ response, t = [⟨.publish n.subject (eventToJson showUuid event), response⟩] := by
  obtain ⟨response, t, rfl, h⟩ := h
  cases response with
  | error e => exact ⟨_, congrArg _ h.1⟩
  | ok u => exact ⟨_, congrArg _ h.1⟩

theorem publish_announced (event : LifecycleEvent) (t : List (Exchange Deployed)) (r : Except EventPublisherError Unit)
    (h : (d.publisher.publish d.showUuid Inbound event).Answered t r) : Announced d t := by
  have hjoin {β : Type} {y : Program Sinks β} {k : Except EventPublisherError Unit × β → Except EventPublisherError Unit}
      (h : ((Catapulte.publish event).join (y.left Inbound) >>= fun x => Program.done (k x)).Answered t r) :
      insertedEvents (Program.lefts t) = [event] ∧ ∃ b, y.Answered (Program.lefts (Program.rights t)) b := by
    obtain ⟨t₁, t₂, x, rfl, hx, rfl, -⟩ := Program.answered_bind.mp h
    obtain ⟨hp, hy⟩ := Program.answered_join hx
    rw [List.append_nil]
    exact ⟨publish_inserted hp, x.2, (Program.answered_left hy).1⟩
  cases hd : d.publisher with
  | storage =>
      rw [hd] at h
      obtain ⟨hp, hr⟩ := Program.answered_left h
      refine ⟨[⟨event, [], []⟩], List.forall_mem_singleton.mpr ⟨?_, ?_⟩, publish_inserted hp, ?_, ?_⟩
      · rw [hd]; rfl
      · rw [hd]; rfl
      · rw [webCalls, hr]; rfl
      · rw [natsCalls, hr]; rfl
  | storageWebhook w =>
      rw [hd] at h
      obtain ⟨hevents, b, hy⟩ := hjoin h
      obtain ⟨hweb, hnats⟩ := Program.answered_left hy
      refine ⟨[⟨event, webCalls t, []⟩], List.forall_mem_singleton.mpr ⟨?_, ?_⟩, hevents, (List.append_nil _).symm, hnats⟩
      · rw [hd]
        exact publish_tried hweb
      · rw [hd]; rfl
  | storageNats n =>
      rw [hd] at h
      obtain ⟨hevents, b, hy⟩ := hjoin h
      obtain ⟨hweb, hnats⟩ := Program.answered_right hy
      refine ⟨[⟨event, [], natsCalls t⟩], List.forall_mem_singleton.mpr ⟨?_, ?_⟩, hevents, hweb, (List.append_nil _).symm⟩
      · rw [hd]; rfl
      · rw [hd]
        exact natsPublish_answered hnats
  | storageBoth w n =>
      rw [hd] at h
      obtain ⟨hevents, b, hy⟩ := hjoin h
      obtain ⟨hweb, hnats⟩ := Program.answered_join hy
      refine ⟨[⟨event, webCalls t, natsCalls t⟩], List.forall_mem_singleton.mpr ⟨?_, ?_⟩, hevents, (List.append_nil _).symm,
        (List.append_nil _).symm⟩
      · rw [hd]
        exact publish_tried hweb
      · rw [hd]
        exact natsPublish_answered hnats

section Ports

abbrev Silent : Congruence Prog Prog := Program.whereOnly Prog Effect.Unannounced

theorem silent_ask {op : Effect} (h : op.Unannounced) : (ask op).Only Effect.Unannounced := ⟨h, fun _ => trivial⟩

theorem saveResult_silent (id : EmailId) (envelope : Envelope) (r : Except EmailRepositoryError Nat) :
    (saveResult id envelope r).Only Effect.Unannounced := by
  cases r with
  | error e => trivial
  | ok affected =>
      simp only [saveResult]
      split
      · trivial
      · cases envelope.idempotencyKey with
        | none => trivial
        | some key =>
            refine ⟨fun _ _ h => (by cases h), fun r => ?_⟩
            cases r <;> trivial

theorem repository_silent (a : StorageAdapter) : a.emailRepository.Related Silent a.emailRepository := by
  cases a with
  | sqlite | postgres =>
      exact ⟨fun id envelope => ⟨fun _ _ h => (by cases h), saveResult_silent id envelope⟩, silent_ask fun _ _ h => (by cases h),
        fun _ _ => silent_ask fun _ _ h => (by cases h), fun _ => silent_ask fun _ _ h => (by cases h)⟩

theorem fetchClaimed_silent (row : ClaimedEntry) : (SqliteAdapter.fetchClaimed row).Only Effect.Unannounced := by
  unfold SqliteAdapter.fetchClaimed
  split
  · refine ⟨fun _ _ h => (by cases h), fun r => ?_⟩
    rcases r with e | _ | envelope
    · trivial
    · refine ⟨fun _ _ h => (by cases h), fun r => ?_⟩
      cases r <;> trivial
    · trivial
  · trivial

theorem queue_silent (q : QueueAdapter) : q.emailQueue.Related Silent q.emailQueue := by
  have hone {op : Effect} (h : op.Unannounced) := silent_ask h
  cases q with
  | sqlite =>
      refine ⟨fun _ _ => hone fun _ _ h => (by cases h), ⟨fun _ _ h => (by cases h), fun now => ⟨fun _ _ h => (by cases h), fun r => ?_⟩⟩,
        fun _ => hone fun _ _ h => (by cases h), fun _ _ => ⟨fun _ _ h => (by cases h), fun _ => hone fun _ _ h => (by cases h)⟩⟩
      rcases r with e | _ | row
      · trivial
      · trivial
      · exact fetchClaimed_silent row
  | postgres =>
      exact ⟨fun _ _ => hone fun _ _ h => (by cases h), ⟨fun _ _ h => (by cases h), fun _ => hone fun _ _ h => (by cases h)⟩,
        fun _ => hone fun _ _ h => (by cases h), fun _ _ => ⟨fun _ _ h => (by cases h), fun _ => hone fun _ _ h => (by cases h)⟩⟩
  | memory =>
      exact ⟨fun _ _ => hone fun _ _ h => (by cases h), hone fun _ _ h => (by cases h), fun _ => hone fun _ _ h => (by cases h),
        fun _ _ => hone fun _ _ h => (by cases h)⟩

theorem keysOlderThan_silent (age : Duration) (names keys : List String) :
    (FsAttachmentStore.keysOlderThan age names keys).Only Effect.Unannounced := by
  induction names generalizing keys with
  | nil => trivial
  | cons name names ih =>
      unfold FsAttachmentStore.keysOlderThan
      split
      · exact ih keys
      · exact ⟨fun _ _ h => (by cases h), fun _ => ih _⟩

theorem store_silent : FsAttachmentStore.attachmentStore.Related Silent FsAttachmentStore.attachmentStore := by
  refine ⟨rfl, fun _ => silent_ask fun _ _ h => (by cases h), fun _ => silent_ask fun _ _ h => (by cases h),
    fun age => ⟨fun _ _ h => (by cases h), fun r => ?_⟩⟩
  cases r with
  | error e => trivial
  | ok names => exact keysOlderThan_silent age names []

end Ports

theorem lifts_announced (d : Deployment) :
    d.Lifts (Program.traced Prog (Announced d) announced_nil Announced.append) Silent where
  left h := announced_left h
  publisher event := publish_announced event
  submitEmail := ⟨repository_silent _, queue_silent _, store_silent, fun _ => silent_ask fun _ _ h => (by cases h)⟩
  worker := ⟨fun _ => silent_ask fun _ _ h => (by cases h), queue_silent _, store_silent, repository_silent _⟩
  attachmentGc := ⟨repository_silent _, store_silent, silent_ask fun _ _ h => (by cases h), rfl⟩

theorem consumer_announced (op : InboundCall) (t : List (Exchange Deployed)) (r : op.Reply)
    (h : (Deployment.consumer op).Answered t r) : Announced d t := by
  obtain ⟨r', t', rfl, rfl, -⟩ := h
  exact ⟨[], fun _ hx => absurd hx List.not_mem_nil, rfl, rfl, rfl⟩

theorem round_announced (id : EmailId) (t : List (Exchange Deployed)) (r : DeployedResult)
    (h : ((DeployedJob.round id).program d).Answered t r) : Announced d t := by
  let R : Congruence (Program Deployed) (Program Deployed) :=
    Program.traced _ (Announced d) announced_nil Announced.append
  have hcall {op : InboundCall} {k : op.Reply → Program Deployed InboundNatsServer.Round} (hk : ∀ r, R.rel (k r) (k r)) :
      R.rel (Deployment.consumer op >>= k) (Deployment.consumer op >>= k) := R.bind (consumer_announced op) hk
  have hround : R.rel (d.inbound.round d.json d.parsers id) (d.inbound.round d.json d.parsers id) := by
    refine hcall fun r => ?_
    rcases r with e | _ | msg
    · exact hcall fun _ => R.pure _
    · exact R.pure _
    · dsimp only
      rw [InboundNatsServer.handleMessage_eq]
      split
      · exact hcall fun _ => R.pure _
      · refine R.bind ((lifts_announced d).execute id _) fun r => ?_
        cases r with
        | ok id => exact hcall fun _ => R.pure _
        | error e =>
            simp only [InboundNatsServer.settle]
            split
            · exact hcall fun _ => R.pure _
            · exact hcall fun _ => R.pure _
  exact R.bind hround (fun r => R.pure (DeployedResult.round r)) t r h

/-- Whatever the network does, a task that has ended told the sinks of exactly the events that it
sent to the database, in the same order. -/
theorem sinks_told {ι τ κ ε : Type} [DecidableEq ι] {jobs : ι → DeployedJob} {N : Machine Net τ κ ε} {w : World} {v : τ}
    {acts : List (DeployedAct ι κ ε)} {s : DeployedSystem ι τ} (hr : DeployedReaches d N w v jobs acts s) {i : ι}
    {r : DeployedResult} (hi : s.task i = some (.done r)) : Announced d (Pool.trace i s.calls) := by
  have h := Pool.answered_of_run hr hi
  cases hj : jobs i with
  | core job =>
      rw [hj] at h
      obtain ⟨t₁, t₂, x, ht, hjob, rfl, -⟩ := Program.answered_bind.mp h
      rw [ht, List.append_nil]
      exact (lifts_announced d).jobProgram job _ _ hjob
  | round id =>
      rw [hj] at h
      exact round_announced id _ _ h

set_option maxRecDepth 4000 in
theorem greeting_told : ∃ s, DeployedReaches greetingDeployment (.answering Net) .empty () greetingRound greetingActs s ∧
    s.world.1.events.length = 1 ∧ Announced greetingDeployment (Pool.trace 0 s.calls) := by
  have hrun : ∃ s r, DeployedReaches greetingDeployment (.answering Net) .empty () greetingRound greetingActs s ∧
      s.world.1.events.length = 1 ∧ s.task 0 = some (.done r) := ⟨_, _, rfl, rfl, rfl⟩
  obtain ⟨s, r, hr, hevents, hi⟩ := hrun
  exact ⟨s, hr, hevents, sinks_told hr hi⟩

end Catapulte
