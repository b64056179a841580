import Catapulte.Async.Session
import Catapulte.Queue.Deliveries

namespace Catapulte.Nats

open Async Catapulte.Nats.World

variable {ι : Type} {maxDeliver : Int} {a : StorageAdapter} {jobs : ι → Job} {s s' : System ι} {w w' : World}
  {calls : List (ι × Call Client World)} {token number : Nat} {i j : ι} {act : Act ι}

def IsRetrying : Op → Prop
  | .rest (.insertEvent _ (.retrying ..)) => True
  | _ => False

def IsFailed : Op → Prop
  | .rest (.insertEvent _ (.failed ..)) => True
  | _ => False

def FailurePublished : Call Client World → Prop
  | ⟨_, .rest (.insertEvent _ (.failed ..)), .ok (), _⟩ => True
  | _ => False

def Executed : Call Client World → Prop
  | ⟨_, .rest (.process _), .ok _, _⟩ => True
  | _ => False

/-- Each Retrying event was published while the message of its delivery could be
delivered again. -/
def Kept (maxDeliver : Int) (calls : List (ι × Call Client World)) : Prop :=
  ∀ x ∈ calls, IsRetrying x.2.op → ∀ token, Did (Handed token) x.1 calls →
    ¬ x.2.before.AckPending token ∧ ∃ m ∈ x.2.before.stream, m.seq = token ∧ m.deliverable maxDeliver = true

/-- The message was acknowledged, or delivered as often as the consumer allows. -/
def Over (maxDeliver : Int) (s : System ι) (token : Nat) : Prop :=
  (s.world.Settled token ∧ Seen (Handed token) s.calls) ∨
    ∃ m ∈ s.world.stream, m.seq = token ∧ 0 < m.delivered ∧ (m.delivered : Int) = maxDeliver

/-- The tasks that were handed the message have ended, and none has sent the email. -/
def AllFailed (s : System ι) (token : Nat) : Prop :=
  ∀ i, Did (Handed token) i s.calls → (∀ op next, s.task i ≠ some (.await op next)) ∧ ¬ Did Executed i s.calls

/-- Of the Retrying and Failed events of the message's deliveries the last one is a
Failed event. -/
def EndsFailed (calls : List (ι × Call Client World)) (token : Nat) : Prop :=
  ∃ before x after, calls = before ++ x :: after ∧ Did (Handed token) x.1 calls ∧ FailurePublished x.2 ∧
    ∀ y ∈ after, IsRetrying y.2.op → ¬ Did (Handed token) y.1 calls

/-- Every retry that was announced could happen, and an email whose deliveries all
failed ends with a Failed event. -/
structure RetriesKept (maxDeliver : Int) (s : System ι) : Prop where
  again : Kept maxDeliver s.calls
  ends : ∀ token, Over maxDeliver s token → AllFailed s token → EndsFailed s.calls token

/-- The consumer delivers a message often enough for every attempt of the worker. -/
def NatsConfig.AllowsRetries (config : NatsConfig) : Prop :=
  config.maxDeliver ≤ 0 ∨ (maxAttempts : Int) ≤ config.maxDeliver ∧ config.maxDeliver < 2 ^ 32

/-- The message that the task was handed has been delivered once more since. -/
def Superseded (s : System ι) (i : ι) : Prop :=
  ∃ token number, Did (Delivery token number) i s.calls ∧
    ((∃ m ∈ s.world.stream, m.seq = token ∧ number < m.delivered) ∨
      ∃ j later, Did (Delivery token later) j s.calls ∧ number < later)

/-- The task was handed the last delivery of a message, or has acknowledged one, and
has neither sent the email nor published a Failed event. -/
def Owes (maxDeliver : Int) (calls : List (ι × Call Client World)) (i : ι) : Prop :=
  (∃ token number, Did (Delivery token number) i calls ∧ ((number : Int) = maxDeliver ∨ Did (Acked token) i calls)) ∧
    ¬ Did Executed i calls ∧ ¬ Did FailurePublished i calls

/-- No message is delivered while its acknowledgement is in the buffer, and its last
delivery is not lost on the way. A delivery that was superseded neither acknowledges
nor publishes a Retrying event. The acknowledgement of a failure that is the last one
does not fail, nor does the publication of a Failed event. -/
def Orderly (maxDeliver : Int) (s : System ι) (i : ι) (c : Choice) : Op → Prop
  | .fetch => ¬ s.world.AckPending c.seq ∧ (c.fails = true → c.lands = true →
      ∀ m ∈ s.world.stream, m.seq = c.seq → (m.delivered : Int) + 1 ≠ maxDeliver)
  | .reply _ .ack => (Superseded s i → c.fails = true) ∧ (Owes maxDeliver s.calls i → c.fails = false)
  | .rest (.insertEvent _ (.retrying ..)) => ¬ Superseded s i
  | .rest (.insertEvent _ (.failed id ..)) => c.rest.fails = false ∧ (s.world.rest.findEmail id).isSome
  | _ => True

/-- A task is not abandoned while it owes a Failed event. -/
def Timely (maxDeliver : Int) (s : System ι) : Act ι → Prop
  | .step i c => ∀ op next, s.task i = some (.await op next) → Orderly maxDeliver s i c op
  | .abandon i landed => (∀ c, landed = some c → ∀ op next, s.task i = some (.await op next) →
      Orderly maxDeliver s i c op) ∧
      ¬ Owes maxDeliver (s.calls ++ (s.landed (machine maxDeliver) (.abandon i landed)).toList) i
  | .drift _ => True

/-- `handed` has not yet heard from the use case; `closing` has acknowledged a failure. -/
inductive Stage
  | idle
  | handed (item : DequeuedEmail)
  | sent (item : DequeuedEmail)
  | failed (item : DequeuedEmail)
  | nacked (item : DequeuedEmail)
  | closing
  | apart

open Stage

def afterFetch : Except EmailQueueError (Option DequeuedEmail) → Stage
  | .ok (some item) => handed item
  | _ => apart

def afterProcess (item : DequeuedEmail) : Except ProcessQueuedEmailError SenderName → Stage
  | .ok _ => sent item
  | .error _ => failed item

def afterAck : Except EmailQueueError Unit → Stage
  | .ok _ => closing
  | .error _ => apart

/-- A call that concerns neither the deliveries nor the outcome of an attempt. -/
def Quiet : Op → Prop
  | .publish .. => True
  | .reply .. | .fetch | .rest (.process _) => False
  | .rest op => ¬ IsRetrying (.rest op) ∧ ¬ IsFailed (.rest op)

inductive Moves : Session Client Stage
  | fetched {r} : Moves idle .fetch r (afterFetch r)
  | processed {item envelope r} : Moves (handed item) (.rest (.process envelope)) r (afterProcess item r)
  | acked {item r} : Moves (sent item) (.reply item.token .ack) r apart
  | conceded {item r} : Moves (failed item) (.reply item.token .ack) r (afterAck r)
  | concluded {uuid} {item : DequeuedEmail} {e r} : Moves closing (.rest (.insertEvent uuid (item.failedEvent e))) r apart
  | nacked {item delayNs r} (h : item.attempt < maxAttempts) :
      Moves (failed item) (.reply item.token (.nak delayNs)) r (nacked item)
  | retrying {item uuid e r} : Moves (nacked item) (.rest (.insertEvent uuid (item.retryingEvent e))) r apart
  | quiet {st op r} (hst : st ≠ idle) (hop : Quiet op) : Moves st op r st

def Ends : Stage → Prop
  | nacked _ | apart => True
  | _ => False

abbrev FollowsJob {α : Type} (p : Prog α) (st : Stage) : Prop := p.Follows Moves (fun st _ => Ends st) st

theorem quiet_of_silent (op : Effect) (h : Silent op) : Quiet (.rest op) := by
  cases op with
  | insertEvent | process => exact h.elim
  | _ => exact ⟨fun h => h, fun h => h⟩

theorem quiet_bind {α β : Type} {p : Prog α} {k : α → Prog β} {st : Stage} (hst : st ≠ idle) (h : p.Only Quiet)
    (hk : ∀ x, FollowsJob (k x) st) : FollowsJob (p >>= k) st := by
  refine Program.Follows.bind (Q := fun st' _ => st' = st) (h.follows (fun _ _ => .quiet hst) fun _ => rfl) ?_
  rintro _ x rfl
  exact hk x

theorem only_quiet {α : Type} {p : Prog α} (h : p.Only Quiet) : FollowsJob p apart :=
  h.follows (fun _ _ => .quiet nofun) fun _ => trivial

theorem publish_quiet (event : LifecycleEvent) (h : ∀ uuid, Quiet (.rest (.insertEvent uuid event))) :
    (eventPublisher.publish event).Only Quiet :=
  publish_only quiet_of_silent h

theorem cleanUp_quiet (item : DequeuedEmail) (senderName : SenderName) (refs : List AttachmentRef) :
    ((worker a).cleanUp item senderName refs).Only Quiet := by
  induction refs with
  | nil => exact (publish_quiet (item.sentEvent senderName) fun _ => ⟨fun h => h, fun h => h⟩).bind fun _ => trivial
  | cons ref refs ih => exact ⟨quiet_of_silent _ trivial, fun _ => ih⟩

theorem onSuccess_follows (item : DequeuedEmail) (senderName : SenderName) :
    FollowsJob ((worker a).onSuccess item senderName) (sent item) := by
  rintro (e | ⟨⟩)
  · exact ⟨_, .acked, trivial⟩
  · have hclear : ((worker a).emailRepository.setAttachments item.id []).Only Quiet :=
      lift_only (setAttachments_only.mono quiet_of_silent)
    exact ⟨_, .acked, only_quiet (hclear.bind fun _ => cleanUp_quiet item senderName _)⟩

theorem publish_follows {st : Stage} {event : LifecycleEvent} (hst : st ≠ idle)
    (h : ∀ uuid r, Moves st (.rest (.insertEvent uuid event)) r apart) :
    FollowsJob (eventPublisher.publish event >>= fun _ => Program.done ()) st :=
  fun uuid => ⟨_, .quiet hst (quiet_of_silent _ trivial), fun r => ⟨_, h uuid r, trivial⟩⟩

theorem onFailure_follows (item : DequeuedEmail) (e : ProcessQueuedEmailError) :
    FollowsJob ((worker a).onFailure item e) (failed item) := by
  unfold WorkerState.onFailure
  split
  · rintro (e' | ⟨⟩)
    · exact ⟨_, .conceded, trivial⟩
    · exact ⟨_, .conceded, publish_follows nofun fun _ _ => .concluded⟩
  · rename_i hterminal
    have hattempt : item.attempt < maxAttempts := by
      simp only [isTerminal, Bool.or_eq_true, decide_eq_true_eq] at hterminal
      omega
    rintro (e' | ⟨⟩)
    · exact ⟨_, .nacked hattempt, trivial⟩
    · exact ⟨_, .nacked hattempt, publish_follows nofun fun _ _ => .retrying⟩

theorem processOne_follows (item : DequeuedEmail) : FollowsJob ((worker a).processOne item) (handed item) := by
  refine quiet_bind nofun (publish_quiet item.sendingEvent fun _ => ⟨fun h => h, fun h => h⟩) fun _ => ?_
  rintro (e | senderName)
  · exact ⟨_, .processed, onFailure_follows item e⟩
  · exact ⟨_, .processed, onSuccess_follows item senderName⟩

theorem turn_follows : FollowsJob (worker a).turn idle := by
  rintro (e | _ | item)
  · exact ⟨_, .fetched, trivial⟩
  · exact ⟨_, .fetched, trivial⟩
  · exact ⟨_, .fetched, processOne_follows item⟩

theorem job_follows (job : Job) : ∃ st, FollowsJob (job.program a) st ∧ (st = idle ∨ st = apart) := by
  cases job with
  | submit id input =>
      refine ⟨apart, only_quiet ((SubmitEmailService.execute_only ?_ id input).map _), .inr rfl⟩
      exact submitEmail_only quiet_of_silent (fun _ _ => trivial) fun _ _ _ => ⟨fun h => h, fun h => h⟩
  | turn => exact ⟨idle, turn_follows.map fun _ _ h => h, .inl rfl⟩

/-- The delivery of a message that the task has, and that it has not acknowledged. -/
structure Holding (calls : List (ι × Call Client World)) (i : ι) (item : DequeuedEmail) (number : Nat) : Prop where
  attempt : item.attempt = attemptOf number
  delivery : Did (Delivery item.token number) i calls
  only : ∀ token n, Did (Delivery token n) i calls → token = item.token ∧ n = number
  unacked : ¬ Did (Acked item.token) i calls
  silent : ¬ Did FailurePublished i calls

def Tracked (maxDeliver : Int) (calls : List (ι × Call Client World)) (i : ι) : Stage → Prop
  | idle => ¬ Did (fun _ => True) i calls
  | handed item | failed item => ∃ number, Holding calls i item number
  | sent item => (∃ number, Holding calls i item number) ∧ Did Executed i calls
  | nacked item => (∃ number, Holding calls i item number) ∧ item.attempt < maxAttempts
  | closing => True
  | apart => ¬ Owes maxDeliver calls i

theorem did_other {P : Call Client World → Prop} {c : Call Client World} (hc : ¬ P c) :
    Did P i (calls ++ [(j, c)]) ↔ Did P i calls := by
  rw [did_snoc]
  exact or_iff_left fun h => hc h.2

def Handles (c : Call Client World) : Prop := ∃ token, Handed token c ∨ Acked token c

/-- The calls that make a difference to what a task owes. -/
def Counts (c : Call Client World) : Prop := Handles c ∨ Executed c ∨ FailurePublished c

theorem owes_other {c : Call Client World} (hc : i ≠ j ∨ ¬ Counts c) :
    Owes maxDeliver (calls ++ [(j, c)]) i ↔ Owes maxDeliver calls i := by
  have hdid : ∀ {P : Call Client World → Prop}, (P c → Counts c) → (Did P i (calls ++ [(j, c)]) ↔ Did P i calls) :=
    fun hP => hc.elim did_snoc_of_ne fun hc => did_other fun hp => hc (hP hp)
  have hdelivery : ∀ token n, Delivery token n c → Counts c := fun token _ hd => .inl ⟨token, .inl (.of_delivery hd)⟩
  have hacked : ∀ token, Acked token c → Counts c := fun token ha => .inl ⟨token, .inr ha⟩
  simp only [Owes, hdid (hdelivery _ _), hdid (hacked _), hdid fun he => Or.inr (Or.inl he),
    hdid fun hf => Or.inr (Or.inr hf)]

theorem Holding.other {c : Call Client World} {item : DequeuedEmail} (h : Holding calls i item number)
    (hc : i ≠ j ∨ ¬ Handles c ∧ ¬ FailurePublished c) : Holding (calls ++ [(j, c)]) i item number := by
  have hdid : ∀ {P : Call Client World → Prop}, (P c → Handles c ∨ FailurePublished c) →
      (Did P i (calls ++ [(j, c)]) ↔ Did P i calls) := fun hP =>
    hc.elim did_snoc_of_ne fun hc => did_other fun hp => (hP hp).elim hc.1 hc.2
  exact ⟨h.attempt, h.delivery.append _,
    fun t n hd => h.only t n ((hdid fun hd => .inl ⟨t, .inl (.of_delivery hd)⟩).mp hd),
    fun ha => h.unacked ((hdid fun ha => .inl ⟨_, .inr ha⟩).mp ha), fun hf => h.silent ((hdid .inr).mp hf)⟩

theorem Tracked.other {st : Stage} {c : Call Client World} (h : Tracked maxDeliver calls i st)
    (hc : i ≠ j ∨ st ≠ idle ∧ ¬ Counts c) : Tracked maxDeliver (calls ++ [(j, c)]) i st := by
  have hc' : i ≠ j ∨ ¬ Counts c := hc.imp_right And.right
  have hholding : ∀ {item number}, Holding calls i item number → Holding (calls ++ [(j, c)]) i item number :=
    fun hh => hh.other (hc'.imp_right fun hn => ⟨fun h => hn (.inl h), fun h => hn (.inr (.inr h))⟩)
  cases st with
  | idle => exact fun hd => h ((did_snoc_of_ne (hc.resolve_right fun h => h.1 rfl)).mp hd)
  | handed item | failed item => exact h.imp fun _ => hholding
  | sent item => exact ⟨h.1.imp fun _ => hholding, h.2.append _⟩
  | nacked item => exact ⟨h.1.imp fun _ => hholding, h.2⟩
  | closing => trivial
  | apart => exact fun ho => h ((owes_other hc').mp ho)

theorem Quiet.not_counts {op : Op} {r : op.Reply} {heard : Bool} (h : Quiet op) : ¬ Counts ⟨w, op, r, heard⟩ := by
  rintro (⟨token, hh | ha⟩ | he | hf)
  · cases op with
    | fetch => exact h
    | publish | reply | rest => exact hh
  · cases op with
    | reply => exact h
    | publish | fetch | rest => exact ha
  · cases op with
    | rest op =>
        cases op with
        | process => exact h
        | _ => exact he
    | publish | reply | fetch => exact he
  · cases op with
    | rest op =>
        cases op with
        | insertEvent uuid event =>
            cases event with
            | failed => exact h.2 trivial
            | _ => exact hf
        | _ => exact hf
    | publish | reply | fetch => exact hf

variable {config : NatsConfig}

theorem Holding.not_owes {item : DequeuedEmail} (hallow : config.AllowsRetries) (h : Holding calls i item number)
    (hattempt : item.attempt < maxAttempts) : ¬ Owes config.maxDeliver calls i := by
  rintro ⟨⟨token, n, hd, hlast⟩, -⟩
  obtain ⟨rfl, rfl⟩ := h.only token n hd
  rcases hlast with hlast | ha
  · obtain ⟨c, -, hc⟩ := hd
    have hpos := hc.pos
    rcases hallow with hle | ⟨hlo, hhi⟩
    · omega
    · rw [h.attempt, attemptOf, if_pos (by omega)] at hattempt
      simp only [maxAttempts] at hattempt hlo
      omega
  · exact h.unacked ha

theorem Tracked.not_owes {st : Stage} (hallow : config.AllowsRetries) (h : Tracked config.maxDeliver calls i st)
    (hst : Ends st) : ¬ Owes config.maxDeliver calls i := by
  cases st with
  | nacked item =>
      obtain ⟨⟨number, hholding⟩, hattempt⟩ := h
      exact hholding.not_owes hallow hattempt
  | apart => exact h
  | idle | handed | sent | failed | closing => exact hst.elim

theorem Tracked.fetched {c : Choice} {r : Op.Reply .fetch} {heard : Bool} (h : Tracked maxDeliver calls i idle)
    (hd : Deliveries w calls) (he : Effects maxDeliver w .fetch c w' r) :
    Tracked maxDeliver (calls ++ [(i, ⟨w, .fetch, r, heard⟩)]) i (afterFetch r) := by
  have hnone : ∀ {P : Call Client World → Prop}, Did P i (calls ++ [(i, ⟨w, .fetch, r, heard⟩)]) →
      P ⟨w, .fetch, r, heard⟩ := fun hp =>
    (did_snoc_self.mp hp).resolve_left fun hp => h (hp.mono fun _ _ => trivial)
  have hidle : (∀ token, ¬ Handed token ⟨w, .fetch, r, heard⟩) →
      ¬ Owes maxDeliver (calls ++ [(i, ⟨w, .fetch, r, heard⟩)]) i := by
    rintro hh ⟨⟨token, n, hdel, -⟩, -⟩
    exact hh token (.of_delivery (hnone hdel))
  cases he with
  | refused _ hh =>
      rcases r with e | _ | item
      · exact hidle (hh heard)
      · exact hidle (hh heard)
      · exact absurd rfl (hh true item.token)
  | wasted => exact hidle fun _ h => h
  | @fetched m _ hm =>
      refine ⟨m.delivered + 1, rfl, did_snoc_self.mpr (.inr ⟨rfl, m, hm, rfl, rfl⟩), fun t n hn => ?_,
        fun ha => hnone ha, fun hf => hnone hf⟩
      exact hd.of_fetch hm (hnone hn)

theorem Tracked.moves {op : Op} {c : Choice} {r : op.Reply} {st st' : Stage} {heard : Bool}
    (hallow : config.AllowsRetries) (hm : Moves st op r st') (h : Tracked config.maxDeliver calls i st)
    (hd : Deliveries w calls) (hp : perform config.maxDeliver w op c = some (w', r))
    (hack : ∀ token, op = .reply token .ack → Owes config.maxDeliver calls i → c.fails = false)
    (hevent : IsFailed op → FailurePublished ⟨w, op, r, heard⟩) :
    Tracked config.maxDeliver (calls ++ [(i, ⟨w, op, r, heard⟩)]) i st' := by
  cases hm with
  | fetched => exact h.fetched hd (effects hp)
  | @processed item envelope r =>
      obtain ⟨number, hholding⟩ := h
      have hholding' := hholding.other (i := i) (j := i) (c := ⟨w, .rest (.process envelope), r, heard⟩)
        (.inr ⟨not_exists.mpr fun _ h => h.elim id id, id⟩)
      cases r with
      | error e => exact ⟨number, hholding'⟩
      | ok senderName => exact ⟨⟨number, hholding'⟩, did_snoc_self.mpr (.inr trivial)⟩
  | acked => exact fun ho => ho.2.1 (h.2.append _)
  | @conceded item r =>
      cases r with
      | ok => trivial
      | error e =>
          intro ho
          have hf := hack item.token rfl ((owes_other (.inr ?_)).mp ho)
          · simp [perform, hf] at hp
          · rintro (⟨token, h | h⟩ | h | h) <;> exact h
  | concluded => exact fun ho => ho.2.2 (did_snoc_self.mpr (.inr (hevent trivial)))
  | nacked hattempt =>
      obtain ⟨number, hholding⟩ := h
      exact ⟨⟨number, hholding.other (.inr ⟨not_exists.mpr fun _ h => h.elim id id, id⟩)⟩, hattempt⟩
  | retrying =>
      obtain ⟨⟨number, hholding⟩, hattempt⟩ := h
      exact (hholding.other (.inr ⟨not_exists.mpr fun _ h => h.elim id id, id⟩)).not_owes hallow hattempt
  | quiet hst hop => exact h.other (.inr ⟨hst, hop.not_counts⟩)

theorem NatsConfig.AllowsRetries.deliverable {config : NatsConfig} (h : config.AllowsRetries) {m : Message}
    (hbound : config.maxDeliver ≤ 0 ∨ (m.delivered : Int) ≤ config.maxDeliver)
    (hattempt : attemptOf m.delivered < maxAttempts) : m.deliverable config.maxDeliver = true := by
  simp only [Message.deliverable, decide_eq_true_eq]
  rcases h with h | ⟨hlo, hhi⟩
  · exact .inl h
  · rcases hbound with hbound | hbound
    · exact .inl hbound
    · have hsmall : m.delivered < 2 ^ 32 := by omega
      rw [attemptOf, if_pos hsmall] at hattempt
      simp only [maxAttempts] at hattempt hlo
      omega

theorem Deliveries.current {item : DequeuedEmail} (h : Deliveries s.world s.calls) (ht : Holding s.calls i item number)
    (hsup : ¬ Superseded s i) : ¬ s.world.AckPending item.token ∧
      ∃ m ∈ s.world.stream, m.seq = item.token ∧ attemptOf m.delivered = item.attempt := by
  have hseen : Seen (Handed item.token) s.calls := ⟨i, ht.delivery.mono fun _ => .of_delivery⟩
  have hset : ¬ s.world.Settled item.token := by
    intro hset
    obtain ⟨j, later, hj, hacked, hlast⟩ := h.last hseen hset
    rcases Nat.lt_or_eq_of_le (hlast i number ht.delivery) with hlt | rfl
    · exact hsup ⟨_, number, ht.delivery, .inr ⟨j, later, hj, hlt⟩⟩
    · exact ht.unacked (h.distinct hj ht.delivery ▸ hacked)
  simp only [World.Settled, not_or, not_forall, not_not] at hset
  obtain ⟨hpending, m, hm, hseq⟩ := hset
  refine ⟨hpending, m, hm, hseq, ?_⟩
  have hle : number ≤ m.delivered := h.counted ht.delivery m hm hseq
  have hge : ¬ number < m.delivered := fun hlt => hsup ⟨_, number, ht.delivery, .inl ⟨m, hm, hseq, hlt⟩⟩
  rw [ht.attempt, Nat.le_antisymm hle (Nat.not_lt.mp hge)]

theorem Tracked.acks {st st' : Stage} {op : Op} {r : op.Reply} (hm : Moves st op r st')
    (h : Tracked maxDeliver s.calls i st) (hop : op = .reply token .ack) (hsup : ¬ Superseded s i) :
    ∃ number, Did (Delivery token number) i s.calls ∧
      ∀ k later, Did (Delivery token later) k s.calls → later ≤ number := by
  have hholding : ∀ {item number}, Holding s.calls i item number → token = item.token →
      ∃ number, Did (Delivery token number) i s.calls ∧
        ∀ k later, Did (Delivery token later) k s.calls → later ≤ number := by
    rintro item n hholding rfl
    exact ⟨n, hholding.delivery, fun k later hk =>
      Nat.not_lt.mp fun hlt => hsup ⟨_, n, hholding.delivery, .inr ⟨k, later, hk, hlt⟩⟩⟩
  cases hm with
  | acked =>
      cases hop
      obtain ⟨⟨n, hn⟩, -⟩ := h
      exact hholding hn rfl
  | conceded =>
      cases hop
      obtain ⟨n, hn⟩ := h
      exact hholding hn rfl
  | quiet _ hquiet =>
      subst hop
      exact hquiet.elim
  | fetched | processed | concluded | nacked | retrying => cases hop

def Closed (calls : List (ι × Call Client World)) : Prop :=
  calls.Pairwise fun x y => FailurePublished x.2 → IsRetrying y.2.op → ∀ token n m,
    Did (Delivery token n) x.1 calls → Did (Delivery token m) y.1 calls → n < m

def FirstHands (calls : List (ι × Call Client World)) (x : ι × Call Client World) : Prop :=
  (∃ token, Handed token x.2) → ∀ c, (x.1, c) ∉ calls

theorem FirstHands.did {P : Call Client World → Prop} {x y : ι × Call Client World} (h : FirstHands calls x)
    (hP : ∀ {c}, P c → ∃ token, Handed token c) (hy : y ∈ calls) (hd : Did P y.1 (calls ++ [x])) : Did P y.1 calls := by
  rcases did_snoc.mp hd with hd | ⟨heq, hd⟩
  · exact hd
  · exact absurd (heq ▸ hy) (h (hP hd) y.2)

theorem IsRetrying.not_handed {c : Call Client World} (h : IsRetrying c.op) : ¬ Handed token c := by
  obtain ⟨before, op, r, heard⟩ := c
  cases op with
  | fetch => exact h.elim
  | publish | reply | rest => exact fun h => h

theorem Kept.snoc {x : ι × Call Client World} (h : Kept maxDeliver calls) (hfirst : FirstHands calls x)
    (hx : IsRetrying x.2.op → ∀ token, Did (Handed token) x.1 calls → ¬ x.2.before.AckPending token ∧
      ∃ m ∈ x.2.before.stream, m.seq = token ∧ m.deliverable maxDeliver = true) : Kept maxDeliver (calls ++ [x]) := by
  intro y hy hretrying token hhanded
  rcases List.mem_append.mp hy with hy | hy
  · exact h y hy hretrying token (hfirst.did (fun hh => ⟨token, hh⟩) hy hhanded)
  · cases List.mem_singleton.mp hy
    exact hx hretrying token ((did_other hretrying.not_handed).mp hhanded)

theorem Closed.snoc {x : ι × Call Client World} (h : Closed calls) (hfirst : FirstHands calls x)
    (hx : IsRetrying x.2.op → ∀ y ∈ calls, FailurePublished y.2 → ∀ token n m, Did (Delivery token n) y.1 calls →
      Did (Delivery token m) x.1 calls → n < m) : Closed (calls ++ [x]) := by
  have hdid : ∀ {token n} {y : ι × Call Client World}, y ∈ calls → Did (Delivery token n) y.1 (calls ++ [x]) →
      Did (Delivery token n) y.1 calls := fun hy => hfirst.did (fun hd => ⟨_, .of_delivery hd⟩) hy
  refine List.pairwise_append.mpr ⟨?_, List.pairwise_singleton _ _, fun y hy z hz hf hretrying token n m hn hm => ?_⟩
  · refine h.imp_of_mem fun hy hz hyz hf hretrying token n m hn hm => ?_
    exact hyz hf hretrying token n m (hdid hy hn) (hdid hz hm)
  · cases List.mem_singleton.mp hz
    refine hx hretrying y hy hf token n m (hdid hy hn) ((did_other fun hd => ?_).mp hm)
    exact hretrying.not_handed (.of_delivery hd)

structure Tally (maxDeliver : Int) (w : World) (calls : List (ι × Call Client World)) : Prop where
  deliveries : Deliveries w calls
  bounded : Bounded maxDeliver w
  lastHanded : LastHanded maxDeliver w calls
  kept : Kept maxDeliver calls
  closed : Closed calls

def retrying (maxDeliver : Int) : Pool.Outline Client World ι JobResult Stage where
  session _ := Moves
  ends _ st _ := Ends st
  shared := Tally maxDeliver
  task i st _ calls := Tracked maxDeliver calls i st

variable {config : NatsConfig}

theorem retrying_start : (retrying maxDeliver).Holds (Pool.start World.empty fun i => (jobs i).program a) := by
  refine ⟨⟨.start, fun _ hm => absurd hm List.not_mem_nil, .start, fun _ hx => absurd hx List.not_mem_nil, .nil⟩,
    fun i p hp => ?_⟩
  cases hp
  obtain ⟨st, hst, rfl | rfl⟩ := job_follows (a := a) (jobs i)
  · exact ⟨_, hst, did_nil⟩
  · exact ⟨_, hst, fun ⟨⟨_, _, hd, _⟩, _⟩ => did_nil hd⟩

theorem Timely.orderly [DecidableEq ι] {op : Op} {r : op.Reply} {heard : Bool} (ht : Timely maxDeliver s act)
    (hl : Pool.Lands (machine maxDeliver) s act i op w r heard) :
    ∃ c, perform maxDeliver s.world op c = some (w, r) ∧ Orderly maxDeliver s i c op := by
  obtain ⟨next, c, htask, hp, rfl⟩ := hl
  cases heard with
  | true => exact ⟨c, hp, ht op next htask⟩
  | false => exact ⟨c, hp, ht.1 c rfl op next htask⟩

theorem FirstHands.moves {op : Op} {r : op.Reply} {st st' : Stage} {heard : Bool} (hm : Moves st op r st')
    (h : Tracked maxDeliver calls i st) : FirstHands calls (i, ⟨w, op, r, heard⟩) := by
  rintro ⟨token, hhanded⟩ c hc
  cases hm with
  | fetched => exact h ⟨c, hc, trivial⟩
  | quiet _ hop => exact hop.not_counts (.inl ⟨token, .inl hhanded⟩)
  | processed | acked | conceded | concluded | nacked | retrying => exact hhanded

theorem Tally.announced (hallow : config.AllowsRetries) (h : Tally config.maxDeliver s.world s.calls)
    {item : DequeuedEmail} (ht : Tracked config.maxDeliver s.calls i (.nacked item)) (hsup : ¬ Superseded s i) :
    (∀ token, Did (Handed token) i s.calls → ¬ s.world.AckPending token ∧
      ∃ m ∈ s.world.stream, m.seq = token ∧ m.deliverable config.maxDeliver = true) ∧
    ∀ y ∈ s.calls, FailurePublished y.2 → ∀ token n m, Did (Delivery token n) y.1 s.calls →
      Did (Delivery token m) i s.calls → n < m := by
  obtain ⟨⟨number, hholding⟩, hattempt⟩ := ht
  refine ⟨fun token hhanded => ?_, fun y hy hf token n m hn hm => ?_⟩
  · obtain ⟨hpending, m, hm, hseq, hcount⟩ := h.deliveries.current hholding hsup
    obtain ⟨n, hn⟩ := h.deliveries.numbered hhanded
    obtain rfl := (hholding.only token n hn).1
    exact ⟨hpending, m, hm, hseq, hallow.deliverable (h.bounded m hm) (hcount ▸ hattempt)⟩
  · have hle : n ≤ m := Nat.not_lt.mp fun hlt => hsup ⟨token, m, hm, .inr ⟨y.1, n, hn, hlt⟩⟩
    refine Nat.lt_of_le_of_ne hle ?_
    rintro rfl
    exact hholding.silent ⟨y.2, h.deliveries.distinct hn hm ▸ hy, hf⟩

theorem Orderly.concludes {op : Op} {c : Choice} {r : op.Reply} {heard : Bool} (h : Orderly maxDeliver s i c op)
    (hp : perform maxDeliver s.world op c = some (w, r)) :
    (∀ token, op = .reply token .ack → Owes maxDeliver s.calls i → c.fails = false) ∧
      (IsFailed op → FailurePublished ⟨s.world, op, r, heard⟩) := by
  refine ⟨?_, fun hop => ?_⟩
  · rintro token rfl
    exact h.2
  · cases op with
    | rest op =>
        cases op with
        | insertEvent uuid event =>
            cases event with
            | failed =>
                simp only [perform, Catapulte.perform, LifecycleEvent.emailId, Choice.settle, h.1, h.2, if_pos,
                  Bool.false_eq_true, if_false, Option.map_some, Option.some.injEq, Prod.mk.injEq] at hp
                obtain ⟨-, rfl⟩ := hp
                trivial
            | _ => exact hop.elim
        | _ => exact hop.elim
    | publish | reply | fetch => exact hop.elim

theorem Tally.lands {op : Op} {c : Choice} {r : op.Reply} {st st' : Stage} {heard : Bool}
    (hallow : config.AllowsRetries) (h : Tally config.maxDeliver s.world s.calls) (hm : Moves st op r st')
    (ht : Tracked config.maxDeliver s.calls i st) (hp : perform config.maxDeliver s.world op c = some (w, r))
    (ho : Orderly config.maxDeliver s i c op) :
    Tally config.maxDeliver w (s.calls ++ [(i, ⟨s.world, op, r, heard⟩)]) := by
  have he := effects hp
  have hretrying : IsRetrying op → (∀ token, Did (Handed token) i s.calls → ¬ s.world.AckPending token ∧
      ∃ m ∈ s.world.stream, m.seq = token ∧ m.deliverable config.maxDeliver = true) ∧
      ∀ y ∈ s.calls, FailurePublished y.2 → ∀ token n m, Did (Delivery token n) y.1 s.calls →
        Did (Delivery token m) i s.calls → n < m := by
    intro hretrying
    cases hm with
    | retrying => exact h.announced hallow ht ho
    | @quiet _ op _ _ hop =>
        cases op with
        | rest op =>
            cases op with
            | insertEvent => exact absurd hretrying hop.1
            | _ => exact hretrying.elim
        | publish | reply | fetch => exact hretrying.elim
    | fetched | processed | acked | conceded | concluded | nacked => exact hretrying.elim
  have hfirst : FirstHands s.calls (i, ⟨s.world, op, r, heard⟩) := FirstHands.moves hm ht
  refine ⟨h.deliveries.effects he ?_ ?_, h.bounded.effects h.deliveries.numbering he,
    h.lastHanded.effects h.deliveries.numbering he ?_, h.kept.snoc hfirst fun hr => (hretrying hr).1,
    h.closed.snoc hfirst fun hr => (hretrying hr).2⟩
  · rintro rfl
    exact ho.1
  · rintro token rfl hf
    refine ht.acks hm rfl fun hsup => ?_
    rw [ho.1 hsup] at hf
    cases hf
  · rintro rfl
    exact ho.2

theorem Tally.drifts {e : Drift} (h : Tally maxDeliver w calls) (hd : drift w e = some w') :
    Tally maxDeliver w' calls := by
  cases e with
  | transmit =>
      simp only [drift] at hd
      split at hd <;> cases hd
      have hs := transmit_sends (w := w) ‹_›
      exact ⟨h.deliveries.sends hs, h.bounded.sends hs, h.lastHanded.sends hs, h.kept, h.closed⟩
  | lose k =>
      simp only [drift] at hd
      split at hd <;> cases hd
      have hs := lose_sends w k
      exact ⟨h.deliveries.sends hs, h.bounded.sends hs, h.lastHanded.sends hs, h.kept, h.closed⟩
  | rest e =>
      simp only [drift, Option.map_eq_some_iff] at hd
      obtain ⟨rest, -, rfl⟩ := hd
      exact ⟨h.deliveries.frame h.deliveries.numbering.elsewhere rfl fun _ ht => ht, h.bounded, h.lastHanded,
        h.kept, h.closed⟩

theorem retrying_keeps [DecidableEq ι] (hallow : config.AllowsRetries) (ht : Timely config.maxDeliver s act)
    (h : (retrying config.maxDeliver).Holds s) :
    (retrying config.maxDeliver).Keeps (machine config.maxDeliver) s act where
  shared := by
    intro i op w r heard st st' hl hm htracked
    obtain ⟨c, hp, ho⟩ := ht.orderly hl
    exact h.1.lands hallow hm htracked hp ho
  own := by
    intro i op w r st st' hl hm htracked
    obtain ⟨c, hp, ho⟩ := ht.orderly hl
    obtain ⟨hack, hevent⟩ := ho.concludes hp
    exact Tracked.moves hallow hm htracked h.1.deliveries hp hack hevent
  other := by
    intro i op w r heard st st' hl hm _ j stj p hji _ _ htracked
    exact htracked.other (.inl hji)
  drift := fun hd => ⟨h.1.drifts hd, fun htracked => htracked⟩

def Released (maxDeliver : Int) (s : System ι) : Prop := ∀ i, s.task i = none → ¬ Owes maxDeliver s.calls i

theorem Released.step [DecidableEq ι] (h : Released maxDeliver s) (ht : Timely maxDeliver s act)
    (hs : Pool.Step (machine maxDeliver) s act s') : Released maxDeliver s' := by
  intro j hj
  cases hs with
  | @answer i =>
      have hji : j ≠ i := by
        rintro rfl
        simp at hj
      exact fun ho => h j (by simpa [hji] using hj) ((owes_other (.inl hji)).mp ho)
  | @drop i =>
      by_cases hji : j = i
      · subst hji
        simpa [Pool.landed] using ht.2
      · exact h j (by simpa [hji] using hj)
  | @lose i op next c w r htask hp =>
      by_cases hji : j = i
      · subst hji
        have hl : Pool.Lands (machine maxDeliver) s (.abandon j (some c)) j op w r false := ⟨next, c, htask, hp, rfl⟩
        have hnot := ht.2
        rwa [Pool.landed_of_lands false hl] at hnot
      · exact fun ho => h j (by simpa [hji] using hj) ((owes_other (.inl hji)).mp ho)
  | drift => exact h j hj

theorem Tally.over (h : Tally maxDeliver s.world s.calls) (hover : Over maxDeliver s token) :
    ∃ i number, Did (Delivery token number) i s.calls ∧ ((number : Int) = maxDeliver ∨ Did (Acked token) i s.calls) ∧
      ∀ k later, Did (Delivery token later) k s.calls → later ≤ number := by
  rcases hover with ⟨hset, hseen⟩ | ⟨m, hm, rfl, hpos, heq⟩
  · obtain ⟨i, number, hd, hacked, hlast⟩ := h.deliveries.last hseen hset
    exact ⟨i, number, hd, .inr hacked, hlast⟩
  · obtain ⟨i, hd⟩ := h.lastHanded m hm hpos heq
    exact ⟨i, m.delivered, hd, .inl heq, fun k later hk => h.deliveries.counted hk m hm rfl⟩

theorem retrying_ends (hallow : config.AllowsRetries) (h : (retrying config.maxDeliver).Holds s)
    (hr : Released config.maxDeliver s) (hover : Over config.maxDeliver s token) (hall : AllFailed s token) :
    EndsFailed s.calls token := by
  obtain ⟨i, number, hd, howes, hlast⟩ := h.1.over hover
  obtain ⟨hended, hexecuted⟩ := hall i (hd.mono fun _ => .of_delivery)
  have hnot : ¬ Owes config.maxDeliver s.calls i := by
    cases htask : s.task i with
    | none => exact hr i htask
    | some p =>
        obtain ⟨st, hst, htracked⟩ := h.2 i p htask
        cases p with
        | done => exact htracked.not_owes hallow hst
        | await op next => exact absurd htask (hended op next)
  have hpublished : Did FailurePublished i s.calls :=
    not_not.mp fun hp => hnot ⟨⟨token, number, hd, howes⟩, hexecuted, hp⟩
  obtain ⟨c, hc, hpublished⟩ := hpublished
  obtain ⟨before, after, hcalls⟩ := List.append_of_mem hc
  refine ⟨before, (i, c), after, hcalls, hd.mono fun _ => .of_delivery, hpublished, fun y hy hretrying hhanded => ?_⟩
  obtain ⟨m, hm⟩ := h.1.deliveries.numbered hhanded
  have hclosed := h.1.closed
  rw [Closed, hcalls] at hclosed
  have hlt := List.rel_of_pairwise_cons (List.pairwise_append.mp hclosed).2.1 hy hpublished hretrying token number m
    (hcalls ▸ hd) (hcalls ▸ hm)
  exact Nat.not_le.mpr hlt (hlast _ _ hm)

/-- Where the consumer allows every attempt, no delivery of a message overtakes
another one, and the last one is neither lost nor abandoned, a retry that was announced
can happen and an email that cannot be sent ends with a Failed event. -/
theorem retries_kept [DecidableEq ι] {as : List (Act ι)} (hallow : config.AllowsRetries)
    (hr : Reaches config.maxDeliver a jobs as s)
    (hm : (Pool.start World.empty fun i => (jobs i).program a).Meets (machine config.maxDeliver)
      (Timely config.maxDeliver) as) : RetriesKept config.maxDeliver s := by
  have hstart : Released config.maxDeliver (Pool.start World.empty fun i => (jobs i).program a) := fun _ hj => by cases hj
  obtain ⟨hholds, hreleased⟩ := Pool.run_preserves
    (J := fun s => (retrying config.maxDeliver).Holds s ∧ Released config.maxDeliver s)
    (fun ⟨h, hrel⟩ ht hs => ⟨Pool.Outline.step h (retrying_keeps hallow ht) hs, hrel.step ht hs⟩)
    ⟨retrying_start, hstart⟩ hm hr
  exact ⟨hholds.1.kept, fun _ => retrying_ends hallow hholds hreleased⟩

/-- The messages that the call handed out, each with the number of its delivery. -/
def deliveries : Call Client World → List (Nat × Nat)
  | ⟨before, .fetch, .ok (some item), _⟩ =>
      (before.stream.filter fun m => m.seq = item.token).map fun m => (m.seq, m.delivered + 1)
  | _ => []

theorem mem_deliveries {c : Call Client World} : (token, number) ∈ deliveries c ↔ Delivery token number c := by
  obtain ⟨before, op, r, heard⟩ := c
  cases op with
  | publish | reply | rest => exact iff_of_false List.not_mem_nil fun h => h
  | fetch =>
      rcases r with e | _ | item
      · exact iff_of_false List.not_mem_nil fun h => h
      · exact iff_of_false List.not_mem_nil fun h => h
      · constructor
        · intro h
          obtain ⟨m, hm, heq⟩ := List.mem_map.mp h
          cases heq
          obtain ⟨hm, hseq⟩ := List.mem_filter.mp hm
          exact ⟨(of_decide_eq_true hseq).symm, m, hm, rfl, rfl⟩
        · rintro ⟨htoken, m, hm, hseq, rfl⟩
          exact List.mem_map.mpr ⟨m, List.mem_filter.mpr ⟨hm, decide_eq_true (hseq.trans htoken.symm)⟩, by rw [hseq]⟩

theorem exists_delivery {P : Nat → Nat → Prop} :
    (∃ token number, Did (Delivery token number) i calls ∧ P token number) ↔
      ∃ x ∈ calls, x.1 = i ∧ ∃ d ∈ deliveries x.2, P d.1 d.2 := by
  constructor
  · rintro ⟨token, number, ⟨c, hc, hd⟩, hp⟩
    exact ⟨(i, c), hc, rfl, (token, number), mem_deliveries.mpr hd, hp⟩
  · rintro ⟨⟨_, c⟩, hc, rfl, ⟨token, number⟩, hd, hp⟩
    exact ⟨token, number, ⟨c, hc, mem_deliveries.mp hd⟩, hp⟩

theorem superseded_iff : Superseded s i ↔ ∃ x ∈ s.calls, x.1 = i ∧ ∃ d ∈ deliveries x.2,
    (∃ m ∈ s.world.stream, m.seq = d.1 ∧ d.2 < m.delivered) ∨
      ∃ y ∈ s.calls, ∃ d' ∈ deliveries y.2, d'.1 = d.1 ∧ d.2 < d'.2 := by
  rw [Superseded, exists_delivery]
  refine exists_congr fun x => and_congr_right fun _ => and_congr_right fun _ => exists_congr fun d =>
    and_congr_right fun _ => or_congr_right ⟨?_, ?_⟩
  · rintro ⟨j, later, ⟨c, hc, hd⟩, hlt⟩
    exact ⟨(j, c), hc, (d.1, later), mem_deliveries.mpr hd, rfl, hlt⟩
  · rintro ⟨⟨j, c⟩, hc, ⟨token, later⟩, hd, rfl, hlt⟩
    exact ⟨j, later, ⟨c, hc, mem_deliveries.mp hd⟩, hlt⟩

instance [DecidableEq ι] : Decidable (Superseded s i) := decidable_of_iff _ superseded_iff.symm

def stranded (s : System ι) (i : ι) : Bool :=
  match s.task i with
  | some (.await (.rest (.insertEvent _ (.failed id ..))) _) => (s.world.rest.findEmail id).isNone
  | _ => false

def Checked (s : System ι) : Act ι → Prop
  | .step i c => s.world.buffer.length = 0 ∧ c.fails = false ∧ c.rest.fails = false ∧ ¬ Superseded s i ∧
      stranded s i = false
  | .abandon .. | .drift _ => False

instance [DecidableEq ι] : ∀ (s : System ι) (act : Act ι), Decidable (Checked s act)
  | _, .step .. => inferInstanceAs (Decidable (_ ∧ _))
  | _, .abandon .. | _, .drift _ => isFalse fun h => h

theorem timely_of_checked (h : Checked s act) : Timely maxDeliver s act := by
  cases act with
  | step i c =>
      obtain ⟨hbuffer, hf, hrest, hsup, hrow⟩ := h
      intro op next htask
      cases op with
      | publish => trivial
      | fetch =>
          refine ⟨fun hpending => ?_, fun hfails => ?_⟩
          · rw [World.AckPending, List.eq_nil_of_length_eq_zero hbuffer] at hpending
            cases hpending
          · rw [hf] at hfails
            cases hfails
      | reply token kind =>
          cases kind with
          | ack => exact ⟨fun h => absurd h hsup, fun _ => hf⟩
          | nak => trivial
      | rest op =>
          cases op with
          | insertEvent uuid event =>
              cases event with
              | retrying => exact hsup
              | failed =>
                  simp only [stranded, htask] at hrow
                  exact ⟨hrest, Option.isNone_eq_false_iff.mp hrow⟩
              | _ => trivial
          | _ => trivial
  | abandon | drift => exact h.elim

def failing (k : Nat) : List (Act Nat) :=
  delivering k true (.error (.send (.send ⟨"smtp"⟩ "timeout"))) ++
    [.step k { flushed := true, rest := { uuid := k + 2 } }, .step k { flushed := true }]

def natsEnv (maxDeliver : Option String) (key : String) : Option String :=
  if key = "CATAPULTE_QUEUE_URL" then some "nats://localhost:4222"
  else if key = "CATAPULTE_QUEUE_MAX_DELIVER" then maxDeliver
  else if key = "CATAPULTE_QUEUE_BACKOFF" then some "30"
  else none

/-- Every delivery fails: two retries are announced, and the third one is the end. -/
def exhausting : List (Act Nat) := submitting true ++ (failing 1 ++ failing 3 ++ failing 5)

theorem retries_kept_by_default : ∃ config s, NatsConfig.fromEnv "CATAPULTE_QUEUE" (natsEnv none) = .ok config ∧
    Reaches config.maxDeliver .sqlite oneEmail exhausting s ∧ Over config.maxDeliver s 0 ∧
    s.world.rest.events.map EventRow.eventType =
      ["queued", "sending", "retrying", "sending", "retrying", "sending", "delivery.failed"] ∧
    RetriesKept config.maxDeliver s := by
  have hrun : ∃ config s, NatsConfig.fromEnv "CATAPULTE_QUEUE" (natsEnv none) = .ok config ∧ config.AllowsRetries ∧
      Reaches config.maxDeliver .sqlite oneEmail exhausting s ∧ Over config.maxDeliver s 0 ∧
      s.world.rest.events.map EventRow.eventType =
        ["queued", "sending", "retrying", "sending", "retrying", "sending", "delivery.failed"] ∧
      (Pool.start World.empty fun i => (oneEmail i).program .sqlite).Meets (machine config.maxDeliver) Checked
        exhausting := by
    refine ⟨_, _, rfl, .inr (by decide), rfl, .inl ⟨.inr fun m hm => ?_, ?_⟩, rfl, ?_⟩
    · cases hm
    · exact ⟨1, _, .tail _ (.tail _ (.tail _ (.tail _ (.head _)))), rfl⟩
    · decide
  obtain ⟨config, s, hconfig, hallow, hr, hover, hevents, hm⟩ := hrun
  exact ⟨config, s, hconfig, hr, hover, hevents, retries_kept hallow hr (hm.mono fun _ _ => timely_of_checked)⟩

/-- With `MAX_DELIVER=1` the first failure already announces a retry that never comes,
and no event follows it. -/
theorem retry_impossible : ∃ config s, NatsConfig.fromEnv "CATAPULTE_QUEUE" (natsEnv (some "1")) = .ok config ∧
    Reaches config.maxDeliver .sqlite oneEmail (submitting true ++ failing 1) s ∧ Over config.maxDeliver s 0 ∧
    s.world.rest.events.map EventRow.eventType = ["queued", "sending", "retrying"] ∧
    ¬ RetriesKept config.maxDeliver s := by
  refine ⟨_, _, rfl, rfl, .inr ⟨_, .head _, rfl, Nat.one_pos, rfl⟩, rfl, fun h => ?_⟩
  obtain ⟨-, m, hm, -, hd⟩ := h.again _ (List.mem_of_getLast? rfl) trivial 0
    ⟨_, .tail _ (.tail _ (.tail _ (.tail _ (.head _)))), rfl⟩
  cases List.mem_singleton.mp hm
  cases hd

end Catapulte.Nats
