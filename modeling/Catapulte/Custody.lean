import Catapulte.Storage.Memory
import Catapulte.Acceptance

namespace Catapulte

open Async

variable {ι : Type} {a : Adapters} {jobs : ι → Job} {w w' : World}
  {calls : List (ι × Call Sys World)} {i j : ι} {id : EmailId} {token : AckToken}
  {op : Effect} {r : op.Reply} {heard : Bool}

/-- The email is one of those submitted. -/
def Own (jobs : ι → Job) (id : EmailId) : Prop := ∃ i input, jobs i = .submit id input

/-- The email has an entry or an item that was not acknowledged. -/
def World.Outstanding (w : World) (id : EmailId) : Prop :=
  (∃ e ∈ w.queue, e.emailId = id) ∨ 0 < w.memory.count id

def QueueAdapter.Single (w : World) (id : EmailId) : QueueAdapter → Prop
  | memory => (∀ e ∈ w.queue, e.emailId ≠ id) ∧ w.memory.count id ≤ 1
  | _ => (∃ token, ∀ e ∈ w.queue, e.emailId = id → e.id = token) ∧ w.memory.count id = 0

/-- Whatever the queue holds of the email was handed out under the token. -/
def QueueAdapter.HeldUnder (w : World) (token : AckToken) (id : EmailId) : QueueAdapter → Prop
  | memory => (∀ e ∈ w.queue, e.emailId ≠ id) ∧ w.memory.HeldUnder token id
  | _ => (∀ e ∈ w.queue, e.emailId = id → e.id = token) ∧ w.memory.count id = 0

theorem single_sql {q : QueueAdapter} (hq : q ≠ .memory) : q.Single w id ↔
    (∃ token, ∀ e ∈ w.queue, e.emailId = id → e.id = token) ∧ w.memory.count id = 0 := by
  cases q with
  | sqlite | postgres => exact Iff.rfl
  | memory => exact absurd rfl hq

theorem heldUnder_sql {q : QueueAdapter} (hq : q ≠ .memory) : q.HeldUnder w token id ↔
    (∀ e ∈ w.queue, e.emailId = id → e.id = token) ∧ w.memory.count id = 0 := by
  cases q with
  | sqlite | postgres => exact Iff.rfl
  | memory => exact absurd rfl hq

theorem Performs.entry_of_email (h : Performs w op w' r) (hop : ¬ op.Enqueues id) {e' : QueueEntry}
    (he' : e' ∈ w'.queue) (hid : e'.emailId = id) : ∃ e ∈ w.queue, e.id = e'.id ∧ e.emailId = id := by
  rcases h.entry_of he' with ⟨e, he, hid', hem, -⟩ | ⟨-, rfl⟩
  · exact ⟨e, he, hid', hem.trans hid⟩
  · exact absurd hid hop

theorem Performs.count_le (h : Performs w op w' r) (hop : ¬ op.Enqueues id) :
    w'.memory.count id ≤ w.memory.count id := by
  rcases h.memory with hm | hm
  · exact Nat.le_of_eq (by rw [hm])
  · rcases hm.count_le id with hle | ⟨⟨envelope, rfl⟩, -⟩
    · exact hle
    · exact absurd rfl hop

theorem Performs.outstanding (h : Performs w op w' r) (hop : ¬ op.Enqueues id)
    (ho : w'.Outstanding id) : w.Outstanding id := by
  rcases ho with ⟨e', he', hid⟩ | hpos
  · obtain ⟨e, he, -, hid'⟩ := h.entry_of_email hop he' hid
    exact .inl ⟨e, he, hid'⟩
  · exact .inr (Nat.lt_of_lt_of_le hpos (h.count_le hop))

theorem Drifts.count_eq {e : Drift} (h : Drifts w e w') (id : EmailId) :
    w'.memory.count id = w.memory.count id := by
  cases h with
  | tick => rfl
  | wake h => exact MemoryQueue.count_wakeUp h id

theorem Drifts.outstanding_iff {e : Drift} (h : Drifts w e w') :
    w'.Outstanding id ↔ w.Outstanding id := by
  rw [World.Outstanding, World.Outstanding, h.queue, h.count_eq]

theorem Performs.single {q : QueueAdapter} (h : Performs w op w' r) (hop : ¬ op.Enqueues id)
    (hs : q.Single w id) : q.Single w' id := by
  by_cases hq : q = .memory
  · subst hq
    refine ⟨fun e' he' hid => ?_, Nat.le_trans (h.count_le hop) hs.2⟩
    obtain ⟨e, he, -, hid'⟩ := h.entry_of_email hop he' hid
    exact hs.1 e he hid'
  · rw [single_sql hq] at hs ⊢
    obtain ⟨⟨token, htok⟩, hzero⟩ := hs
    refine ⟨⟨token, fun e' he' hid => ?_⟩, Nat.le_zero.mp (hzero ▸ h.count_le hop)⟩
    obtain ⟨e, he, hid', hem⟩ := h.entry_of_email hop he' hid
    exact hid' ▸ htok e he hem

theorem Performs.heldUnder {q : QueueAdapter} (h : Performs w op w' r) (hop : ¬ op.Enqueues id)
    (hnack : q = .memory → ∀ delay, op ≠ .requeuePending token delay) (hh : q.HeldUnder w token id) :
    q.HeldUnder w' token id := by
  by_cases hq : q = .memory
  · subst hq
    refine ⟨fun e' he' hid => ?_, ?_⟩
    · obtain ⟨e, he, -, hid'⟩ := h.entry_of_email hop he' hid
      exact hh.1 e he hid'
    · rcases h.memory with hm | hm
      · rw [hm]
        exact hh.2
      · generalize w'.memory = memory at hm
        cases hm with
        | send => exact hh.2.send hop _
        | recv hr => exact hh.2.recv hr
        | removePending => exact hh.2.remove _
        | requeuePending => exact hh.2.requeue (fun ht => hnack rfl _ (by rw [ht])) _
  · rw [heldUnder_sql hq] at hh ⊢
    refine ⟨fun e' he' hid => ?_, Nat.le_zero.mp (hh.2 ▸ h.count_le hop)⟩
    obtain ⟨e, he, hid', hem⟩ := h.entry_of_email hop he' hid
    exact hid' ▸ hh.1 e he hem

theorem Drifts.heldUnder {q : QueueAdapter} {e : Drift} (h : Drifts w e w')
    (hh : q.HeldUnder w token id) : q.HeldUnder w' token id := by
  by_cases hq : q = .memory
  · subst hq
    refine ⟨by rw [h.queue]; exact hh.1, ?_⟩
    cases h with
    | tick => exact hh.2
    | wake h => exact hh.2.wakeUp h
  · rw [heldUnder_sql hq] at hh ⊢
    rwa [h.queue, h.count_eq]

theorem Drifts.single {q : QueueAdapter} {e : Drift} (h : Drifts w e w') (hs : q.Single w id) :
    q.Single w' id := by
  by_cases hq : q = .memory
  · subst hq
    exact ⟨by rw [h.queue]; exact hs.1, by rw [h.count_eq]; exact hs.2⟩
  · rw [single_sql hq] at hs ⊢
    rwa [h.queue, h.count_eq]

theorem single_enqueued {q : QueueAdapter} (h : Performs w op w' r) (hop : op.Enqueues id)
    (hq : q = .memory ↔ ∃ envelope, op = .send id envelope) (hn : ¬ w.Outstanding id) :
    q.Single w' id := by
  have hnone : ∀ e ∈ w.queue, e.emailId ≠ id := fun e he hid => hn (.inl ⟨e, he, hid⟩)
  have hzero : w.memory.count id = 0 := Nat.eq_zero_of_not_pos fun hpos => hn (.inr hpos)
  cases h with
  | send =>
      obtain rfl := hop
      obtain rfl := hq.mpr ⟨_, rfl⟩
      refine ⟨hnone, ?_⟩
      exact Nat.le_of_eq (by rw [MemoryQueue.count_send, hzero, if_pos rfl])
  | sendRefused =>
      obtain rfl := hop
      obtain rfl := hq.mpr ⟨_, rfl⟩
      exact ⟨hnone, by omega⟩
  | @insertEntry _ uuid _ _ _ _ _ hs =>
      obtain rfl := hop
      have hmem : q ≠ .memory := fun h => by obtain ⟨_, h⟩ := hq.mp h; cases h
      rw [single_sql hmem]
      rcases hs.cases with rfl | rfl
      · exact ⟨⟨0, fun e he hid => absurd hid (hnone e he)⟩, hzero⟩
      refine ⟨⟨uuid, fun e he hid => ?_⟩, hzero⟩
      simp only [World.insertEntry_queue, List.mem_append, List.mem_singleton] at he
      rcases he with he | rfl
      · exact absurd hid (hnone e he)
      · rfl
  | entryRefused =>
      obtain rfl := hop
      have hmem : q ≠ .memory := fun h => by obtain ⟨_, h⟩ := hq.mp h; cases h
      rw [single_sql hmem]
      exact ⟨⟨0, fun e he hid => absurd hid (hnone e he)⟩, hzero⟩
  | _ => cases hop

theorem claimed_heldUnder {q : QueueAdapter} (hq : q ≠ .memory) {e : QueueEntry} (he : e ∈ w.queue)
    (hs : q.Single w e.emailId) : q.HeldUnder w e.id e.emailId := by
  rw [single_sql hq] at hs
  rw [heldUnder_sql hq]
  obtain ⟨⟨token, htok⟩, hzero⟩ := hs
  exact ⟨fun e' he' hid => (htok e' he' hid).trans (htok e he rfl).symm, hzero⟩

theorem acked_not_outstanding {q : QueueAdapter} (hq : q ≠ .memory) (hh : q.HeldUnder w token id) :
    ¬ (w.deleteEntry token).Outstanding id := by
  rw [heldUnder_sql hq] at hh
  rintro (⟨e, he, hid⟩ | hpos)
  · obtain ⟨he, hne⟩ := mem_deleteEntry.mp he
    exact hne (hh.1 e he hid)
  · exact absurd hh.2 (Nat.ne_of_gt hpos)

theorem removed_not_outstanding (hh : QueueAdapter.memory.HeldUnder w token id) :
    ¬ World.Outstanding { w with memory := w.memory.remove token } id := by
  rintro (⟨e, he, hid⟩ | hpos)
  · exact hh.1 e he hid
  · exact absurd hh.2.count_remove (Nat.ne_of_gt hpos)

def received : Call Sys World → Option AckToken
  | ⟨_, .recv, .ok (some item), _⟩ => some item.token
  | _ => none

abbrev Received (token : AckToken) (c : Call Sys World) : Prop := received c = some token

/-- The turn has the email in its hands. -/
def Custodian (a : Adapters) (jobs : ι → Job) (i : ι) (token : AckToken) (id : EmailId) (w : World)
    (calls : List (ι × Call Sys World)) : Prop :=
  (a.queue = .memory → Did (Received token) i calls) ∧
    (Own jobs id → Seen (Offered id) calls ∧ a.queue.HeldUnder w token id)

/-- The email has left the queue for good. -/
def Released (jobs : ι → Job) (id : EmailId) (w : World) (calls : List (ι × Call Sys World)) : Prop :=
  Own jobs id → Seen (Offered id) calls ∧ ¬ w.Outstanding id

def CustodyAt (a : Adapters) (jobs : ι → Job) (i : ι) :
    TurnStage → World → List (ι × Call Sys World) → Prop
  | .polling, _, _ | .claiming _, _, _ | .ended, _, _ => True
  | .reading row, w, calls | .orphaned row, w, calls =>
      Custodian a jobs i row.entryId row.emailId w calls
  | .sending item, w, calls | .sendingDrawn item _, w, calls | .executing item, w, calls
  | .acking item _, w, calls | .nacking item _, w, calls | .leasing item _ _, w, calls =>
      Custodian a jobs i item.token item.id w calls
  | .clearing item _, w, calls | .cleaning item _ _, w, calls => Released jobs item.id w calls
  | .closing item outcome, w, calls | .closingDrawn item outcome _, w, calls =>
      (∀ e, outcome ≠ .retrying e) → Released jobs item.id w calls

/-- The types of the two events that end the life of an email. -/
def EventRow.Terminal (row : EventRow) : Prop :=
  row.eventType = "delivery.succeeded" ∨ row.eventType = "delivery.failed"

theorem eventRow_terminal_iff {uuid : Nat} {event : LifecycleEvent} :
    (w.eventRow uuid event).Terminal ↔ event.Terminal := event.terminal_iff.symm

structure Custody (a : Adapters) (jobs : ι → Job) (w : World) (calls : List (ι × Call Sys World)) :
    Prop where
  origin : ∀ {id}, Own jobs id → w.Outstanding id → Seen (Offered id) calls
  sent : ∀ {id}, Own jobs id → 0 < w.memory.count id → Seen (Enqueued id) calls
  single : ∀ {id}, Own jobs id → a.queue.Single w id
  issued : ∀ {i token}, Did (Received token) i calls → token < w.memory.nextToken
  distinct : ∀ {i j token}, Did (Received token) i calls → Did (Received token) j calls → i = j
  terminal : ∀ row ∈ w.events, row.Terminal → Released jobs row.emailId w calls

def CustodyTask (a : Adapters) (jobs : ι → Job) (i : ι) :
    Stage → World → List (ι × Call Sys World) → Prop
  | .turn st, w, calls => CustodyAt a jobs i st w calls
  | _, _, _ => True

def custody (a : Adapters) (jobs : ι → Job) : Outlines ι :=
  outline a jobs (Custody a jobs) (CustodyTask a jobs)

/-- The submitted emails have left no trace yet. -/
structure Vacant (jobs : ι → Job) (w : World) : Prop where
  outstanding : ∀ {id}, Own jobs id → ¬ w.Outstanding id
  events : ∀ row ∈ w.events, ¬ Own jobs row.emailId

theorem Vacant.not_referenced (h : Vacant jobs w) (ho : Own jobs id) : w.referenced id = false := by
  refine Bool.eq_false_iff.mpr fun href => ?_
  rcases referenced_iff.mp href with ⟨e, he, hid⟩ | ⟨row, hrow, rfl⟩
  · exact h.outstanding ho (.inl ⟨e, he, hid⟩)
  · exact h.events row hrow ho

theorem custodyTask_start (job : Job) : CustodyTask a jobs i job.start w [] := by
  cases job <;> trivial

theorem custody_start (hv : Vacant jobs w) : (custody a jobs).Holds (System.start a w jobs) := by
  refine outline_start ⟨fun ho h => absurd h (hv.outstanding ho), fun ho h => absurd (.inr h) (hv.outstanding ho),
    fun {id} ho => ?_,
    fun h => absurd h did_nil, fun h => absurd h did_nil,
    fun row hrow _ ho => absurd ho (hv.events row hrow)⟩ fun i => custodyTask_start (jobs i)
  have hnone : ∀ e ∈ w.queue, e.emailId ≠ id := fun e he hid => hv.outstanding ho (.inl ⟨e, he, hid⟩)
  have hzero : w.memory.count id = 0 :=
    Nat.eq_zero_of_not_pos fun hpos => hv.outstanding ho (.inr hpos)
  by_cases hq : a.queue = .memory
  · rw [hq]
    exact ⟨hnone, by omega⟩
  · rw [single_sql hq]
    exact ⟨⟨0, fun e he hid => absurd hid (hnone e he)⟩, hzero⟩

theorem Custodian.keep {c : Call Sys World} (h : Custodian a jobs i token id w calls)
    (hp : Performs w op w' r) (hop : Own jobs id → ¬ op.Enqueues id)
    (hnack : a.queue = .memory → ∀ delay, op ≠ .requeuePending token delay) :
    Custodian a jobs i token id w' (calls ++ [(j, c)]) := by
  refine ⟨fun hq => (h.1 hq).append _, fun ho => ?_⟩
  obtain ⟨hseen, hheld⟩ := h.2 ho
  exact ⟨hseen.append _, hp.heldUnder (hop ho) hnack hheld⟩

theorem Released.keep {c : Call Sys World} (h : Released jobs id w calls) (hp : Performs w op w' r)
    (hop : Own jobs id → ¬ op.Enqueues id) : Released jobs id w' (calls ++ [(j, c)]) := by
  intro ho
  obtain ⟨hseen, hnot⟩ := h ho
  exact ⟨hseen.append _, fun hout => hnot (hp.outstanding (hop ho) hout)⟩

/-- A call of another job keeps what holds of a turn: it enqueues no email that
was enqueued before and requeues no item of the turn. -/
theorem CustodyAt.keep {st : TurnStage} {c : Call Sys World} (h : CustodyAt a jobs i st w calls)
    (hp : Performs w op w' r) (hop : ∀ {id}, Seen (Offered id) calls → ¬ op.Enqueues id)
    (hnack : ∀ {token}, Did (Received token) i calls → ∀ delay, op ≠ .requeuePending token delay) :
    CustodyAt a jobs i st w' (calls ++ [(j, c)]) := by
  have hcustodian : ∀ {token id}, Custodian a jobs i token id w calls →
      Custodian a jobs i token id w' (calls ++ [(j, c)]) := fun h =>
    h.keep hp (fun ho => hop (h.2 ho).1) fun hq => hnack (h.1 hq)
  have hreleased : ∀ {id}, Released jobs id w calls → Released jobs id w' (calls ++ [(j, c)]) :=
    fun h => h.keep hp fun ho => hop (h ho).1
  cases st with
  | polling | claiming | ended => trivial
  | reading | orphaned | sending | sendingDrawn | executing | acking | nacking | leasing =>
      exact hcustodian h
  | clearing | cleaning => exact hreleased h
  | closing | closingDrawn => exact fun hne => hreleased (h hne)

theorem Custody.claimed {c : Call Sys World} (hc : Custody a jobs w calls) (hq : a.queue ≠ .memory) {e : QueueEntry}
    (he : e ∈ w.queue) (hp : Performs w op w' r) (hop : ¬ op.Enqueues e.emailId) :
    Custodian a jobs i e.id e.emailId w' (calls ++ [(j, c)]) := by
  refine ⟨fun h => absurd h hq, fun ho => ⟨(hc.origin ho (.inl ⟨e, he, rfl⟩)).append _, ?_⟩⟩
  exact hp.heldUnder hop (fun h => absurd h hq) (claimed_heldUnder hq he (hc.single ho))

theorem Custody.received {memory : MemoryQueue} {item : DequeuedEmail} (hc : Custody a jobs w calls)
    (hq : a.queue = .memory) (hr : w.memory.recv = some (memory, item)) :
    Custodian a jobs i item.token item.id { w with memory }
      (calls ++ [(i, ⟨w, .recv, .ok (some item), heard⟩)]) := by
  refine ⟨fun _ => did_snoc_self.mpr (.inr rfl), fun ho => ?_⟩
  obtain ⟨x, channel, hch, rfl, -⟩ := MemoryQueue.recv_eq_some hr
  have hout : w.Outstanding x.id := by
    refine .inr ?_
    simp only [MemoryQueue.count_eq, hch, List.map_cons, List.count_cons, beq_self_eq_true, if_true]
    omega
  have hs := hc.single ho
  rw [hq] at hs ⊢
  exact ⟨(hc.origin ho hout).append _, hs.1, MemoryQueue.recv_heldUnder hr hs.2⟩

theorem CustodyAt.acked {item : DequeuedEmail} {outcome : Outcome} (h : Released jobs item.id w calls) :
    CustodyAt a jobs i (.afterAck item outcome) w calls := by
  cases outcome with
  | sent senderName => exact h
  | failed e => exact fun _ => h
  | retrying e => exact fun _ => h

theorem CustodyAt.step {st st' : TurnStage} (hc : Custody a jobs w calls)
    (h : CustodyAt a jobs i st w calls) (hp : Performs w op w' r) (hm : TurnMoves a st op r st') :
    CustodyAt a jobs i st' w' (calls ++ [(i, ⟨w, op, r, heard⟩)]) := by
  cases hm with
  | clock | recvFailed | claimFailed | commitFailed | readFailed | orphanDeleted | ackFailed
  | removeFailed | leaseFailed | requeueFailed | closed => trivial
  | received hq =>
      cases hp with
      | recv hr => exact hc.received hq hr
  | @claimed now r hq =>
      have hmem : a.queue ≠ .memory := by simp [hq]
      cases hp with
      | claimNone hn hs => cases hs; trivial
      | @claimNext _ _ e _ _ he hf hs =>
          have hp := Performs.claimNext he hf hs
          cases hs with
          | ok =>
              simp only [TurnStage.afterClaim]
              split
              · exact hc.claimed hmem he hp not_false
              · trivial
  | @committed now r hq =>
      have hmem : a.queue ≠ .memory := by simp [hq]
      cases hp with
      | transactionNone hn hs => cases hs; trivial
      | @claimTransaction _ _ e _ _ he hf hs =>
          have hp := Performs.claimTransaction he hf hs
          cases hrow : w.findEmail e.emailId with
          | none =>
              simp only [World.claimInTransaction, hrow] at hs
              cases hs
              trivial
          | some row =>
              simp only [World.claimInTransaction, hrow] at hs
              cases hs
              exact hc.claimed hmem he hp not_false
  | @read row r =>
      have hcust := Custodian.keep (j := i) (c := ⟨w, .selectEmail row.emailId, .ok r, heard⟩) h hp
        (fun _ => not_false) (fun _ _ h => by cases h)
      cases r with
      | none => exact hcust
      | some envelope => exact hcust
  | sendingDrawn | sendingPublished => exact Custodian.keep h hp (fun _ => not_false) (fun _ _ h => by cases h)
  | @processed item r =>
      have hcust := Custodian.keep (j := i) (c := ⟨w, .process item.envelope, r, heard⟩) h hp
        (fun _ => not_false) (fun _ _ h => by cases h)
      cases r with
      | ok senderName => exact hcust
      | error e =>
          simp only [TurnStage.afterProcess]
          split <;> exact hcust
  | @acked item outcome hq =>
      cases hp with
      | deleteEntry hs =>
          cases hs
          exact CustodyAt.acked fun ho => ⟨(h.2 ho).1.append _, acked_not_outstanding hq (h.2 ho).2⟩
  | @removed item outcome hq =>
      cases hp
      exact CustodyAt.acked fun ho => ⟨(h.2 ho).1.append _, removed_not_outstanding (hq ▸ (h.2 ho).2)⟩
  | nackClock => exact Custodian.keep h hp (fun _ => not_false) (fun _ _ h => by cases h)
  | leased | requeued => exact fun hne => absurd rfl (hne _)
  | cleared | cleaned => exact Released.keep h hp fun _ => not_false
  | sentDrawn => exact fun _ => Released.keep h hp fun _ => not_false
  | closingDrawn => exact fun hne => Released.keep (h hne) hp fun _ => not_false

theorem fresh_enqueue {s : System ι} {act : Act ι} (hd : DistinctIds jobs)
    (hacc : (acceptance a jobs).Holds s) (hl : Pool.Lands machine s act i op w r heard)
    (hop : op.Enqueues id) : ¬ Seen (Offered id) s.calls := by
  rintro ⟨k, hk⟩
  obtain ⟨next, c, ht, -, -⟩ := hl
  obtain ⟨st, hf, hat⟩ := hacc.2 i _ ht
  obtain ⟨st', hm, -⟩ := hf r
  obtain ⟨⟨input, refs, patched, hi, rfl⟩, -⟩ := enqueue_moves hop hm
  obtain ⟨input', hk'⟩ := hacc.1.offered hk
  obtain rfl := hd hk' hi
  exact (hat hi).2.1 hk

theorem requeue_moves {job : Job} {st st' : Stage} {delay : Duration}
    (hop : op = .requeuePending token delay) (hm : JobMoves a job st op r st')
    (ht : CustodyTask a jobs i st w calls) : Did (Received token) i calls := by
  subst hop
  cases hm with
  | submit hm => cases hm
  | turn hm => cases hm with
    | requeued hq | requeueFailed hq => exact ht.1 hq
  | sweep hm => cases hm

theorem enqueues_performs (hp : Performs w op w' r) (hop : op.Enqueues id) :
    w' = w ∨ Offered id ⟨w, op, r, heard⟩ := by
  cases hp with
  | send | insertEntry => exact .inr (congrArg some hop)
  | sendRefused | entryRefused => exact .inl rfl
  | _ => cases hop

theorem enqueued_performs (hp : Performs w op w' r) (hpos : 0 < w'.memory.count id) :
    0 < w.memory.count id ∨ Enqueued id ⟨w, op, r, heard⟩ := by
  by_cases hop : op.Enqueues id
  · cases hp with
    | send => exact .inr (congrArg some hop)
    | insertEntry _ _ hs => exact .inl (by rcases hs.cases with rfl | rfl <;> exact hpos)
    | sendRefused | entryRefused => exact .inl hpos
    | _ => cases hop
  · exact .inl (Nat.lt_of_lt_of_le hpos (hp.count_le hop))

theorem received_performs (hp : Performs w op w' r) (hr : Received token ⟨w, op, r, heard⟩) :
    token = w.memory.nextToken ∧ w'.memory.nextToken = w.memory.nextToken + 1 := by
  cases hp with
  | recv h =>
      cases hr
      obtain ⟨item, channel, -, rfl, rfl⟩ := MemoryQueue.recv_eq_some h
      exact ⟨rfl, rfl⟩
  | _ => cases hr

theorem Performs.nextToken_le (hp : Performs w op w' r) : w.memory.nextToken ≤ w'.memory.nextToken := by
  rcases hp.memory with hm | hm
  · exact Nat.le_of_eq (by rw [hm])
  · generalize w'.memory = memory at hm
    cases hm with
    | send | removePending => exact Nat.le_refl _
    | recv h =>
        obtain ⟨item, channel, -, -, rfl⟩ := MemoryQueue.recv_eq_some h
        exact Nat.le_succ _
    | requeuePending =>
        unfold MemoryQueue.requeue
        split <;> exact Nat.le_refl _

theorem Custody.snoc (hc : Custody a jobs w calls) {job : Job} {st st' : Stage}
    (hp : Performs w op w' r) (hm : JobMoves a job st op r st') (ht : CustodyTask a jobs i st w calls)
    (hfresh : ∀ {id}, op.Enqueues id → ¬ Seen (Offered id) calls) :
    Custody a jobs w' (calls ++ [(i, ⟨w, op, r, heard⟩)]) := by
  have hreleased : ∀ {id}, Released jobs id w calls →
      Released jobs id w' (calls ++ [(i, ⟨w, op, r, heard⟩)]) :=
    fun h => h.keep hp fun ho hop => hfresh hop (h ho).1
  constructor
  · intro id ho hout
    by_cases hop : op.Enqueues id
    · rcases enqueues_performs hp hop with rfl | hoff
      · exact (hc.origin ho hout).append _
      · exact seen_snoc.mpr (.inr hoff)
    · exact (hc.origin ho (hp.outstanding hop hout)).append _
  · intro id ho hpos
    rcases enqueued_performs hp hpos with hpos | henq
    · exact (hc.sent ho hpos).append _
    · exact seen_snoc.mpr (.inr henq)
  · intro id ho
    by_cases hop : op.Enqueues id
    · exact single_enqueued hp hop (enqueue_moves hop hm).2 fun hout => hfresh hop (hc.origin ho hout)
    · exact hp.single hop (hc.single ho)
  · intro k token hk
    rcases did_snoc.mp hk with hk | ⟨rfl, hr⟩
    · exact Nat.lt_of_lt_of_le (hc.issued hk) hp.nextToken_le
    · obtain ⟨rfl, hnext⟩ := received_performs hp hr
      rw [hnext]
      exact Nat.lt_succ_self _
  · intro k l token hk hl
    rcases did_snoc.mp hk with h₁ | ⟨hki, hr⟩ <;> rcases did_snoc.mp hl with h₂ | ⟨hli, hr'⟩
    · exact hc.distinct h₁ h₂
    · have hlt := hc.issued h₁
      rw [(received_performs hp hr').1] at hlt
      exact absurd hlt (Nat.lt_irrefl _)
    · have hlt := hc.issued h₂
      rw [(received_performs hp hr).1] at hlt
      exact absurd hlt (Nat.lt_irrefl _)
    · exact hki.trans hli.symm
  · intro row hrow hterm
    rcases hp.events with he | ⟨uuid, event, rfl, he⟩
    · exact hreleased (hc.terminal row (he ▸ hrow) hterm)
    · rw [he] at hrow
      simp only [List.mem_append, List.mem_singleton] at hrow
      rcases hrow with hrow | rfl
      · exact hreleased (hc.terminal row hrow hterm)
      · refine hreleased ?_
        rw [eventRow_terminal_iff] at hterm
        cases hm with
        | submit hm => cases hm; cases hterm
        | turn hm =>
            cases hm with
            | sendingPublished => cases hterm
            | @closed item outcome =>
                cases outcome with
                | sent | failed => exact ht fun _ h => by cases h
                | retrying => cases hterm
        | sweep hm => cases hm

theorem custody_keeps (hd : DistinctIds jobs) {s : System ι} {act : Act ι}
    (hacc : (acceptance a jobs).Holds s) (h : (custody a jobs).Holds s) :
    (custody a jobs).Keeps machine s act where
  shared hl hm ht := h.1.snoc (lands_performs hl) hm ht fun hop => fresh_enqueue hd hacc hl hop
  own := by
    intro i op w r st st' hl hm ht
    have hmoves : JobMoves a (jobs i) st op r st' := hm
    clear hm
    generalize jobs i = job at hmoves
    cases hmoves with
    | turn hturn => exact CustodyAt.step h.1 ht (lands_performs hl) hturn
    | submit | sweep => trivial
  other := by
    intro i op w r heard st st' hl hm ht j stj p hji _ _ htj
    cases stj with
    | turn stj =>
        refine CustodyAt.keep htj (lands_performs hl) ?_ ?_
        · intro id hseen hop
          exact fresh_enqueue hd hacc hl hop hseen
        · rintro token hrec delay rfl
          exact hji (h.1.distinct hrec (requeue_moves rfl hm ht))
    | submit | sweep => trivial
  drift := by
    intro e w hdrift
    have hdr := drifts hdrift
    have hreleased : ∀ {id}, Released jobs id s.world s.calls → Released jobs id w s.calls := by
      intro id h ho
      exact ⟨(h ho).1, fun hout => (h ho).2 (hdr.outstanding_iff.mp hout)⟩
    refine ⟨⟨fun ho hout => h.1.origin ho (hdr.outstanding_iff.mp hout),
      fun ho hpos => h.1.sent ho (hdr.count_eq _ ▸ hpos), fun ho => hdr.single (h.1.single ho),
      ?_, h.1.distinct, ?_⟩, fun {j stj} hj => ?_⟩
    · intro i token hi
      have hlt := h.1.issued hi
      cases hdr with
      | tick => exact hlt
      | wake hw =>
          obtain ⟨wake, item, -, -, rfl⟩ := MemoryQueue.wakeUp_eq_some hw
          exact hlt
    · rw [hdr.events]
      exact fun row hrow hterm => hreleased (h.1.terminal row hrow hterm)
    · cases stj with
      | turn stj =>
          have hcustodian : ∀ {token id}, Custodian a jobs j token id s.world s.calls →
              Custodian a jobs j token id w s.calls := fun h =>
            ⟨h.1, fun ho => ⟨(h.2 ho).1, hdr.heldUnder (h.2 ho).2⟩⟩
          cases stj with
          | polling | claiming | ended => trivial
          | reading | orphaned | sending | sendingDrawn | executing | acking | nacking | leasing =>
              exact hcustodian hj
          | clearing | cleaning => exact hreleased hj
          | closing | closingDrawn => exact fun hne => hreleased (hj hne)
      | submit | sweep => trivial

end Catapulte
