import Mathlib.Algebra.Ring.Nat
import Catapulte.Discipline
import Catapulte.Pending
import Catapulte.Session.Turn
import Catapulte.Status
import Catapulte.WorkerProtocol

namespace Catapulte

open Async TurnStage

variable {a : Adapters} {w₀ w w' : World} {e : QueueEntry} {id : EmailId} {c : Choice}

/-- Storage returns no `Err`, and time may pass between two calls. -/
def faultless : Solo Sys World Choice Drift := ⟨fun c _ => c.fails = false, fun _ => True⟩

/-- A worker alone takes one turn after the other, with time passing between them.
The number counts the turns that found an eligible entry. -/
inductive Rounds (a : Adapters) (w : World) : Nat → World → Prop
  | start : Rounds a w 0 w
  | wait {n : Nat} {w₁ w₂ : World} {d : Drift} (h : Rounds a w n w₁) (hd : drift w₁ d = some w₂) : Rounds a w n w₂
  | turn {n : Nat} {w₁ w₂ : World} {l : List (Call Sys World)} (h : Rounds a w n w₁)
      (hr : Runs machine faultless w₁ [] a.worker.turn w₂ l ()) :
      Rounds a w (if w₁.countEligible w₁.nowMs = 0 then n else n + 1) w₂

/-- The number of turns the entry may still take. -/
def QueueEntry.share (e : QueueEntry) : Nat := max 1 (maxAttempts - e.attemptCount)

def World.work (w : World) : Nat := (w.queue.map QueueEntry.share).sum

def World.HasEmail (w : World) (id : EmailId) : Prop := id ∈ w.emails.map EmailRow.id

def World.Awaits (w : World) (id : EmailId) : Prop := ∃ e ∈ w.queue, e.emailId = id

def World.Finished (w : World) (id : EmailId) : Prop :=
  w.latestEventType id = "delivery.succeeded" ∨ w.latestEventType id = "delivery.failed"

/-- What a worker may start from. -/
structure World.InOrder (w : World) : Prop where
  entries : w.EntriesFresh
  id_le : ∀ row ∈ w.events, row.id ≤ w.lastUuid
  createdAt_le : ∀ row ∈ w.events, row.createdAt ≤ w.nowMs
  attempts : ∀ e ∈ w.queue, e.attemptCount + 1 < 2 ^ 32

/-- What a turn for the email leaves as it was, with the ids and the times of the events. -/
structure TurnFrame (w₀ : World) (id : EmailId) (w : World) : Prop where
  rows : w.emails.map EmailRow.id = w₀.emails.map EmailRow.id
  events : ∀ id' ≠ id, (w.events.filter fun row => row.emailId = id') = w₀.events.filter fun row => row.emailId = id'
  id_le : ∀ row ∈ w.events, row.id ≤ w.lastUuid
  createdAt_le : ∀ row ∈ w.events, row.createdAt ≤ w.nowMs
  lastUuid_le : w₀.lastUuid ≤ w.lastUuid
  nowMs_le : w₀.nowMs ≤ w.nowMs

structure Untouched (w₀ w : World) : Prop where
  frame : ∀ id, TurnFrame w₀ id w
  queue : w.queue = w₀.queue

structure Held (w₀ : World) (e : QueueEntry) (w : World) : Prop where
  mem : e ∈ w₀.queue
  frame : TurnFrame w₀ e.emailId w
  queue : ∃ claimedUntil, w.queue = (w₀.claimEntry e.id claimedUntil).queue

structure Removed (w₀ : World) (e : QueueEntry) (w : World) : Prop where
  mem : e ∈ w₀.queue
  frame : TurnFrame w₀ e.emailId w
  queue : w.queue = (w₀.deleteEntry e.id).queue

structure ClaimOf (w₀ : World) (e : QueueEntry) (item : DequeuedEmail) : Prop where
  id : item.id = e.emailId
  attempt : item.attempt = e.attemptCount + 1
  token : item.token = e.id
  email : w₀.HasEmail e.emailId

def Outcome.LeavesQueue : Outcome → Prop
  | .retrying _ => False
  | _ => True

def LeftAs (w₀ : World) (e : QueueEntry) (w : World) : Outcome → Prop
  | .retrying _ => Held w₀ e w ∧ e.attemptCount + 1 < maxAttempts
  | _ => Removed w₀ e w

def Latest (uuid : Nat) (w : World) : Prop := uuid = w.lastUuid ∧ ∀ row ∈ w.events, row.id < uuid

inductive TurnEnd (w₀ w : World) : Prop
  | idle (h : Untouched w₀ w) (hnone : w₀.countEligible w₀.nowMs = 0)
  | concluded {e : QueueEntry} (h : Removed w₀ e w) (hend : w₀.HasEmail e.emailId → w.Finished e.emailId)
  | retried {e : QueueEntry} (h : Held w₀ e w) (hlt : e.attemptCount + 1 < maxAttempts)

def CompletionAt (w₀ : World) : TurnStage → World → Prop
  | .polling, w => Untouched w₀ w
  | .claiming now, w => Untouched w₀ w ∧ w₀.nowMs ≤ now
  | .reading row, w => ∃ e, Held w₀ e w ∧ row = ⟨e.id, e.emailId, e.attemptCount + 1⟩
  | .orphaned row, w => ∃ e, Held w₀ e w ∧ row = ⟨e.id, e.emailId, e.attemptCount + 1⟩ ∧ ¬ w₀.HasEmail e.emailId
  | .sending item, w | .executing item, w => ∃ e, Held w₀ e w ∧ ClaimOf w₀ e item
  | .sendingDrawn item uuid, w => ∃ e, Held w₀ e w ∧ ClaimOf w₀ e item ∧ Latest uuid w
  | .acking item outcome, w => ∃ e, Held w₀ e w ∧ ClaimOf w₀ e item ∧ outcome.LeavesQueue
  | .nacking item _, w | .leasing item _ _, w => ∃ e, Held w₀ e w ∧ ClaimOf w₀ e item ∧ e.attemptCount + 1 < maxAttempts
  | .clearing item _, w | .cleaning item _ _, w => ∃ e, Removed w₀ e w ∧ ClaimOf w₀ e item
  | .closing item outcome, w => ∃ e, LeftAs w₀ e w outcome ∧ ClaimOf w₀ e item
  | .closingDrawn item outcome uuid, w => ∃ e, LeftAs w₀ e w outcome ∧ ClaimOf w₀ e item ∧ Latest uuid w
  | .ended, w => TurnEnd w₀ w

theorem findEmail_eq_none_iff : w.findEmail id = none ↔ ¬ w.HasEmail id := by
  unfold World.findEmail World.HasEmail
  simp only [List.find?_eq_none, decide_eq_true_eq, List.mem_map, not_exists, not_and]

theorem hasEmail_of_row {row : EmailRow} (h : w.findEmail id = some row) : w.HasEmail id := by
  by_contra hn
  rw [findEmail_eq_none_iff.mpr hn] at h
  cases h

namespace TurnFrame

theorem hasEmail (h : TurnFrame w₀ id w) {id' : EmailId} : w.HasEmail id' ↔ w₀.HasEmail id' := by
  unfold World.HasEmail
  rw [h.rows]

theorem keep (h : TurnFrame w₀ id w) (hrows : w'.emails.map EmailRow.id = w.emails.map EmailRow.id)
    (hevents : w'.events = w.events) (hu : w.lastUuid ≤ w'.lastUuid) (hn : w.nowMs ≤ w'.nowMs) : TurnFrame w₀ id w' where
  rows := hrows.trans h.rows
  events id' hid := by
    rw [hevents]
    exact h.events id' hid
  id_le row hrow := Nat.le_trans (h.id_le row (hevents ▸ hrow)) hu
  createdAt_le row hrow := Int.le_trans (h.createdAt_le row (hevents ▸ hrow)) hn
  lastUuid_le := Nat.le_trans h.lastUuid_le hu
  nowMs_le := Int.le_trans h.nowMs_le hn

theorem draw (h : TurnFrame w₀ id w) {uuid : Nat} (hu : w.lastUuid < uuid) :
    TurnFrame w₀ id { w with lastUuid := uuid } ∧ Latest uuid { w with lastUuid := uuid } := by
  refine ⟨h.keep rfl rfl (Nat.le_of_lt hu) (Int.le_refl _), rfl, fun row hrow => ?_⟩
  exact Nat.lt_of_le_of_lt (h.id_le row hrow) hu

theorem insertEvent {event : LifecycleEvent} (h : TurnFrame w₀ event.emailId w) {uuid : Nat} (hl : Latest uuid w) :
    TurnFrame w₀ event.emailId (w.insertEvent uuid event) where
  rows := h.rows
  events id' hid := by
    have hnew : ([w.eventRow uuid event].filter fun row => row.emailId = id') = [] :=
      List.filter_cons_of_neg fun h => hid (of_decide_eq_true h).symm
    rw [World.insertEvent_events, List.filter_append, hnew, List.append_nil]
    exact h.events id' hid
  id_le row hrow := by
    rcases List.mem_append.mp hrow with hrow | hrow
    · exact h.id_le row hrow
    · obtain rfl := List.mem_singleton.mp hrow
      exact Nat.le_of_eq hl.1
  createdAt_le row hrow := by
    rcases List.mem_append.mp hrow with hrow | hrow
    · exact h.createdAt_le row hrow
    · obtain rfl := List.mem_singleton.mp hrow
      exact Int.le_refl _
  lastUuid_le := h.lastUuid_le
  nowMs_le := h.nowMs_le

end TurnFrame

theorem latestEventType_insertEvent {event : LifecycleEvent} {uuid : Nat} (hl : Latest uuid w)
    (hc : ∀ row ∈ w.events, row.createdAt ≤ w.nowMs) :
    (w.insertEvent uuid event).latestEventType event.emailId = event.eventType := by
  have hlatest : latestEvent ((w.insertEvent uuid event).events.filter fun row => row.emailId = event.emailId) =
      some (w.eventRow uuid event) := by
    refine latestEvent_eq ?_ fun row hrow => ?_
    · exact List.mem_filter.mpr ⟨List.mem_append_right _ List.mem_cons_self, decide_eq_true rfl⟩
    · rcases List.mem_append.mp (List.mem_filter.mp hrow).1 with hrow | hrow
      · have hid : row.id < uuid := hl.2 row hrow
        have htime : row.createdAt ≤ w.nowMs := hc row hrow
        refine .inr (decide_eq_true ?_)
        change row.createdAt < w.nowMs ∨ w.nowMs = row.createdAt ∧ row.id < uuid
        omega
      · exact .inl (List.mem_singleton.mp hrow)
  rw [World.latestEventType, hlatest]
  rfl

theorem deleteEntry_claimed (w : World) (token : AckToken) (claimUntil : Int) :
    ((w.claimEntry token claimUntil).deleteEntry token).queue = (w.deleteEntry token).queue := by
  simp only [World.deleteEntry_queue, World.claimEntry_queue]
  induction w.queue with
  | nil => rfl
  | cons e q ih =>
      rw [List.map_cons]
      by_cases he : e.id = token
      · rw [if_pos he, List.filter_cons_of_neg (by simpa using he), List.filter_cons_of_neg (by simpa using he), ih]
      · rw [if_neg he, List.filter_cons_of_pos (by simpa using he), List.filter_cons_of_pos (by simpa using he), ih]

theorem leaseEntry_claimed (w : World) (token : AckToken) (claimUntil claimedUntil : Int) :
    ((w.claimEntry token claimUntil).leaseEntry token claimedUntil).queue = (w.claimEntry token claimedUntil).queue := by
  simp only [World.leaseEntry_queue, World.claimEntry_queue, List.map_map]
  refine List.map_congr_left fun e _ => ?_
  by_cases he : e.id = token
  · simp only [Function.comp, if_pos he]
  · simp only [Function.comp, if_neg he]

theorem Held.keep (h : Held w₀ e w) (hf : TurnFrame w₀ e.emailId w') (hq : w'.queue = w.queue) : Held w₀ e w' :=
  ⟨h.mem, hf, hq ▸ h.queue⟩

theorem Removed.keep (h : Removed w₀ e w) (hf : TurnFrame w₀ e.emailId w') (hq : w'.queue = w.queue) : Removed w₀ e w' :=
  ⟨h.mem, hf, hq.trans h.queue⟩

theorem Held.lease (h : Held w₀ e w) (claimedUntil : Int) : Held w₀ e (w.leaseEntry e.id claimedUntil) := by
  obtain ⟨claimUntil, hq⟩ := h.queue
  refine ⟨h.mem, h.frame.keep rfl rfl (Nat.le_refl _) (Int.le_refl _), claimedUntil, ?_⟩
  rw [← leaseEntry_claimed w₀ e.id claimUntil]
  simp only [World.leaseEntry_queue, hq]

theorem Held.remove (h : Held w₀ e w) : Removed w₀ e (w.deleteEntry e.id) := by
  obtain ⟨claimUntil, hq⟩ := h.queue
  refine ⟨h.mem, h.frame.keep rfl rfl (Nat.le_refl _) (Int.le_refl _), ?_⟩
  rw [← deleteEntry_claimed w₀ e.id claimUntil]
  simp only [World.deleteEntry_queue, hq]

theorem Untouched.claim (h : Untouched w₀ w) (he : e ∈ w.queue) (claimUntil : Int) :
    Held w₀ e (w.claimEntry e.id claimUntil) := by
  refine ⟨h.queue ▸ he, (h.frame e.emailId).keep rfl rfl (Nat.le_refl _) (Int.le_refl _), claimUntil, ?_⟩
  simp only [World.claimEntry_queue, h.queue]

theorem Untouched.keep (h : Untouched w₀ w) (hf : ∀ id, TurnFrame w₀ id w → TurnFrame w₀ id w') (hq : w'.queue = w.queue) :
    Untouched w₀ w' := ⟨fun id => hf id (h.frame id), hq.trans h.queue⟩

theorem LeftAs.frame {outcome : Outcome} (h : LeftAs w₀ e w outcome) : TurnFrame w₀ e.emailId w := by
  cases outcome with
  | sent | failed => exact Removed.frame h
  | retrying => exact h.1.frame

theorem LeftAs.keep {outcome : Outcome} (h : LeftAs w₀ e w outcome) (hf : TurnFrame w₀ e.emailId w')
    (hq : w'.queue = w.queue) : LeftAs w₀ e w' outcome := by
  cases outcome with
  | sent | failed => exact Removed.keep h hf hq
  | retrying => exact ⟨h.1.keep hf hq, h.2⟩

theorem QueueEntry.eligible_later {now now' : Int} (hn : now ≤ now') (h : e.eligible now = true) : e.eligible now' = true := by
  obtain ⟨id, emailId, enqueuedAt, claimedUntil, attemptCount⟩ := e
  cases claimedUntil with
  | none => rfl
  | some t =>
      have ht : t < now := of_decide_eq_true h
      exact decide_eq_true (Int.lt_of_lt_of_le ht hn)

theorem Untouched.none_eligible (h : Untouched w₀ w) {now : Int} (hnow : w₀.nowMs ≤ now)
    (hnone : w.queue.any (·.eligible now) = false) : w₀.countEligible w₀.nowMs = 0 := by
  refine List.countP_eq_zero.mpr fun e he hel => ?_
  have hat : e.eligible now = false := by simpa using List.any_eq_false.mp hnone e (h.queue ▸ he)
  rw [QueueEntry.eligible_later hnow hel] at hat
  cases hat

theorem settle_fails {ε α : Type} {w₁ : World} {err : ε} {b : α} {r : Except ε α} (hc : c.fails = false)
    (h : c.settle w w₁ err b = (w', r)) : w' = w₁ ∧ r = .ok b := by
  rw [fails_settle hc] at h
  exact ⟨(Prod.mk.inj h).1.symm, (Prod.mk.inj h).2.symm⟩

theorem CompletionAt.drift {st : TurnStage} {d : Drift} (h : CompletionAt w₀ st w) (hd : Drifts w d w') :
    CompletionAt w₀ st w' := by
  have hframe {id : EmailId} (hf : TurnFrame w₀ id w) : TurnFrame w₀ id w' :=
    hf.keep (by rw [hd.emails]) hd.events (Nat.le_of_eq hd.lastUuid.symm) (nowMs_le hd.now_le)
  have huntouched (hu : Untouched w₀ w) : Untouched w₀ w' := hu.keep (fun _ => hframe) hd.queue
  have hheld {e : QueueEntry} (hh : Held w₀ e w) : Held w₀ e w' := hh.keep (hframe hh.frame) hd.queue
  have hremoved {e : QueueEntry} (hr : Removed w₀ e w) : Removed w₀ e w' := hr.keep (hframe hr.frame) hd.queue
  have hleft {e : QueueEntry} {outcome : Outcome} (hl : LeftAs w₀ e w outcome) : LeftAs w₀ e w' outcome :=
    hl.keep (hframe hl.frame) hd.queue
  have hlatest {uuid : Nat} (hl : Latest uuid w) : Latest uuid w' :=
    ⟨hl.1.trans hd.lastUuid.symm, fun row hrow => hl.2 row (hd.events ▸ hrow)⟩
  cases st with
  | polling => exact huntouched h
  | claiming now => exact ⟨huntouched h.1, h.2⟩
  | reading | orphaned | sending | executing | acking | nacking | leasing =>
      obtain ⟨e, hh, h⟩ := h
      exact ⟨e, hheld hh, h⟩
  | sendingDrawn =>
      obtain ⟨e, hh, hitem, hl⟩ := h
      exact ⟨e, hheld hh, hitem, hlatest hl⟩
  | clearing | cleaning =>
      obtain ⟨e, hr, h⟩ := h
      exact ⟨e, hremoved hr, h⟩
  | closing =>
      obtain ⟨e, hl, h⟩ := h
      exact ⟨e, hleft hl, h⟩
  | closingDrawn =>
      obtain ⟨e, hleftAs, hitem, hl⟩ := h
      exact ⟨e, hleft hleftAs, hitem, hlatest hl⟩
  | ended =>
      cases h with
      | idle hu hnone => exact .idle (huntouched hu) hnone
      | concluded hr hend =>
          refine .concluded (hremoved hr) fun hrow => ?_
          unfold World.Finished World.latestEventType
          rw [hd.events]
          exact hend hrow
      | retried hh hlt => exact .retried (hheld hh) hlt

theorem CompletionAt.claimed (h : Untouched w₀ w) (hw₀ : w₀.InOrder) (he : e ∈ w.queue) (claimUntil : Int) :
    CompletionAt w₀ (afterClaim (some ⟨e.id, e.emailId, e.attemptCount + 1⟩)) (w.claimEntry e.id claimUntil) := by
  have hlt : e.attemptCount + 1 < 2 ^ 32 := hw₀.attempts e (h.queue ▸ he)
  rw [afterClaim, if_pos hlt]
  exact ⟨e, h.claim he claimUntil, rfl⟩

theorem CompletionAt.committed (h : Untouched w₀ w) (he : e ∈ w.queue) (claimUntil : Int) :
    CompletionAt w₀ (afterPoll (w.claimInTransaction e claimUntil).2) (w.claimInTransaction e claimUntil).1 := by
  have hheld : Held w₀ e (w.claimEntry e.id claimUntil) := h.claim he claimUntil
  unfold World.claimInTransaction
  split
  · refine .concluded hheld.remove fun hrow => ?_
    exact absurd ((h.frame e.emailId).hasEmail.mpr hrow) (findEmail_eq_none_iff.mp ‹_›)
  · exact ⟨e, hheld, rfl, rfl, rfl, (h.frame e.emailId).hasEmail.mp (hasEmail_of_row ‹_›)⟩

theorem CompletionAt.claimNext {now : Int} {r : Except EmailQueueError (Option ClaimedEntry)} (hw₀ : w₀.InOrder)
    (h : CompletionAt w₀ (.claiming now) w) (hc : c.fails = false)
    (hp : perform w (.claimNext now (now + processingTimeoutMs)) c = some (w', r)) :
    ∃ claimed, r = .ok claimed ∧ CompletionAt w₀ (afterClaim claimed) w' := by
  simp only [perform, Option.map_eq_some_iff] at hp
  obtain ⟨p, hpick, hsettle⟩ := hp
  rcases pickEntry_eq_some hpick with ⟨rfl, hnone⟩ | ⟨e, rfl, he, -⟩
  · obtain ⟨rfl, rfl⟩ := settle_fails hc hsettle
    exact ⟨none, rfl, .idle h.1 (h.1.none_eligible h.2 hnone)⟩
  · obtain ⟨rfl, rfl⟩ := settle_fails hc hsettle
    exact ⟨_, rfl, CompletionAt.claimed h.1 hw₀ he _⟩

theorem CompletionAt.claimTransaction {now : Int} {r : Except EmailQueueError (Option DequeuedEmail)}
    (h : CompletionAt w₀ (.claiming now) w) (hc : c.fails = false)
    (hp : perform w (.claimTransaction now (now + processingTimeoutMs)) c = some (w', r)) :
    ∃ item, r = .ok item ∧ CompletionAt w₀ (afterPoll item) w' := by
  simp only [perform, Option.map_eq_some_iff] at hp
  obtain ⟨p, hpick, hsettle⟩ := hp
  rcases pickEntry_eq_some hpick with ⟨rfl, hnone⟩ | ⟨e, rfl, he, -⟩
  · obtain ⟨rfl, rfl⟩ := settle_fails hc hsettle
    exact ⟨none, rfl, .idle h.1 (h.1.none_eligible h.2 hnone)⟩
  · obtain ⟨rfl, rfl⟩ := settle_fails hc hsettle
    exact ⟨_, rfl, CompletionAt.committed h.1 he _⟩

theorem CompletionAt.read {row : ClaimedEntry} {r : Option Envelope} (h : CompletionAt w₀ (.reading row) w)
    (hc : c.fails = false) (hp : perform w (.selectEmail row.emailId) c = some (w', .ok r)) :
    CompletionAt w₀ (afterRead row r) w' := by
  obtain ⟨e, hh, rfl⟩ := h
  simp only [perform, hc] at hp
  cases hp
  cases hrow : w.findEmail e.emailId with
  | none => exact ⟨e, hh, rfl, mt hh.frame.hasEmail.mpr (findEmail_eq_none_iff.mp hrow)⟩
  | some row => exact ⟨e, hh, rfl, rfl, rfl, hh.frame.hasEmail.mp (hasEmail_of_row hrow)⟩

theorem CompletionAt.cleared {item : DequeuedEmail} {senderName : SenderName} {refs : List AttachmentRef}
    {r : Except EmailRepositoryError Unit} (h : CompletionAt w₀ (.clearing item senderName) w) (hc : c.fails = false)
    (hp : perform w (.setAttachments item.id []) c = some (w', r)) :
    CompletionAt w₀ (.cleaning item senderName refs) w' := by
  obtain ⟨e, hr, hitem⟩ := h
  simp only [perform] at hp
  split at hp
  · obtain ⟨rfl, -⟩ := settle_fails hc (Option.some.inj hp)
    refine ⟨e, hr.keep (hr.frame.keep ?_ rfl (Nat.le_refl _) (Int.le_refl _)) rfl, hitem⟩
    simp only [World.setAttachments_emails, List.map_map]
    refine List.map_congr_left fun row _ => ?_
    simp only [Function.comp]
    split <;> rfl
  · cases hp
    exact ⟨e, hr, hitem⟩

theorem CompletionAt.processed {item : DequeuedEmail} (hh : Held w₀ e w) (hitem : ClaimOf w₀ e item)
    (r : Except ProcessQueuedEmailError SenderName) : CompletionAt w₀ (afterProcess item r) w := by
  cases r with
  | ok senderName => exact ⟨e, hh, hitem, trivial⟩
  | error err =>
      simp only [afterProcess]
      split
      · exact ⟨e, hh, hitem, trivial⟩
      · have hlt : item.attempt < maxAttempts := lt_of_not_terminal (Bool.eq_false_iff.mpr ‹_›)
        exact ⟨e, hh, hitem, hitem.attempt ▸ hlt⟩

theorem CompletionAt.acked {item : DequeuedEmail} {outcome : Outcome} (hh : Held w₀ e w) (hitem : ClaimOf w₀ e item)
    (hout : outcome.LeavesQueue) : CompletionAt w₀ (afterAck item outcome) (w.deleteEntry item.token) := by
  have hremoved : Removed w₀ e (w.deleteEntry item.token) := hitem.token ▸ hh.remove
  cases outcome with
  | sent => exact ⟨e, hremoved, hitem⟩
  | failed => exact ⟨e, hremoved, hitem⟩
  | retrying => exact hout.elim

theorem CompletionAt.closed {item : DequeuedEmail} {outcome : Outcome} {uuid : Nat} (hleft : LeftAs w₀ e w outcome)
    (hitem : ClaimOf w₀ e item) (hl : Latest uuid w) : TurnEnd w₀ (w.insertEvent uuid (item.closingEvent outcome)) := by
  have hid : (item.closingEvent outcome).emailId = e.emailId := by
    rw [← hitem.id]
    cases outcome <;> rfl
  have hframe : TurnFrame w₀ e.emailId (w.insertEvent uuid (item.closingEvent outcome)) := by
    rw [← hid]
    exact TurnFrame.insertEvent (hid ▸ hleft.frame) hl
  have hstatus : (w.insertEvent uuid (item.closingEvent outcome)).latestEventType _ = _ :=
    latestEventType_insertEvent hl hleft.frame.createdAt_le
  rw [hid] at hstatus
  cases outcome with
  | sent => exact .concluded (Removed.keep hleft hframe rfl) fun _ => .inl hstatus
  | failed => exact .concluded (Removed.keep hleft hframe rfl) fun _ => .inr hstatus
  | retrying => exact .retried (hleft.1.keep hframe rfl) hleft.2

theorem CompletionAt.published {item : DequeuedEmail} {uuid : Nat} {r : Except EventPublisherError Unit}
    (h : CompletionAt w₀ (.sendingDrawn item uuid) w) (hc : c.fails = false)
    (hp : perform w (.insertEvent uuid item.sendingEvent) c = some (w', r)) : CompletionAt w₀ (.executing item) w' := by
  obtain ⟨e, hh, hitem, hl⟩ := h
  have hid : item.sendingEvent.emailId = e.emailId := hitem.id
  simp only [perform] at hp
  split at hp
  · obtain ⟨rfl, -⟩ := settle_fails hc (Option.some.inj hp)
    have hframe : TurnFrame w₀ e.emailId (w.insertEvent uuid item.sendingEvent) :=
      hid ▸ TurnFrame.insertEvent (hid ▸ hh.frame) hl
    exact ⟨e, hh.keep hframe rfl, hitem⟩
  · cases hp
    exact ⟨e, hh, hitem⟩

theorem CompletionAt.ended {item : DequeuedEmail} {outcome : Outcome} {uuid : Nat} {r : Except EventPublisherError Unit}
    (h : CompletionAt w₀ (.closingDrawn item outcome uuid) w) (hc : c.fails = false)
    (hp : perform w (.insertEvent uuid (item.closingEvent outcome)) c = some (w', r)) : TurnEnd w₀ w' := by
  obtain ⟨e, hleft, hitem, hl⟩ := h
  have hsome : (w.findEmail (item.closingEvent outcome).emailId).isSome = true := by
    have hid : (item.closingEvent outcome).emailId = e.emailId := by
      rw [← hitem.id]
      cases outcome <;> rfl
    rw [hid, Option.isSome_iff_ne_none, Ne, findEmail_eq_none_iff, not_not]
    exact hleft.frame.hasEmail.mpr hitem.email
  simp only [perform, if_pos hsome] at hp
  obtain ⟨rfl, -⟩ := settle_fails hc (Option.some.inj hp)
  exact CompletionAt.closed hleft hitem hl

theorem CompletionAt.step {st st' : TurnStage} {op : Effect} {r : op.Reply} (ha : a.queue ≠ .memory) (hw₀ : w₀.InOrder)
    (h : CompletionAt w₀ st w) (hm : TurnMoves a st op r st') (hc : c.fails = false) (hp : perform w op c = some (w', r)) :
    CompletionAt w₀ st' w' := by
  cases hm with
  | clock =>
      cases hp
      exact ⟨h, (h.frame ⟨0⟩).nowMs_le⟩
  | received hq | recvFailed hq | removed hq | removeFailed hq | requeued hq | requeueFailed hq => exact absurd hq ha
  | claimFailed =>
      obtain ⟨_, hr, -⟩ := CompletionAt.claimNext hw₀ h hc hp
      cases hr
  | commitFailed =>
      obtain ⟨_, hr, -⟩ := CompletionAt.claimTransaction h hc hp
      cases hr
  | readFailed =>
      rw [perform, hc] at hp
      cases hp
  | ackFailed | leaseFailed => cases (settle_fails hc (Option.some.inj hp)).2
  | claimed =>
      obtain ⟨_, hr, hnext⟩ := CompletionAt.claimNext hw₀ h hc hp
      exact Except.ok.inj hr ▸ hnext
  | committed =>
      obtain ⟨_, hr, hnext⟩ := CompletionAt.claimTransaction h hc hp
      exact Except.ok.inj hr ▸ hnext
  | read => exact CompletionAt.read h hc hp
  | orphanDeleted =>
      obtain ⟨e, hh, rfl, hnone⟩ := h
      obtain ⟨rfl, -⟩ := settle_fails hc (Option.some.inj hp)
      exact .concluded hh.remove fun hrow => absurd hrow hnone
  | sendingDrawn =>
      obtain ⟨e, hh, hitem⟩ := h
      simp only [perform] at hp
      split at hp <;> cases hp
      obtain ⟨hframe, hl⟩ := hh.frame.draw ‹_›
      exact ⟨e, hh.keep hframe rfl, hitem, hl⟩
  | sendingPublished => exact CompletionAt.published h hc hp
  | processed =>
      obtain ⟨e, hh, hitem⟩ := h
      cases hp
      exact CompletionAt.processed hh hitem _
  | acked =>
      obtain ⟨e, hh, hitem, hout⟩ := h
      obtain ⟨rfl, -⟩ := settle_fails hc (Option.some.inj hp)
      exact CompletionAt.acked hh hitem hout
  | nackClock =>
      cases hp
      exact h
  | leased =>
      obtain ⟨e, hh, hitem, hlt⟩ := h
      obtain ⟨rfl, -⟩ := settle_fails hc (Option.some.inj hp)
      exact ⟨e, ⟨hitem.token ▸ hh.lease _, hlt⟩, hitem⟩
  | cleared => exact CompletionAt.cleared h hc hp
  | cleaned =>
      obtain ⟨e, hr, hitem⟩ := h
      obtain ⟨rfl, -⟩ := settle_fails hc (Option.some.inj hp)
      exact ⟨e, hr.keep (hr.frame.keep rfl rfl (Nat.le_refl _) (Int.le_refl _)) rfl, hitem⟩
  | sentDrawn =>
      obtain ⟨e, hr, hitem⟩ := h
      simp only [perform] at hp
      split at hp <;> cases hp
      obtain ⟨hframe, hl⟩ := hr.frame.draw ‹_›
      exact ⟨e, hr.keep hframe rfl, hitem, hl⟩
  | closingDrawn =>
      obtain ⟨e, hleft, hitem⟩ := h
      simp only [perform] at hp
      split at hp <;> cases hp
      obtain ⟨hframe, hl⟩ := hleft.frame.draw ‹_›
      exact ⟨e, hleft.keep hframe rfl, hitem, hl⟩
  | closed => exact CompletionAt.ended h hc hp

theorem completion_guides (ha : a.queue ≠ .memory) (hw₀ : w₀.InOrder) :
    Guides machine faultless (TurnMoves a) fun st w _ => CompletionAt w₀ st w where
  stable _ _ _ _ _ h _ hd := CompletionAt.drift h (drifts hd)
  call hm h hp hc := CompletionAt.step ha hw₀ h hm hc hp

theorem Untouched.start (hw₀ : w₀.InOrder) : Untouched w₀ w₀ where
  frame _ := ⟨rfl, fun _ _ => rfl, hw₀.id_le, hw₀.createdAt_le, Nat.le_refl _, Int.le_refl _⟩
  queue := rfl

theorem turn_ends (ha : a.queue ≠ .memory) (hw₀ : w₀.InOrder) {l : List (Call Sys World)}
    (hr : Runs machine faultless w₀ [] a.worker.turn w l ()) : TurnEnd w₀ w := by
  have htriple := (completion_guides ha hw₀).triple (turn_follows (a := a))
  obtain ⟨st, rfl, h⟩ := htriple w₀ [] w l () (Untouched.start hw₀) hr
  exact h

theorem exists_pick (hw : w.EntriesFresh) (now : Int) : ∃ pick p, w.pickEntry now pick = some p := by
  by_cases hany : ∃ e ∈ w.queue, e.eligible now = true
  · obtain ⟨e, he, hf⟩ := exists_firstEligible hany
    exact ⟨e.id, some e, pickEntry_first hw he hf⟩
  · refine ⟨0, none, pickEntry_none (fun e he => ?_) 0⟩
    exact Bool.eq_false_iff.mpr fun hel => hany ⟨e, he, hel⟩

theorem CompletionAt.enabled {st st' : TurnStage} {op : Effect} {r : op.Reply} (ha : a.queue ≠ .memory) (hw₀ : w₀.InOrder)
    (h : CompletionAt w₀ st w) (hm : TurnMoves a st op r st') :
    ∃ c w' r', perform w op c = some (w', r') ∧ c.fails = false := by
  have huuid : ∃ c w' r', perform w .newUuid c = some (w', r') ∧ c.fails = false :=
    ⟨{ uuid := w.lastUuid + 1 }, _, _, if_pos (Nat.lt_succ_self _), rfl⟩
  have hevent (uuid : Nat) (event : LifecycleEvent) :
      ∃ c w' r', perform w (.insertEvent uuid event) c = some (w', r') ∧ c.fails = false := by
    by_cases hsome : (w.findEmail event.emailId).isSome = true
    · exact ⟨{}, _, _, if_pos hsome, rfl⟩
    · exact ⟨{}, _, _, if_neg hsome, rfl⟩
  have hpick (hu : Untouched w₀ w) (now : Int) : ∃ pick p, w.pickEntry now pick = some p := by
    refine exists_pick ⟨?_, fun e he => ?_⟩ now
    · rw [hu.queue]
      exact hw₀.entries.nodup
    · exact Nat.le_trans (hw₀.entries.drawn e (hu.queue ▸ he)) (hu.frame ⟨0⟩).lastUuid_le
  cases hm with
  | received hq | recvFailed hq | removed hq | removeFailed hq | requeued hq | requeueFailed hq => exact absurd hq ha
  | claimed | claimFailed | committed | commitFailed =>
      obtain ⟨pick, p, hp⟩ := hpick h.1 _
      exact ⟨{ uuid := pick }, _, _, congrArg (Option.map _) hp, rfl⟩
  | sendingDrawn | sentDrawn | closingDrawn => exact huuid
  | sendingPublished | closed => exact hevent _ _
  | cleared =>
      rename_i item senderName r
      by_cases hsome : (w.findEmail item.id).isSome = true
      · exact ⟨{}, _, _, if_pos hsome, rfl⟩
      · exact ⟨{}, _, _, if_neg hsome, rfl⟩
  | clock | read | readFailed | orphanDeleted | processed | acked | ackFailed | nackClock | leased | leaseFailed
  | cleaned => exact ⟨{}, _, _, rfl, rfl⟩

theorem exists_turn (ha : a.queue ≠ .memory) (hw₀ : w₀.InOrder) :
    ∃ w l, Runs machine faultless w₀ [] a.worker.turn w l () := by
  obtain ⟨w, l, u, hr⟩ := (completion_guides ha hw₀).exists_run (turn_follows (a := a)) (l := [])
    (Untouched.start hw₀) reply_nonempty fun hm h => CompletionAt.enabled ha hw₀ h hm
  exact ⟨w, l, hr⟩

theorem QueueEntry.share_pos (e : QueueEntry) : 0 < e.share := Nat.lt_of_lt_of_le Nat.zero_lt_one (Nat.le_max_left _ _)

theorem work_split (hw : w.EntriesFresh) (he : e ∈ w.queue) : ∃ rest, w.work = rest + e.share ∧
    (w.deleteEntry e.id).work = rest ∧
    ∀ claimUntil, (w.claimEntry e.id claimUntil).work = rest + { e with attemptCount := e.attemptCount + 1 }.share := by
  obtain ⟨pre, post, hq, hne⟩ := hw.split he
  have hpre : ∀ e' ∈ pre, e'.id ≠ e.id := fun e' he' => hne e' (List.mem_append_left _ he')
  have hpost : ∀ e' ∈ post, e'.id ≠ e.id := fun e' he' => hne e' (List.mem_append_right _ he')
  refine ⟨(pre.map QueueEntry.share).sum + (post.map QueueEntry.share).sum, ?_, ?_, fun claimUntil => ?_⟩
  · rw [World.work, hq]
    simp only [List.map_append, List.map_cons, List.sum_append, List.sum_cons]
    omega
  · have hfilter {l : List QueueEntry} (hl : ∀ e' ∈ l, e'.id ≠ e.id) : l.filter (fun e' => e'.id ≠ e.id) = l :=
      List.filter_eq_self.mpr fun e' he' => decide_eq_true (hl e' he')
    rw [World.work, World.deleteEntry_queue, hq, List.filter_append, List.filter_cons_of_neg (by simp), hfilter hpre,
      hfilter hpost, List.map_append, List.sum_append]
  · have hmap {l : List QueueEntry} (hl : ∀ e' ∈ l, e'.id ≠ e.id) (f : QueueEntry → QueueEntry) :
        l.map (fun e' => if e'.id = e.id then f e' else e') = l := by
      refine (List.map_congr_left fun e' he' => ?_).trans (List.map_id l)
      rw [if_neg (hl e' he'), id]
    rw [World.work, World.claimEntry_queue, hq, List.map_append, List.map_cons, if_pos rfl, hmap hpre, hmap hpost]
    simp only [List.map_append, List.map_cons, List.sum_append, List.sum_cons]
    change _ + (QueueEntry.share { e with attemptCount := e.attemptCount + 1 } + _) = _
    omega

theorem TurnEnd.work_le (h : TurnEnd w₀ w) (hw₀ : w₀.InOrder) :
    (if w₀.countEligible w₀.nowMs = 0 then 0 else 1) + w.work ≤ w₀.work := by
  have hone : (if w₀.countEligible w₀.nowMs = 0 then 0 else 1) ≤ 1 := by
    split <;> omega
  have hwork {w' : World} (hq : w.queue = w'.queue) : w.work = w'.work := by rw [World.work, World.work, hq]
  cases h with
  | idle h hnone =>
      rw [if_pos hnone, hwork h.queue, Nat.zero_add]
  | @concluded e h _ =>
      obtain ⟨rest, hbefore, hafter, -⟩ := work_split hw₀.entries h.mem
      have hpos := e.share_pos
      rw [hwork h.queue, hafter, hbefore]
      omega
  | @retried e h hlt =>
      obtain ⟨rest, hbefore, -, hafter⟩ := work_split hw₀.entries h.mem
      obtain ⟨claimUntil, hq⟩ := h.queue
      rw [hwork hq, hafter, hbefore]
      simp only [QueueEntry.share]
      omega

theorem TurnEnd.frame (h : TurnEnd w₀ w) : ∃ id, TurnFrame w₀ id w := by
  cases h with
  | idle h => exact ⟨⟨0⟩, h.frame _⟩
  | concluded h => exact ⟨_, h.frame⟩
  | retried h => exact ⟨_, h.frame⟩

theorem TurnEnd.inOrder (h : TurnEnd w₀ w) (hw₀ : w₀.InOrder) : w.InOrder := by
  obtain ⟨id, hframe⟩ := h.frame
  have hqueue : (w.queue.map QueueEntry.id).Sublist (w₀.queue.map QueueEntry.id) ∧
      ∀ e ∈ w.queue, e.attemptCount + 1 < 2 ^ 32 := by
    cases h with
    | idle h =>
        rw [h.queue]
        exact ⟨List.Sublist.refl _, hw₀.attempts⟩
    | @concluded e h =>
        rw [h.queue]
        exact ⟨deleteEntry_sublist e.id, fun e' he' => hw₀.attempts e' (List.mem_filter.mp he').1⟩
    | @retried e h hlt =>
        obtain ⟨claimUntil, hq⟩ := h.queue
        rw [hq]
        refine ⟨by rw [claimEntry_ids], fun e' he' => ?_⟩
        rcases mem_claimEntry_cases hw₀.entries h.mem he' with ⟨he', -⟩ | rfl
        · exact hw₀.attempts e' he'
        · have hmax : maxAttempts + 1 < 2 ^ 32 := by decide
          exact Nat.lt_trans (Nat.succ_lt_succ hlt) hmax
  exact ⟨hw₀.entries.of_sublist hframe.lastUuid_le hqueue.1, hframe.id_le, hframe.createdAt_le, hqueue.2⟩

theorem TurnFrame.finished (h : TurnFrame w₀ id w) {id' : EmailId} (hid : id' ≠ id) : w.Finished id' ↔ w₀.Finished id' := by
  unfold World.Finished World.latestEventType
  rw [h.events id' hid]

theorem TurnEnd.settles (h : TurnEnd w₀ w) (hw₀ : w₀.InOrder) (hrow : w₀.HasEmail id)
    (hid : w₀.Awaits id ∨ w₀.Finished id) : w.Awaits id ∨ w.Finished id := by
  cases h with
  | idle h =>
      refine hid.imp ?_ ?_
      · rintro ⟨e, he, hid⟩
        exact ⟨e, h.queue ▸ he, hid⟩
      · have hne : id ≠ ⟨id.uuid + 1⟩ := fun heq => Nat.ne_of_lt (Nat.lt_succ_self id.uuid) (congrArg EmailId.uuid heq)
        exact ((h.frame ⟨id.uuid + 1⟩).finished hne).mpr
  | @concluded e h hend =>
      by_cases he : id = e.emailId
      · subst he
        exact .inr (hend hrow)
      · refine hid.imp ?_ (h.frame.finished he).mpr
        rintro ⟨e', he', rfl⟩
        refine ⟨e', ?_, rfl⟩
        rw [h.queue]
        refine mem_deleteEntry.mpr ⟨he', fun hsame => he ?_⟩
        rw [hw₀.entries.unique he' h.mem hsame]
  | @retried e h hlt =>
      obtain ⟨claimUntil, hq⟩ := h.queue
      by_cases he : id = e.emailId
      · refine .inl ⟨{ e with claimedUntil := some claimUntil, attemptCount := e.attemptCount + 1 }, ?_, he.symm⟩
        rw [hq]
        exact claimed_mem h.mem claimUntil
      · refine hid.imp ?_ (h.frame.finished he).mpr
        rintro ⟨e', he', rfl⟩
        refine ⟨e', ?_, rfl⟩
        rw [hq]
        refine mem_claimEntry_of_ne he' (fun hsame => he ?_) claimUntil
        rw [hw₀.entries.unique he' h.mem hsame]

/-- The work that is done and the emails that are settled after some rounds. -/
structure Advanced (w : World) (n : Nat) (w' : World) : Prop where
  inOrder : w'.InOrder
  emails : ∀ id, w'.HasEmail id ↔ w.HasEmail id
  work_le : n + w'.work ≤ w.work
  settles : ∀ id, w.HasEmail id → w.Awaits id → w'.Awaits id ∨ w'.Finished id

theorem inOrder_drift {d : Drift} (h : w.InOrder) (hd : Drifts w d w') : w'.InOrder where
  entries := h.entries.of_sublist (Nat.le_of_eq hd.lastUuid.symm) (by rw [hd.queue])
  id_le row hrow := hd.lastUuid ▸ h.id_le row (hd.events ▸ hrow)
  createdAt_le row hrow := Int.le_trans (h.createdAt_le row (hd.events ▸ hrow)) (nowMs_le hd.now_le)
  attempts e he := h.attempts e (hd.queue ▸ he)

theorem Rounds.advanced {n : Nat} (ha : a.queue ≠ .memory) (hw : w.InOrder) (h : Rounds a w n w') : Advanced w n w' := by
  induction h with
  | start => exact ⟨hw, fun _ => Iff.rfl, Nat.le_of_eq (Nat.zero_add _), fun _ _ => .inl⟩
  | @wait n w₁ w₂ d h hd ih =>
      have hdrift := drifts hd
      obtain ⟨horder, hemails, hwork, hsettles⟩ := ih
      refine ⟨inOrder_drift horder hdrift, fun id => ?_, ?_, fun id hrow hid => ?_⟩
      · rw [← hemails id, World.HasEmail, World.HasEmail, hdrift.emails]
      · rw [World.work, hdrift.queue]
        exact hwork
      · unfold World.Awaits World.Finished World.latestEventType
        rw [hdrift.queue, hdrift.events]
        exact hsettles id hrow hid
  | @turn n w₁ w₂ l h hr ih =>
      obtain ⟨horder, hemails, hwork, hsettles⟩ := ih
      have hend : TurnEnd w₁ w₂ := turn_ends ha horder hr
      obtain ⟨id₀, hframe⟩ := hend.frame
      refine ⟨hend.inOrder horder, fun id => hframe.hasEmail.trans (hemails id), ?_, fun id hrow hid => ?_⟩
      · have hle := hend.work_le horder
        split at hle <;> split <;> omega
      · exact hend.settles horder ((hemails id).mpr hrow) (hsettles id hrow hid)

theorem exists_wait (hw : ∃ e ∈ w.queue, ∀ t, e.claimedUntil = some t → t < i64Max) :
    ∃ d w', drift w d = some w' ∧ w'.countEligible w'.nowMs ≠ 0 := by
  obtain ⟨e, he, hlease⟩ := hw
  refine ⟨.tick (2 ^ 63 * 1000000), _, rfl, fun hzero => ?_⟩
  refine List.countP_eq_zero.mp hzero e he ?_
  have hnow : ({ w with now := w.now + 2 ^ 63 * 1000000 } : World).nowMs = i64Max := by
    simp only [World.nowMs, i64Max]
    omega
  rw [hnow]
  obtain ⟨id, emailId, enqueuedAt, claimedUntil, attemptCount⟩ := e
  cases claimedUntil with
  | none => rfl
  | some t => exact decide_eq_true (hlease t rfl)

/-- While the database answers, a worker drains a SQL queue: no order of its turns takes
more than the entries' shares of attempts, every queued email ends with the status sent
or failed, and as long as an entry's lease can run out there is a further turn. -/
theorem queue_drained {n : Nat} (ha : a.queue ≠ .memory) (hw : w.InOrder) (h : Rounds a w n w') :
    n + w'.work ≤ w.work ∧ (∀ id, w.HasEmail id → w.Awaits id → w'.Awaits id ∨ w'.Finished id) ∧
      ((∃ e ∈ w'.queue, ∀ t, e.claimedUntil = some t → t < i64Max) → ∃ w'', Rounds a w (n + 1) w'') := by
  have hadvanced := h.advanced ha hw
  refine ⟨hadvanced.work_le, hadvanced.settles, fun hlease => ?_⟩
  obtain ⟨d, w₁, hd, hcount⟩ := exists_wait hlease
  obtain ⟨w₂, l, hr⟩ := exists_turn (a := a) ha (inOrder_drift hadvanced.inOrder (drifts hd))
  have hturn := (h.wait hd).turn hr
  rw [if_neg hcount] at hturn
  exact ⟨w₂, hturn⟩

def queuedOnce : World := (World.empty.insertEmail ⟨1⟩ ((plainSubmission none []).envelope [])).insertEntry 1 ⟨1⟩

def retriedTurn : List Choice :=
  [{}, { uuid := 1 }, {}, { uuid := 2 }, {}, { result := .error (.render "unclosed tag") }, {}, {}, { uuid := 3 }, {}]

def sentTurn : List Choice :=
  [{}, { uuid := 1 }, {}, { uuid := 4 }, {}, { result := .ok ⟨"smtp"⟩ }, {}, {}, { uuid := 5 }, {}]

theorem queue_drained_retried : ∃ w', Rounds sqliteOnly queuedOnce 2 w' ∧ w'.queue = [] ∧
    2 + w'.work ≤ queuedOnce.work ∧
    (∀ id, queuedOnce.HasEmail id → queuedOnce.Awaits id → w'.Awaits id ∨ w'.Finished id) ∧
    ((∃ e ∈ w'.queue, ∀ t, e.claimedUntil = some t → t < i64Max) → ∃ w'', Rounds sqliteOnly queuedOnce 3 w'') := by
  have hplay : ∃ w₁ w₂ w₃, sqliteOnly.worker.turn.play machine retriedTurn queuedOnce = some (w₁, ()) ∧
      drift w₁ (.tick 31000000000) = some w₂ ∧ sqliteOnly.worker.turn.play machine sentTurn w₂ = some (w₃, ()) ∧
      queuedOnce.countEligible queuedOnce.nowMs = 1 ∧ w₂.countEligible w₂.nowMs = 1 ∧ w₃.queue = [] :=
    ⟨_, _, _, rfl, rfl, rfl, rfl, rfl, rfl⟩
  obtain ⟨w₁, w₂, w₃, hfirst, hwait, hsecond, hcount, hcount', hempty⟩ := hplay
  have hfaultless {cs : List Choice} (hc : ∀ c ∈ cs, c.fails = false) : ∀ c ∈ cs, ∀ call, faultless.call c call :=
    fun c hc' _ => hc c hc'
  obtain ⟨l, hfirst⟩ := runs_of_play (o := faultless) (hfaultless (by decide)) hfirst []
  obtain ⟨l', hsecond⟩ := runs_of_play (o := faultless) (hfaultless (by decide)) hsecond []
  have hrounds : Rounds sqliteOnly queuedOnce 2 w₃ := by
    have h := ((Rounds.start.turn hfirst).wait hwait).turn hsecond
    rwa [hcount, hcount'] at h
  have horder : queuedOnce.InOrder := by
    refine ⟨⟨List.nodup_singleton _, fun e he => ?_⟩, fun row hrow => absurd hrow List.not_mem_nil,
      fun row hrow => absurd hrow List.not_mem_nil, fun e he => ?_⟩
    · obtain rfl := List.mem_singleton.mp he
      exact Nat.le_refl _
    · obtain rfl := List.mem_singleton.mp he
      decide
  exact ⟨w₃, hrounds, hempty, queue_drained (by decide) horder hrounds⟩

end Catapulte
