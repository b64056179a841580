import Mathlib.Data.List.Basic
import Catapulte.Storage.World

namespace Catapulte

variable {w w' : World} {c : Choice}

/-- What a call can leave behind whose effect is `w₁`: after an `Err` it is open
whether the call took effect. -/
inductive Settled {ε α : Type} (w w₁ : World) (a : α) : World → Except ε α → Prop
  | ok : Settled w w₁ a w₁ (.ok a)
  | failed (e : ε) : Settled w w₁ a w (.error e)
  | landed (e : ε) : Settled w w₁ a w₁ (.error e)

theorem settled {ε α : Type} {w₁ : World} {e : ε} {a : α} {r : Except ε α}
    (h : c.settle w w₁ e a = (w', r)) : Settled w w₁ a w' r := by
  unfold Choice.settle at h
  split at h
  · split at h <;> cases h
    · exact .landed e
    · exact .failed e
  · cases h
    exact .ok

theorem Settled.cases {ε α : Type} {w₁ : World} {a : α} {r : Except ε α}
    (h : Settled w w₁ a w' r) : w' = w ∨ w' = w₁ := by
  cases h with
  | ok => exact .inr rfl
  | failed => exact .inl rfl
  | landed => exact .inr rfl

/-- The two inserts of `save`, with the number of inserted rows. -/
inductive Inserted (w : World) (id : EmailId) (envelope : Envelope) :
    World → Except EmailRepositoryError Nat → Prop
  | skipped : Inserted w id envelope w (.ok 0)
  | refused (e) : Inserted w id envelope w (.error e)
  | inserted {w' r} (hid : w.findEmail id = none) (hkey : w.keyTaken envelope.idempotencyKey = false)
      (hs : Settled w (w.insertEmail id envelope) 1 w' r) : Inserted w id envelope w' r

/-- Everything one call can do. -/
inductive Performs (w : World) : (op : Effect) → World → op.Reply → Prop
  | now : Performs w .now w w.nowMs
  | newUuid {uuid} (h : w.lastUuid < uuid) : Performs w .newUuid { w with lastUuid := uuid } uuid
  | isCancelled (flag : Bool) : Performs w .isCancelled w flag
  | insertOrIgnore {id envelope w' r} (h : Inserted w id envelope w' r) :
      Performs w (.insertOrIgnore id envelope) w' r
  | insertOnConflict {id envelope w' r} (h : Inserted w id envelope w' r) :
      Performs w (.insertOnConflict id envelope) w' r
  | keyFound {key row} (h : w.findKey key = some row) : Performs w (.selectIdByKey key) w (.ok row.id)
  | keyMissed {key} (e) : Performs w (.selectIdByKey key) w (.error e)
  | selectEmail {id} : Performs w (.selectEmail id) w (.ok ((w.findEmail id).map EmailRow.envelope))
  | selectFailed {id} (e) : Performs w (.selectEmail id) w (.error e)
  | deleteRefused {id} (e) : Performs w (.deleteEmail id) w (.error e)
  | deleteEmail {id w' r} (href : w.referenced id = false) (h : Settled w (w.deleteEmail id) () w' r) :
      Performs w (.deleteEmail id) w' r
  | setRefused {id attachments} (h : w.findEmail id = none) (e) :
      Performs w (.setAttachments id attachments) w (.error e)
  | setAttachments {id attachments w' r row} (hrow : w.findEmail id = some row)
      (h : Settled w (w.setAttachments id attachments) () w' r) :
      Performs w (.setAttachments id attachments) w' r
  | liveBodies : Performs w .selectLiveBodies w (.ok w.liveBlobs)
  | liveFailed (e) : Performs w .selectLiveBodies w (.error e)
  | eventRefused {uuid event} (e) : Performs w (.insertEvent uuid event) w (.error e)
  | insertEvent {uuid event w' r row} (hrow : w.findEmail event.emailId = some row)
      (h : Settled w (w.insertEvent uuid event) () w' r) : Performs w (.insertEvent uuid event) w' r
  | entryRefused {id} (e) : Performs w (.insertEntry id) w (.error e)
  | insertEntry {id uuid w' r row} (hrow : w.findEmail id = some row) (huuid : w.lastUuid < uuid)
      (h : Settled w (w.insertEntry uuid id) () w' r) : Performs w (.insertEntry id) w' r
  | claimNone {now claimUntil r} (h : w.queue.any (·.eligible now) = false)
      (hs : Settled w w none w r) : Performs w (.claimNext now claimUntil) w r
  | claimNext {now claimUntil e w' r} (he : e ∈ w.queue) (hf : firstEligible now w.queue e = true)
      (h : Settled w (w.claimEntry e.id claimUntil) (some ⟨e.id, e.emailId, e.attemptCount + 1⟩) w' r) :
      Performs w (.claimNext now claimUntil) w' r
  | transactionNone {now claimUntil r} (h : w.queue.any (·.eligible now) = false)
      (hs : Settled w w none w r) : Performs w (.claimTransaction now claimUntil) w r
  | claimTransaction {now claimUntil e w' r} (he : e ∈ w.queue)
      (hf : firstEligible now w.queue e = true)
      (h : Settled w (w.claimInTransaction e claimUntil).1 (w.claimInTransaction e claimUntil).2 w' r) :
      Performs w (.claimTransaction now claimUntil) w' r
  | deleteEntry {token w' r} (h : Settled w (w.deleteEntry token) () w' r) :
      Performs w (.deleteEntry token) w' r
  | leaseEntry {token claimedUntil w' r} (h : Settled w (w.leaseEntry token claimedUntil) () w' r) :
      Performs w (.leaseEntry token claimedUntil) w' r
  | sendRefused {id envelope} (e) : Performs w (.send id envelope) w (.error e)
  | send {id envelope} :
      Performs w (.send id envelope) { w with memory := w.memory.send id envelope } (.ok ())
  | recvRefused (e) : Performs w .recv w (.error e)
  | recv {memory item} (h : w.memory.recv = some (memory, item)) :
      Performs w .recv { w with memory } (.ok (some item))
  | removePending {token} :
      Performs w (.removePending token) { w with memory := w.memory.remove token } (.ok ())
  | requeuePending {token delay} : Performs w (.requeuePending token delay)
      { w with memory := w.memory.requeue token (w.now + delay.nanos) } (.ok ())
  | fetch {url} (r) : Performs w (.fetch url) w r
  | putBlob {backend reader key stamp w' r} (hkey : w.KeyFresh key) (hstamp : stamp ≤ w.now)
      (h : Settled w (w.addBlob ⟨backend, key⟩ reader stamp) ⟨⟨backend, key⟩, reader.length⟩ w' r) :
      Performs w (.putBlob backend reader) w' r
  | deleteBlob {blob w' r} (h : Settled w (w.deleteBlob blob) () w' r) :
      Performs w (.deleteBlob blob) w' r
  | readDir (r) : Performs w .readDir w r
  | isOlderThan {backend key age b} (h : w.blobs.find? (fun b => b.ref = ⟨backend, key⟩) = some b) :
      Performs w (.isOlderThan backend key age) w (b.isOlderThan w.now age)
  | metadataMissing {backend key age} : Performs w (.isOlderThan backend key age) w false
  | process {envelope} (r) : Performs w (.process envelope) w r

inductive Drifts (w : World) : Drift → World → Prop
  | tick (nanos) : Drifts w (.tick nanos) { w with now := w.now + nanos }
  | wake {k memory} (h : w.memory.wakeUp w.now k = some memory) : Drifts w (.wake k) { w with memory }

theorem drifts {e : Drift} (h : drift w e = some w') : Drifts w e w' := by
  cases e with
  | tick nanos => cases h; exact .tick nanos
  | wake k =>
      simp only [drift, Option.map_eq_some_iff] at h
      obtain ⟨memory, hm, rfl⟩ := h
      exact .wake hm

theorem pickEntry_eq_some {now : Int} {pick : Nat} {p : Option QueueEntry}
    (h : w.pickEntry now pick = some p) :
    (p = none ∧ w.queue.any (·.eligible now) = false) ∨
      ∃ e, p = some e ∧ e ∈ w.queue ∧ firstEligible now w.queue e = true := by
  unfold World.pickEntry at h
  split at h
  · rw [Option.map_eq_some_iff] at h
    obtain ⟨e, he, rfl⟩ := h
    have hp := List.find?_some he
    rw [Bool.and_eq_true] at hp
    exact .inr ⟨e, rfl, List.mem_of_find?_eq_some he, hp.2⟩
  · rename_i hn
    cases h
    exact .inl ⟨rfl, Bool.eq_false_iff.mpr hn⟩

theorem inserted_of_insertOrIgnore {id : EmailId} {envelope : Envelope} {r : Except EmailRepositoryError Nat}
    (h : perform w (.insertOrIgnore id envelope) c = some (w', r)) : Inserted w id envelope w' r := by
  simp only [perform] at h
  split at h
  · cases settled (Option.some.inj h) with
    | ok => exact .skipped
    | failed e => exact .refused e
    | landed e => exact .refused e
  · rename_i hn
    simp only [Bool.or_eq_true, not_or, Bool.not_eq_true, Option.isSome_eq_false_iff,
      Option.isNone_iff_eq_none] at hn
    exact .inserted hn.1 hn.2 (settled (Option.some.inj h))

theorem inserted_of_insertOnConflict {id : EmailId} {envelope : Envelope} {r : Except EmailRepositoryError Nat}
    (h : perform w (.insertOnConflict id envelope) c = some (w', r)) : Inserted w id envelope w' r := by
  simp only [perform] at h
  split at h
  · cases settled (Option.some.inj h) with
    | ok => exact .skipped
    | failed e => exact .refused e
    | landed e => exact .refused e
  · split at h
    · cases h
      exact .refused _
    · rename_i hk hn
      simp only [Bool.not_eq_true, Option.isSome_eq_false_iff, Option.isNone_iff_eq_none] at hk hn
      exact .inserted hn hk (settled (Option.some.inj h))

theorem performs_setAttachments {id : EmailId} {attachments : List AttachmentRef} {r : Except EmailRepositoryError Unit}
    (h : perform w (.setAttachments id attachments) c = some (w', r)) : Performs w (.setAttachments id attachments) w' r := by
  simp only [perform] at h
  split at h
  · rename_i hs
    obtain ⟨row, hrow⟩ := Option.isSome_iff_exists.mp hs
    exact .setAttachments hrow (settled (Option.some.inj h))
  · rename_i hn
    cases h
    exact .setRefused (Option.not_isSome_iff_eq_none.mp hn) _

theorem performs_insertEvent {uuid : Nat} {event : LifecycleEvent} {r : Except EventPublisherError Unit}
    (h : perform w (.insertEvent uuid event) c = some (w', r)) : Performs w (.insertEvent uuid event) w' r := by
  simp only [perform] at h
  split at h
  · rename_i hs
    obtain ⟨row, hrow⟩ := Option.isSome_iff_exists.mp hs
    exact .insertEvent hrow (settled (Option.some.inj h))
  · cases h; exact .eventRefused _

theorem performs_insertEntry {id : EmailId} {r : Except EmailQueueError Unit}
    (h : perform w (.insertEntry id) c = some (w', r)) : Performs w (.insertEntry id) w' r := by
  simp only [perform] at h
  split at h
  · cases h; exact .entryRefused _
  · rename_i hn
    simp only [Bool.or_eq_true, not_or, Bool.not_eq_true, Option.isNone_eq_false_iff] at hn
    obtain ⟨row, hrow⟩ := Option.isSome_iff_exists.mp hn.1
    split at h
    · exact .insertEntry hrow ‹_› (settled (Option.some.inj h))
    · cases h

theorem performs_claimNext {now claimUntil : Int} {r : Except EmailQueueError (Option ClaimedEntry)}
    (h : perform w (.claimNext now claimUntil) c = some (w', r)) : Performs w (.claimNext now claimUntil) w' r := by
  simp only [perform, Option.map_eq_some_iff] at h
  obtain ⟨p, hp, h⟩ := h
  rcases pickEntry_eq_some hp with ⟨rfl, hn⟩ | ⟨e, rfl, he, hf⟩
  · have hs := settled h
    obtain rfl : w' = w := by rcases hs.cases with h | h <;> exact h
    exact .claimNone hn hs
  · exact .claimNext he hf (settled h)

theorem performs_claimTransaction {now claimUntil : Int} {r : Except EmailQueueError (Option DequeuedEmail)}
    (h : perform w (.claimTransaction now claimUntil) c = some (w', r)) :
    Performs w (.claimTransaction now claimUntil) w' r := by
  simp only [perform, Option.map_eq_some_iff] at h
  obtain ⟨p, hp, h⟩ := h
  rcases pickEntry_eq_some hp with ⟨rfl, hn⟩ | ⟨e, rfl, he, hf⟩
  · have hs := settled h
    obtain rfl : w' = w := by rcases hs.cases with h | h <;> exact h
    exact .transactionNone hn hs
  · exact .claimTransaction he hf (settled h)

theorem performs_recv {r : Except EmailQueueError (Option DequeuedEmail)} (h : perform w .recv c = some (w', r)) :
    Performs w .recv w' r := by
  simp only [perform] at h
  split at h
  · cases h; exact .recvRefused _
  · rw [Option.map_eq_some_iff] at h
    obtain ⟨⟨memory, item⟩, hr, h⟩ := h
    cases h
    exact .recv hr

theorem performs {op : Effect} {r : op.Reply} (h : perform w op c = some (w', r)) :
    Performs w op w' r := by
  cases op with
  | now => cases h; exact .now
  | newUuid =>
      simp only [perform] at h
      split at h <;> cases h
      exact .newUuid ‹_›
  | isCancelled => cases h; exact .isCancelled _
  | insertOrIgnore id envelope => exact .insertOrIgnore (inserted_of_insertOrIgnore h)
  | insertOnConflict id envelope => exact .insertOnConflict (inserted_of_insertOnConflict h)
  | selectIdByKey key =>
      simp only [perform] at h
      split at h <;> cases h
      · exact .keyFound ‹_›
      · exact .keyMissed _
  | selectEmail id =>
      simp only [perform] at h
      split at h <;> cases h
      · exact .selectFailed _
      · exact .selectEmail
  | deleteEmail id =>
      simp only [perform] at h
      split at h
      · cases h; exact .deleteRefused _
      · rename_i hn
        exact .deleteEmail (Bool.eq_false_iff.mpr hn) (settled (Option.some.inj h))
  | setAttachments id attachments => exact performs_setAttachments h
  | selectLiveBodies =>
      simp only [perform] at h
      split at h <;> cases h
      · exact .liveFailed _
      · exact .liveBodies
  | insertEvent uuid event => exact performs_insertEvent h
  | insertEntry id => exact performs_insertEntry h
  | claimNext now claimUntil => exact performs_claimNext h
  | claimTransaction now claimUntil => exact performs_claimTransaction h
  | deleteEntry token => exact .deleteEntry (settled (Option.some.inj h))
  | leaseEntry token claimedUntil => exact .leaseEntry (settled (Option.some.inj h))
  | send id envelope =>
      simp only [perform] at h
      split at h <;> cases h
      · exact .sendRefused _
      · exact .send
  | recv => exact performs_recv h
  | removePending token => cases h; exact .removePending
  | requeuePending token delay => cases h; exact .requeuePending
  | fetch url => cases h; exact .fetch _
  | putBlob backend reader =>
      simp only [perform] at h
      split at h
      · rename_i hk
        exact .putBlob hk.1 hk.2 (settled (Option.some.inj h))
      · cases h
  | deleteBlob blob => exact .deleteBlob (settled (Option.some.inj h))
  | readDir => cases h; exact .readDir _
  | isOlderThan backend key age =>
      simp only [perform] at h
      split at h <;> cases h
      · exact .isOlderThan ‹_›
      · exact .metadataMissing
  | process envelope => cases h; exact .process _

end Catapulte
