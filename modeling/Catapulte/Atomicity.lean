import Catapulte.Async.Triple
import Catapulte.Idempotency

namespace Catapulte

open Async

/-- A delete, as a rollback makes it, that returned `Err`. -/
def deleteFailed : Call Sys World → Bool
  | ⟨_, .deleteBlob _, .error _, _⟩ | ⟨_, .deleteEmail _, .error _, _⟩ => true
  | _ => false

/-- While a submission runs alone only the clock moves. An `Err` has no effect, and the
deletes of a rollback succeed. -/
def undisturbed : Solo Sys World Choice Drift where
  call c call := (c.fails = true → c.lands = false) ∧ deleteFailed call = false
  drift
    | .tick _ => True
    | .wake _ => False

instance (c : Choice) (call : Call Sys World) : Decidable (undisturbed.call c call) :=
  inferInstanceAs (Decidable (_ ∧ _))

instance : DecidablePred undisturbed.drift
  | .tick _ => isTrue trivial
  | .wake _ => isFalse id

structure Same (w₀ w : World) : Prop where
  emails : w.emails = w₀.emails
  blobs : w.blobs = w₀.blobs
  queue : w.queue = w₀.queue
  memory : w.memory = w₀.memory
  events : w.events = w₀.events

inductive Attached : AttachmentInput → AttachmentRef × Blob → Prop
  | inline {filename contentType bytes blob stamp} : Attached (.inline filename contentType bytes)
      (⟨filename, contentType, bytes.length, blob⟩, ⟨blob, bytes, stamp⟩)
  | stream {filename contentType bytes blob stamp} : Attached (.stream filename contentType bytes)
      (⟨filename, contentType, bytes.length, blob⟩, ⟨blob, bytes, stamp⟩)
  | remote {filename contentType url bytes blob stamp} : Attached (.remote filename contentType url)
      (⟨filename, contentType, bytes.length, blob⟩, ⟨blob, bytes, stamp⟩)

def putResult : Call Sys World → Option PutResult
  | ⟨_, .putBlob .., .ok result, _⟩ => some result
  | _ => none

structure Holding (w₀ : World) (id : EmailId) (envelope : Envelope) (new : List (AttachmentRef × Blob))
    (w : World) : Prop where
  absent : w₀.findEmail id = none
  emails : ∃ createdAt, w.emails = w₀.emails ++ [⟨id, envelope, createdAt⟩]
  blobs : w.blobs = w₀.blobs ++ new.map Prod.snd
  queue : w.queue = w₀.queue
  memory : w.memory = w₀.memory
  events : w.events = w₀.events
  refs : ∀ p ∈ new, p.1.blob = p.2.ref
  distinct : (new.map fun p => p.2.ref).Nodup
  fresh : ∀ p ∈ new, ∀ b ∈ w₀.blobs, b.ref ≠ p.2.ref

/-- The refs carry what `put` reported, in order. -/
def Reports (new : List (AttachmentRef × Blob)) (l : List (Call Sys World)) : Prop :=
  l.filterMap putResult = new.map fun p => ⟨p.1.blob, p.1.sizeBytes⟩

/-- The queue holds the email: an entry whose row carries the envelope, or the item itself. -/
def QueueHolds (q : QueueAdapter) (w₀ : World) (id : EmailId) (envelope : Envelope) (w : World) : Prop :=
  match q with
  | .sqlite | .postgres => (∃ uuid enqueuedAt, w.queue = w₀.queue ++ [⟨uuid, id, enqueuedAt, none, 0⟩]) ∧
      w.memory = w₀.memory ∧ (w.findEmail id).map EmailRow.envelope = some envelope
  | .memory => w.queue = w₀.queue ∧ w.memory = w₀.memory.send id envelope

/-- What an accepted submission leaves behind. -/
structure Complete (q : QueueAdapter) (w₀ : World) (id : EmailId) (input : SubmitEmailInput)
    (new : List (AttachmentRef × Blob)) (w : World) (l : List (Call Sys World)) : Prop where
  emails : ∃ createdAt, w.emails = w₀.emails ++ [⟨id, input.envelope (new.map Prod.fst), createdAt⟩]
  enqueued : QueueHolds q w₀ id (input.envelope (new.map Prod.fst)) w
  blobs : w.blobs = w₀.blobs ++ new.map Prod.snd
  attached : List.Forall₂ Attached input.attachments new
  reports : Reports new l

variable {a : Adapters} {w₀ w w' : World} {id : EmailId} {input : SubmitEmailInput} {envelope : Envelope}
  {new : List (AttachmentRef × Blob)} {l : List (Call Sys World)} {c : Choice}

abbrev Spec {α : Type} (P : Assertion Sys World) (p : Prog α) (Q : α → Assertion Sys World) : Prop :=
  Triple machine undisturbed P p Q

theorem stable_of_tick {P : Assertion Sys World}
    (h : ∀ w l n, P w l → P { w with now := w.now + n } l) : Stable machine undisturbed P := by
  intro w w' l e hp ho hd
  cases e with
  | tick n => cases hd; exact h w l n hp
  | wake k => exact ho.elim

theorem settle_cases {ε α : Type} {w₁ : World} {e : ε} {x : α} {r : Except ε α}
    (hc : c.fails = true → c.lands = false) (h : c.settle w w₁ e x = (w', r)) :
    (w' = w₁ ∧ r = .ok x) ∨ (w' = w ∧ r = .error e) := by
  unfold Choice.settle at h
  split at h
  · rename_i hf
    rw [hc hf] at h
    cases h
    exact .inr ⟨rfl, rfl⟩
  · cases h
    exact .inl ⟨rfl, rfl⟩

theorem Same.tick (h : Same w₀ w) (n : Nat) : Same w₀ { w with now := w.now + n } :=
  ⟨h.emails, h.blobs, h.queue, h.memory, h.events⟩

theorem Holding.tick (h : Holding w₀ id envelope new w) (n : Nat) :
    Holding w₀ id envelope new { w with now := w.now + n } :=
  ⟨h.absent, h.emails, h.blobs, h.queue, h.memory, h.events, h.refs, h.distinct, h.fresh⟩

theorem absent_of_findEmail (h : w.findEmail id = none) : ∀ row ∈ w.emails, row.id ≠ id := by
  simpa [World.findEmail] using h

theorem Holding.deleteEmail (h : Holding w₀ id envelope [] w) : Same w₀ (w.deleteEmail id) := by
  obtain ⟨createdAt, hemails⟩ := h.emails
  refine ⟨?_, by simpa using h.blobs, h.queue, h.memory, h.events⟩
  have hkept : w₀.emails.filter (fun row => row.id ≠ id) = w₀.emails :=
    List.filter_eq_self.mpr fun row hrow => decide_eq_true (absent_of_findEmail h.absent row hrow)
  rw [World.deleteEmail_emails, hemails, List.filter_append, hkept]
  simp

theorem Holding.deleteBlob {p : AttachmentRef × Blob} (h : Holding w₀ id envelope (p :: new) w) :
    Holding w₀ id envelope new (w.deleteBlob p.1.blob) := by
  obtain ⟨hp, hrefs⟩ := List.forall_mem_cons.mp h.refs
  obtain ⟨hfirst, hdistinct⟩ := List.nodup_cons.mp h.distinct
  obtain ⟨hpfresh, hfresh⟩ := List.forall_mem_cons.mp h.fresh
  refine ⟨h.absent, h.emails, ?_, h.queue, h.memory, h.events, hrefs, hdistinct, hfresh⟩
  have hold : w₀.blobs.filter (fun b => b.ref ≠ p.2.ref) = w₀.blobs :=
    List.filter_eq_self.mpr fun b hb => decide_eq_true (hpfresh b hb)
  have hnew : (new.map Prod.snd).filter (fun b => b.ref ≠ p.2.ref) = new.map Prod.snd := by
    refine List.filter_eq_self.mpr fun b hb => decide_eq_true ?_
    obtain ⟨q, hq, rfl⟩ := List.mem_map.mp hb
    exact fun heq => hfirst (List.mem_map.mpr ⟨q, hq, heq⟩)
  rw [World.deleteBlob_blobs, h.blobs, hp, List.filter_append, hold, List.map_cons, List.filter_cons, hnew]
  simp

theorem rollback_spec (e : SubmitEmailError) :
    Spec (fun w _ => Holding w₀ id envelope new w) (a.submitEmail.rollback id e (new.map Prod.fst))
      fun r w _ => r = .error e ∧ Same w₀ w := by
  induction new with
  | nil =>
      simp only [List.map_nil, SubmitEmailService.rollback, Adapters.submitEmail, Adapters.repository_delete]
      refine Triple.await (R := fun _ w _ => Same w₀ w) (stable_of_tick fun _ _ n h => h.tick n) ?_ fun r => ?_
      · rintro w l w' r c h hp ⟨hc, hok⟩
        simp only [perform] at hp
        split at hp
        · cases hp
          cases hok
        · rcases settle_cases hc (Option.some.inj hp) with ⟨rfl, -⟩ | ⟨-, rfl⟩
          · exact h.deleteEmail
          · cases hok
      · exact Triple.done (stable_of_tick fun _ _ n h => h.tick n) fun _ _ h => ⟨rfl, h⟩
  | cons p new ih =>
      refine Triple.await (R := fun _ w _ => Holding w₀ id envelope new w)
        (stable_of_tick fun _ _ n h => h.tick n) ?_ fun r => ih
      rintro w l w' r c h hp ⟨hc, hok⟩
      rcases settle_cases hc (Option.some.inj hp) with ⟨rfl, -⟩ | ⟨-, rfl⟩
      · exact h.deleteBlob
      · cases hok

/-- After the row and its blobs: how a submission that fails or succeeds leaves the state. -/
def Resolved (q : QueueAdapter) (w₀ : World) (id : EmailId) (input : SubmitEmailInput) :
    Except SubmitEmailError EmailId → Assertion Sys World
  | .error _, w, _ => Same w₀ w
  | .ok id', w, l => id' = id ∧ ∃ new, Complete q w₀ id input new w l

theorem rollback_resolved (e : SubmitEmailError) :
    Spec (fun w _ => Holding w₀ id envelope new w) (a.submitEmail.rollback id e (new.map Prod.fst))
      (Resolved a.queue w₀ id input) := by
  refine (rollback_spec e).conseq (fun _ _ h => h) ?_
  rintro _ w l ⟨rfl, h⟩
  exact h

structure Queued (q : QueueAdapter) (w₀ : World) (id : EmailId) (envelope : Envelope)
    (new : List (AttachmentRef × Blob)) (w : World) (l : List (Call Sys World)) : Prop where
  emails : ∃ createdAt, w.emails = w₀.emails ++ [⟨id, envelope, createdAt⟩]
  enqueued : QueueHolds q w₀ id envelope w
  blobs : w.blobs = w₀.blobs ++ new.map Prod.snd
  reports : Reports new l

theorem queueHolds_congr {q : QueueAdapter} (h : QueueHolds q w₀ id envelope w) (hq : w'.queue = w.queue)
    (hm : w'.memory = w.memory) (he : w'.emails = w.emails) : QueueHolds q w₀ id envelope w' := by
  cases q <;> simp only [QueueHolds, World.findEmail, hq, hm, he] at h ⊢ <;> exact h

theorem Queued.congr {q : QueueAdapter} (h : Queued q w₀ id envelope new w l)
    (hw : w'.emails = w.emails ∧ w'.queue = w.queue ∧ w'.memory = w.memory ∧ w'.blobs = w.blobs)
    {l' : List (Call Sys World)} (hl : l'.filterMap putResult = l.filterMap putResult) :
    Queued q w₀ id envelope new w' l' := by
  obtain ⟨he, hq, hm, hb⟩ := hw
  exact ⟨he ▸ h.emails, queueHolds_congr h.enqueued hq hm he, hb ▸ h.blobs, hl.trans h.reports⟩

theorem reports_snoc {call : Call Sys World} (hc : putResult call = none) :
    (l ++ [call]).filterMap putResult = l.filterMap putResult := by
  simp [List.filterMap_append, hc]

theorem findEmail_append {createdAt : Int} (h : w₀.findEmail id = none)
    (he : w.emails = w₀.emails ++ [⟨id, envelope, createdAt⟩]) :
    w.findEmail id = some ⟨id, envelope, createdAt⟩ := by
  have hnone : w₀.emails.find? (fun r => r.id = id) = none := h
  simp [World.findEmail, he, hnone]

/-- The row, the blobs and what `put` reported of them. -/
def Reserved (w₀ : World) (id : EmailId) (envelope : Envelope) (new : List (AttachmentRef × Blob)) :
    Assertion Sys World :=
  fun w l => Holding w₀ id envelope new w ∧ Reports new l

theorem holding_stable : Stable machine undisturbed fun w _ => Holding w₀ id envelope new w :=
  stable_of_tick fun _ _ n h => h.tick n

theorem reserved_stable : Stable machine undisturbed (Reserved w₀ id envelope new) :=
  stable_of_tick fun _ _ n h => ⟨h.1.tick n, h.2⟩

theorem queued_stable {q : QueueAdapter} : Stable machine undisturbed (Queued q w₀ id envelope new) := by
  refine stable_of_tick fun _ _ _ h => h.congr ?_ rfl
  exact ⟨rfl, rfl, rfl, rfl⟩

def AfterEnqueue (q : QueueAdapter) (w₀ : World) (id : EmailId) (envelope : Envelope)
    (new : List (AttachmentRef × Blob)) : Except EmailQueueError Unit → Assertion Sys World
  | .error _ => fun w _ => Holding w₀ id envelope new w
  | .ok () => Queued q w₀ id envelope new

theorem afterEnqueue_stable {q : QueueAdapter} (r : Except EmailQueueError Unit) :
    Stable machine undisturbed (AfterEnqueue q w₀ id envelope new r) := by
  cases r with
  | error e => exact holding_stable
  | ok => exact queued_stable

theorem insertEntry_spec {q : QueueAdapter} (hq : q ≠ .memory) :
    Spec (Reserved w₀ id envelope new) (ask (.insertEntry id)) (AfterEnqueue q w₀ id envelope new) := by
  refine Triple.call reserved_stable ?_ afterEnqueue_stable
  rintro w l w' r c ⟨h, hl⟩ hp ⟨hc, -⟩
  obtain ⟨createdAt, hemails⟩ := h.emails
  simp only [perform] at hp
  split at hp
  · cases hp
    exact h
  split at hp
  · rcases settle_cases hc (Option.some.inj hp) with ⟨rfl, rfl⟩ | ⟨rfl, rfl⟩
    case inr => exact h
    refine ⟨⟨createdAt, hemails⟩, ?_, h.blobs, (reports_snoc rfl).trans hl⟩
    have hqueue : (w.insertEntry c.uuid id).queue = w₀.queue ++ [⟨c.uuid, id, w.nowMs, none, 0⟩] := by
      rw [World.insertEntry_queue, h.queue]
    have hrow : (w.insertEntry c.uuid id).findEmail id = some ⟨id, envelope, createdAt⟩ :=
      findEmail_append h.absent hemails
    cases q with
    | sqlite | postgres => exact ⟨⟨_, _, hqueue⟩, h.memory, by rw [hrow]; rfl⟩
    | memory => exact absurd rfl hq
  · cases hp

theorem send_spec :
    Spec (Reserved w₀ id envelope new) (ask (.send id envelope)) (AfterEnqueue .memory w₀ id envelope new) := by
  refine Triple.call reserved_stable ?_ afterEnqueue_stable
  rintro w l w' r c ⟨h, hl⟩ hp -
  simp only [perform] at hp
  split at hp
  · cases hp
    exact h
  · cases hp
    exact ⟨h.emails, ⟨h.queue, by rw [h.memory]⟩, h.blobs, (reports_snoc rfl).trans hl⟩

theorem enqueue_spec : Spec (Reserved w₀ id envelope new) (a.queue.emailQueue.enqueue id envelope)
    (AfterEnqueue a.queue w₀ id envelope new) := by
  cases a.queue with
  | sqlite => exact insertEntry_spec (by decide)
  | postgres => exact insertEntry_spec (by decide)
  | memory => exact send_spec

theorem publish_spec {q : QueueAdapter} (event : LifecycleEvent) :
    Spec (Queued q w₀ id envelope new) (publish event) fun _ => Queued q w₀ id envelope new := by
  refine Triple.bind (Q := fun _ => Queued q w₀ id envelope new)
    (Triple.call queued_stable ?_ fun _ => queued_stable) fun uuid =>
    Triple.call queued_stable ?_ fun _ => queued_stable
  · rintro w l w' r c h hp -
    simp only [perform] at hp
    split at hp <;> cases hp
    refine h.congr ?_ (reports_snoc ?_)
    · exact ⟨rfl, rfl, rfl, rfl⟩
    · rfl
  · rintro w l w' r c h hp ⟨hc, -⟩
    refine h.congr ?_ (reports_snoc ?_)
    · simp only [perform] at hp
      split at hp
      · rcases settle_cases hc (Option.some.inj hp) with ⟨rfl, -⟩ | ⟨rfl, -⟩ <;> exact ⟨rfl, rfl, rfl, rfl⟩
      · cases hp
        exact ⟨rfl, rfl, rfl, rfl⟩
    · rfl

theorem handOver_spec (hatt : List.Forall₂ Attached input.attachments new) :
    Spec (Reserved w₀ id (input.envelope (new.map Prod.fst)) new)
      (a.submitEmail.handOver id (input.envelope (new.map Prod.fst))) (Resolved a.queue w₀ id input) := by
  refine Triple.bind enqueue_spec ?_
  rintro (e | ⟨⟩)
  · exact rollback_resolved _
  · refine Triple.bind (publish_spec _) fun r => Triple.done queued_stable ?_
    exact fun w l h => ⟨rfl, new, h.emails, h.enqueued, h.blobs, hatt, h.reports⟩

theorem setAttachments_spec (refs : List AttachmentRef) :
    Spec (Reserved w₀ id (input.envelope []) new) (ask (.setAttachments id refs)) fun r => match r with
      | .error _ => fun w _ => Holding w₀ id (input.envelope []) new w
      | .ok () => Reserved w₀ id (input.envelope refs) new := by
  refine Triple.call reserved_stable ?_ ?_
  · rintro w l w' r c ⟨h, hl⟩ hp ⟨hc, -⟩
    obtain ⟨createdAt, hemails⟩ := h.emails
    simp only [perform] at hp
    split at hp
    · rcases settle_cases hc (Option.some.inj hp) with ⟨rfl, rfl⟩ | ⟨rfl, rfl⟩
      · refine ⟨⟨h.absent, ⟨createdAt, ?_⟩, h.blobs, h.queue, h.memory, h.events, h.refs, h.distinct,
          h.fresh⟩, (reports_snoc rfl).trans hl⟩
        have hkept : w₀.emails.map (fun r => if r.id = id then
            { r with envelope := { r.envelope with attachments := refs } } else r) = w₀.emails :=
          (List.map_congr_left fun row hrow => if_neg (absent_of_findEmail h.absent row hrow)).trans
            (List.map_id _)
        rw [World.setAttachments_emails, hemails, List.map_append, hkept]
        simp [SubmitEmailInput.envelope]
      · exact h
    · cases hp
      exact h
  · rintro (e | ⟨⟩)
    · exact holding_stable
    · exact reserved_stable

theorem patchAttachments_spec (hatt : List.Forall₂ Attached input.attachments new) :
    Spec (Reserved w₀ id (input.envelope []) new) (a.submitEmail.patchAttachments id input (new.map Prod.fst))
      (Resolved a.queue w₀ id input) := by
  unfold SubmitEmailService.patchAttachments
  split
  · rename_i hempty
    rw [List.isEmpty_iff.mp hempty]
    have hhand : Spec (Reserved w₀ id (input.envelope (new.map Prod.fst)) new)
        (a.submitEmail.handOver id (input.envelope (new.map Prod.fst))) (Resolved a.queue w₀ id input) :=
      handOver_spec hatt
    rwa [List.isEmpty_iff.mp hempty] at hhand
  · simp only [Adapters.submitEmail, Adapters.repository_setAttachments]
    refine Triple.bind (setAttachments_spec _) ?_
    rintro (e | ⟨⟩)
    · exact rollback_resolved _
    · exact handOver_spec hatt

def written (filename contentType : String) (reader : AttachmentReader) (result : PutResult) (stamp : Nat) :
    AttachmentRef × Blob :=
  (⟨filename, contentType, result.sizeBytes, result.blob⟩, ⟨result.blob, reader, stamp⟩)

theorem Holding.addBlob {key : String} {reader : AttachmentReader} {stamp : Nat}
    (h : Holding w₀ id envelope new w) (hkey : w.KeyFresh key) (filename contentType : String) :
    Holding w₀ id envelope
      (new ++ [written filename contentType reader ⟨⟨"fs", key⟩, reader.length⟩ stamp])
      (w.addBlob ⟨"fs", key⟩ reader stamp) := by
  have hfresh : ∀ b ∈ w.blobs, b.ref ≠ ⟨"fs", key⟩ := fun b hb heq => hkey.2 b hb (by rw [heq])
  rw [h.blobs] at hfresh
  refine ⟨h.absent, h.emails, ?_, h.queue, h.memory, h.events, ?_, ?_, ?_⟩
  · rw [World.addBlob_blobs, h.blobs, List.map_append, List.append_assoc]
    rfl
  · exact List.forall_mem_append.mpr ⟨h.refs, List.forall_mem_singleton.mpr rfl⟩
  · rw [List.map_append]
    refine List.nodup_append.mpr ⟨h.distinct, List.nodup_singleton _, ?_⟩
    rintro ref href _ hlast rfl
    obtain ⟨p, hp, heq⟩ := List.mem_map.mp href
    refine hfresh p.2 (List.mem_append_right _ (List.mem_map_of_mem hp)) (heq.trans ?_)
    exact List.mem_singleton.mp hlast
  · refine List.forall_mem_append.mpr ⟨h.fresh, List.forall_mem_singleton.mpr fun b hb => ?_⟩
    exact hfresh b (List.mem_append_left _ hb)

theorem put_spec (filename contentType : String) (reader : AttachmentReader) :
    Spec (Reserved w₀ id envelope new) (ask (.putBlob "fs" reader)) fun r => match r with
      | .error _ => fun w _ => Holding w₀ id envelope new w
      | .ok result => fun w l => result.sizeBytes = reader.length ∧
          ∃ stamp, Reserved w₀ id envelope (new ++ [written filename contentType reader result stamp]) w l := by
  refine Triple.call reserved_stable ?_ ?_
  · rintro w l w' r c ⟨h, hl⟩ hp ⟨hc, -⟩
    simp only [perform] at hp
    split at hp
    · rename_i hkey
      rcases settle_cases hc (Option.some.inj hp) with ⟨rfl, rfl⟩ | ⟨rfl, rfl⟩
      · refine ⟨rfl, c.stamp, h.addBlob hkey.1 filename contentType, ?_⟩
        rw [Reports, List.filterMap_append, List.map_append, hl]
        rfl
      · exact h
    · cases hp
  · rintro (e | result)
    · exact holding_stable
    · refine stable_of_tick fun _ _ n h => ?_
      obtain ⟨hsize, stamp, h, hl⟩ := h
      exact ⟨hsize, stamp, h.tick n, hl⟩

theorem store_spec {filename contentType : String} {reader : AttachmentReader} {att : AttachmentInput}
    (hatt : ∀ blob stamp,
      Attached att (⟨filename, contentType, reader.length, blob⟩, ⟨blob, reader, stamp⟩))
    {rest : List AttachmentRef → Prog (Except SubmitEmailError EmailId)}
    (hrest : ∀ p, Attached att p → Spec (Reserved w₀ id (input.envelope []) (new ++ [p]))
      (rest ((new ++ [p]).map Prod.fst)) (Resolved a.queue w₀ id input)) :
    Spec (Reserved w₀ id (input.envelope []) new)
      (a.submitEmail.store id filename contentType reader (new.map Prod.fst) rest)
      (Resolved a.queue w₀ id input) := by
  refine Triple.bind (put_spec filename contentType reader) ?_
  rintro (e | result)
  · exact rollback_resolved _
  · rintro w l w' l' r ⟨hsize, stamp, h⟩ hruns
    have hp : Attached att (written filename contentType reader result stamp) := by
      rw [written, hsize]
      exact hatt result.blob stamp
    refine hrest _ hp w l w' l' r h ?_
    rw [List.map_append]
    exact hruns

theorem writeAttachments_spec {before rest : List AttachmentInput} (hsplit : input.attachments = before ++ rest)
    (hatt : List.Forall₂ Attached before new) :
    Spec (Reserved w₀ id (input.envelope []) new)
      (a.submitEmail.writeAttachments id input rest (new.map Prod.fst)) (Resolved a.queue w₀ id input) := by
  induction rest generalizing before new with
  | nil =>
      rw [List.append_nil] at hsplit
      exact patchAttachments_spec (hsplit ▸ hatt)
  | cons att rest ih =>
      have hrest : ∀ p, Attached att p → Spec (Reserved w₀ id (input.envelope []) (new ++ [p]))
          (a.submitEmail.writeAttachments id input rest ((new ++ [p]).map Prod.fst))
          (Resolved a.queue w₀ id input) := by
        intro p hp
        have hsplit' : input.attachments = (before ++ [att]) ++ rest := by
          rw [hsplit, List.append_assoc]
          rfl
        exact ih hsplit' (List.rel_append hatt (.cons hp .nil))
      cases att with
      | inline filename contentType bytes => exact store_spec (fun _ _ => .inline) hrest
      | stream filename contentType reader => exact store_spec (fun _ _ => .stream) hrest
      | remote filename contentType url =>
          refine Triple.bind (Q := fun r => match r with
            | .error _ => fun w _ => Holding w₀ id (input.envelope []) new w
            | .ok _ => Reserved w₀ id (input.envelope []) new) (Triple.call reserved_stable ?_ ?_) ?_
          · rintro w l w' r c ⟨h, hl⟩ hp -
            cases hp
            split
            · exact h
            · exact ⟨h, (reports_snoc rfl).trans hl⟩
          · rintro (e | reader)
            · exact holding_stable
            · exact reserved_stable
          · rintro (e | reader)
            · exact rollback_resolved _
            · exact store_spec (fun _ _ => .remote) hrest

theorem same_stable : Stable machine undisturbed fun w _ => Same w₀ w :=
  stable_of_tick fun _ _ n h => h.tick n

def Fresh (w₀ : World) : Assertion Sys World := fun w l => Same w₀ w ∧ Reports [] l

theorem fresh_stable : Stable machine undisturbed (Fresh w₀) :=
  stable_of_tick fun _ _ n h => ⟨h.1.tick n, h.2⟩

theorem Same.findEmail (h : Same w₀ w) (id : EmailId) : w.findEmail id = w₀.findEmail id := by
  rw [World.findEmail, World.findEmail, h.emails]

def AfterInsert (w₀ : World) (id : EmailId) (envelope : Envelope) :
    Except EmailRepositoryError Nat → Assertion Sys World
  | .error _ => fun w _ => Same w₀ w
  | .ok affected => if affected = 1 then Reserved w₀ id envelope [] else fun w _ => Same w₀ w

theorem afterInsert_stable (r : Except EmailRepositoryError Nat) :
    Stable machine undisturbed (AfterInsert w₀ id envelope r) := by
  cases r with
  | error e => exact same_stable
  | ok affected =>
      simp only [AfterInsert]
      split
      · exact reserved_stable
      · exact same_stable

def AfterSave (w₀ : World) (id : EmailId) (envelope : Envelope) :
    Except EmailRepositoryError SaveResult → Assertion Sys World
  | .error _ => fun w _ => Same w₀ w
  | .ok (.duplicate existing) => fun w _ => Same w₀ w ∧ (w₀.findEmail existing).isSome
  | .ok (.created _) => Reserved w₀ id envelope []

theorem Same.insertEmail (h : Same w₀ w) (habsent : w.findEmail id = none) :
    Holding w₀ id envelope [] (w.insertEmail id envelope) where
  absent := h.findEmail id ▸ habsent
  emails := ⟨w.nowMs, by rw [World.insertEmail_emails, h.emails]⟩
  blobs := by rw [World.insertEmail_blobs, h.blobs, List.map_nil, List.append_nil]
  queue := h.queue
  memory := h.memory
  events := h.events
  refs := nofun
  distinct := List.nodup_nil
  fresh := nofun

theorem insert_outcome {e : EmailRepositoryError} {r : Except EmailRepositoryError Nat} (h : Fresh w₀ w l)
    {call : Call Sys World} (hcall : putResult call = none) (hc : c.fails = true → c.lands = false)
    (hp : c.settle w w e 0 = (w', r) ∨ w.findEmail id = none ∧ c.settle w (w.insertEmail id envelope) e 1 = (w', r)) :
    AfterInsert w₀ id envelope r w' (l ++ [call]) := by
  rcases hp with hp | ⟨habsent, hp⟩
  · rcases settle_cases hc hp with ⟨rfl, rfl⟩ | ⟨rfl, rfl⟩
    · exact h.1
    · exact h.1
  · rcases settle_cases hc hp with ⟨rfl, rfl⟩ | ⟨rfl, rfl⟩
    · exact ⟨h.1.insertEmail habsent, (reports_snoc hcall).trans h.2⟩
    · exact h.1

theorem insertOrIgnore_spec :
    Spec (Fresh w₀) (ask (.insertOrIgnore id envelope)) (AfterInsert w₀ id envelope) := by
  refine Triple.call fresh_stable ?_ afterInsert_stable
  rintro w l w' r c h hp ⟨hc, -⟩
  simp only [perform] at hp
  split at hp
  · exact insert_outcome h rfl hc (.inl (Option.some.inj hp))
  · rename_i hno
    simp only [Bool.or_eq_true, not_or, Option.not_isSome_iff_eq_none] at hno
    exact insert_outcome h rfl hc (.inr ⟨hno.1, Option.some.inj hp⟩)

theorem insertOnConflict_spec :
    Spec (Fresh w₀) (ask (.insertOnConflict id envelope)) (AfterInsert w₀ id envelope) := by
  refine Triple.call fresh_stable ?_ afterInsert_stable
  rintro w l w' r c h hp ⟨hc, -⟩
  simp only [perform] at hp
  split at hp
  · exact insert_outcome h rfl hc (.inl (Option.some.inj hp))
  · split at hp
    · cases hp
      exact h.1
    · rename_i hno
      exact insert_outcome h rfl hc (.inr ⟨Option.not_isSome_iff_eq_none.mp hno, Option.some.inj hp⟩)

theorem selectIdByKey_spec (key : String) :
    Spec (fun w _ => Same w₀ w) (ask (.selectIdByKey key)) fun r w _ => Same w₀ w ∧
      ∀ existing, r = .ok existing → (w₀.findEmail existing).isSome := by
  refine Triple.call same_stable ?_ fun r => stable_of_tick fun _ _ n h => ⟨h.1.tick n, h.2⟩
  rintro w l w' r c h hp -
  simp only [perform] at hp
  split at hp
  · rename_i row _ hrow
    cases hp
    refine ⟨h, ?_⟩
    rintro _ ⟨rfl⟩
    rw [← h.findEmail, World.findEmail, List.find?_isSome]
    exact ⟨row, List.mem_of_find?_eq_some hrow, decide_eq_true rfl⟩
  · cases hp
    exact ⟨h, fun _ h => by cases h⟩

theorem saveResult_spec (r : Except EmailRepositoryError Nat) :
    Spec (AfterInsert w₀ id envelope r) (saveResult id envelope r) (AfterSave w₀ id envelope) := by
  cases r with
  | error e => exact Triple.done same_stable fun _ _ h => h
  | ok affected =>
      simp only [AfterInsert, saveResult]
      split
      · exact Triple.done reserved_stable fun _ _ h => h
      · cases envelope.idempotencyKey with
        | none => exact Triple.done same_stable fun _ _ h => h
        | some key =>
            refine Triple.bind (selectIdByKey_spec key) ?_
            rintro (e | existing)
            · exact Triple.done (stable_of_tick fun _ _ n h => ⟨h.1.tick n, h.2⟩) fun _ _ h => h.1
            · exact Triple.done (stable_of_tick fun _ _ n h => ⟨h.1.tick n, h.2⟩) fun _ _ h => ⟨h.1, h.2 _ rfl⟩

theorem save_spec :
    Spec (Fresh w₀) (a.storage.emailRepository.save id envelope) (AfterSave w₀ id envelope) := by
  cases a.storage with
  | sqlite => exact Triple.bind insertOrIgnore_spec saveResult_spec
  | postgres => exact Triple.bind insertOnConflict_spec saveResult_spec

theorem Complete.tick {q : QueueAdapter} (h : Complete q w₀ id input new w l) (n : Nat) :
    Complete q w₀ id input new { w with now := w.now + n } l :=
  ⟨h.emails, queueHolds_congr h.enqueued rfl rfl rfl, h.blobs, h.attached, h.reports⟩

/-- How a submission leaves the state: as it was, or with everything an accepted email needs. -/
def Atomic (q : QueueAdapter) (w₀ : World) (id : EmailId) (input : SubmitEmailInput) :
    Except SubmitEmailError EmailId → Assertion Sys World
  | .error _, w, _ => Same w₀ w
  | .ok id', w, l => (Same w₀ w ∧ (w₀.findEmail id').isSome) ∨
      id' = id ∧ ∃ new, Complete q w₀ id input new w l

theorem atomic_stable {q : QueueAdapter} (r : Except SubmitEmailError EmailId) :
    Stable machine undisturbed (Atomic q w₀ id input r) := by
  cases r with
  | error e => exact same_stable
  | ok id' =>
      refine stable_of_tick fun w l n h => ?_
      rcases h with ⟨h, hrow⟩ | ⟨rfl, new, h⟩
      · exact .inl ⟨h.tick n, hrow⟩
      · exact .inr ⟨rfl, new, h.tick n⟩

theorem execute_spec : Spec (Fresh w₀) (a.submitEmail.execute id input) (Atomic a.queue w₀ id input) := by
  refine Triple.bind save_spec ?_
  rintro (e | ⟨created⟩ | ⟨existing⟩)
  · exact Triple.done same_stable fun _ _ h => h
  · have hloop : Spec (Reserved w₀ id (input.envelope []) [])
        (a.submitEmail.writeAttachments id input input.attachments []) (Resolved a.queue w₀ id input) :=
      writeAttachments_spec (List.nil_append _).symm .nil
    refine hloop.conseq (fun _ _ h => h) ?_
    rintro (e | id') w l h
    · exact h
    · exact .inr h
  · exact Triple.done (stable_of_tick fun _ _ n h => ⟨h.1.tick n, h.2⟩) fun _ _ h => .inl h

/-- Whichever step of a submission fails, an `Err` leaves the state as it was, and an
`Ok` for a new email leaves its row, its queue entry and its blobs in step. -/
theorem submission_atomic {as : List (Act Unit)} {s : System Unit}
    (hr : Reaches a w (fun _ => .submit id input) as s)
    (hm : (System.start a w fun _ => .submit id input).Meets machine (Pool.Alone machine undisturbed ()) as)
    {r : Except SubmitEmailError EmailId} (hd : s.task () = some (.done (.submitted r))) :
    (∀ e, r = .error e → Same w s.world) ∧
      ∀ id', r = .ok id' → w.findEmail id' = none →
        id' = id ∧ ∃ new, Complete a.queue w id input new s.world (s.calls.map Prod.snd) := by
  have hfresh : Fresh w w [] := ⟨⟨rfl, rfl, rfl, rfl, rfl⟩, rfl⟩
  obtain ⟨r', hr', hatomic⟩ := (execute_spec.map (f := JobResult.submitted) atomic_stable) _ _ _ _ _ hfresh
    (Pool.runs_of_run hr hm rfl hd)
  cases hr'
  refine ⟨?_, ?_⟩
  · rintro e rfl
    exact hatomic
  · rintro id' rfl habsent
    rcases hatomic with ⟨-, hrow⟩ | h
    · rw [habsent] at hrow
      cases hrow
    · exact h

instance {ι : Type} [DecidableEq ι] (i : ι) (s : System ι) (act : Act ι) :
    Decidable (Pool.Alone machine undisturbed i s act) :=
  match act with
  | .step _ _ => inferInstanceAs (Decidable (_ ∧ _))
  | .drift e => inferInstanceAs (Decidable (undisturbed.drift e))
  | .abandon .. => isFalse fun h => h

/-- A submission with two attachments, the second of which is not fetched. -/
def invoices : Job :=
  .submit ⟨1⟩ (plainSubmission none [.inline "a.pdf" "application/pdf" [37, 80], .remote "b.pdf" "application/pdf" ⟨"b"⟩])

theorem submission_atomic_undone : ∃ s e, Reaches sqliteOnly .empty (fun _ => invoices)
    [.step () {}, .step () { key := "a1" }, .step () { fails := true }, .step () {}, .drift (.tick 5), .step () {}] s ∧
    s.task () = some (.done (.submitted (.error e))) ∧ Same .empty s.world := by
  have hrun : ∃ s e, Reaches sqliteOnly .empty (fun _ => invoices) [.step () {}, .step () { key := "a1" },
      .step () { fails := true }, .step () {}, .drift (.tick 5), .step () {}] s ∧
      s.task () = some (.done (.submitted (.error e))) := ⟨_, _, rfl, rfl⟩
  obtain ⟨s, e, hr, hd⟩ := hrun
  exact ⟨s, e, hr, hd, (submission_atomic hr (by decide) hd).1 e rfl⟩

end Catapulte
