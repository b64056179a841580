import Mathlib.Data.List.Nodup
import Catapulte.Storage.Calls

namespace Catapulte

variable {w w' : World} {op : Effect} {r : op.Reply}

/-- The calls that write to `emails`. -/
inductive EmailsWrite (w : World) : Effect → World → Prop
  | insertOrIgnore {id envelope} (hid : w.findEmail id = none)
      (hkey : w.keyTaken envelope.idempotencyKey = false) :
      EmailsWrite w (.insertOrIgnore id envelope) (w.insertEmail id envelope)
  | insertOnConflict {id envelope} (hid : w.findEmail id = none)
      (hkey : w.keyTaken envelope.idempotencyKey = false) :
      EmailsWrite w (.insertOnConflict id envelope) (w.insertEmail id envelope)
  | deleteEmail {id} (href : w.referenced id = false) :
      EmailsWrite w (.deleteEmail id) (w.deleteEmail id)
  | setAttachments {id refs row} (hrow : w.findEmail id = some row) :
      EmailsWrite w (.setAttachments id refs) (w.setAttachments id refs)

@[simp] theorem claimInTransaction_emails (e : QueueEntry) (claimUntil : Int) :
    (w.claimInTransaction e claimUntil).1.emails = w.emails := by
  unfold World.claimInTransaction
  split <;> rfl

theorem Performs.emails (h : Performs w op w' r) : w'.emails = w.emails ∨ EmailsWrite w op w' := by
  cases h with
  | insertOrIgnore h =>
      cases h with
      | inserted hid hkey hs => rcases hs.cases with rfl | rfl
                                · exact .inl rfl
                                · exact .inr (.insertOrIgnore hid hkey)
      | _ => exact .inl rfl
  | insertOnConflict h =>
      cases h with
      | inserted hid hkey hs => rcases hs.cases with rfl | rfl
                                · exact .inl rfl
                                · exact .inr (.insertOnConflict hid hkey)
      | _ => exact .inl rfl
  | deleteEmail href h =>
      rcases h.cases with rfl | rfl
      · exact .inl rfl
      · exact .inr (.deleteEmail href)
  | setAttachments hrow h =>
      rcases h.cases with rfl | rfl
      · exact .inl rfl
      · exact .inr (.setAttachments hrow)
  | insertEvent _ h | insertEntry _ _ h | claimNext _ _ h | deleteEntry h | leaseEntry h | putBlob _ _ h | deleteBlob h =>
      rcases h.cases with rfl | rfl <;> exact .inl rfl
  | claimTransaction _ _ h =>
      rcases h.cases with rfl | rfl
      · exact .inl rfl
      · exact .inl (claimInTransaction_emails _ _)
  | _ => exact .inl rfl

theorem Drifts.emails {e : Drift} (h : Drifts w e w') : w'.emails = w.emails := by
  cases h <;> rfl

/-- The email has a row, with the given idempotency key. -/
def World.HasRow (w : World) (id : EmailId) (key : Option String) : Prop :=
  ∃ row ∈ w.emails, row.id = id ∧ row.envelope.idempotencyKey = key

/-- What the unique index on `idempotency_key` keeps true. -/
def World.KeysUnique (w : World) : Prop :=
  ∀ {key : String} {id id' : EmailId}, w.HasRow id (some key) → w.HasRow id' (some key) → id = id'

theorem hasRow_insertEmail (id : EmailId) (envelope : Envelope) :
    (w.insertEmail id envelope).HasRow id envelope.idempotencyKey :=
  ⟨_, List.mem_append_right _ (List.mem_singleton_self _), rfl, rfl⟩

theorem hasRow_insertEmail_iff {id id' : EmailId} {envelope : Envelope} {key : Option String} :
    (w.insertEmail id envelope).HasRow id' key ↔
      w.HasRow id' key ∨ (id' = id ∧ key = envelope.idempotencyKey) := by
  simp only [World.HasRow, World.insertEmail_emails, List.mem_append, List.mem_singleton, or_and_right,
    exists_or, exists_eq_left, eq_comm]

theorem hasRow_deleteEmail_iff {id id' : EmailId} {key : Option String} :
    (w.deleteEmail id).HasRow id' key ↔ w.HasRow id' key ∧ id' ≠ id := by
  simp only [World.HasRow, World.deleteEmail_emails, List.mem_filter, decide_eq_true_eq]
  grind

theorem hasRow_setAttachments_iff {id id' : EmailId} {refs : List AttachmentRef} {key : Option String} :
    (w.setAttachments id refs).HasRow id' key ↔ w.HasRow id' key := by
  simp only [World.HasRow, World.setAttachments_emails, List.mem_map]
  constructor
  · rintro ⟨_, ⟨row, hrow, rfl⟩, hid, hkey⟩
    refine ⟨row, hrow, ?_, ?_⟩ <;> split at hid <;> simp_all
  · rintro ⟨row, hrow, hid, hkey⟩
    refine ⟨_, ⟨row, hrow, rfl⟩, ?_, ?_⟩ <;> split <;> simp_all

theorem hasRow_congr (h : w'.emails = w.emails) {id : EmailId} {key : Option String} :
    w'.HasRow id key ↔ w.HasRow id key := by
  unfold World.HasRow
  rw [h]

theorem Performs.hasRow (h : Performs w op w' r) {id : EmailId} {key : Option String}
    (hop : op ≠ .deleteEmail id) (hrow : w.HasRow id key) : w'.HasRow id key := by
  rcases h.emails with he | hw
  · exact (hasRow_congr he).mpr hrow
  · cases hw with
    | insertOrIgnore | insertOnConflict => exact hasRow_insertEmail_iff.mpr (.inl hrow)
    | deleteEmail => exact hasRow_deleteEmail_iff.mpr ⟨hrow, fun h => hop (by rw [h])⟩
    | setAttachments => exact hasRow_setAttachments_iff.mpr hrow

theorem Performs.hasRow_of (h : Performs w op w' r) {id : EmailId} {key : Option String}
    (hrow : w'.HasRow id key) : w.HasRow id key ∨
      ∃ envelope, (op = .insertOrIgnore id envelope ∨ op = .insertOnConflict id envelope) ∧
        key = envelope.idempotencyKey := by
  rcases h.emails with he | hw
  · exact .inl ((hasRow_congr he).mp hrow)
  · cases hw with
    | insertOrIgnore =>
        rcases hasRow_insertEmail_iff.mp hrow with h | ⟨rfl, rfl⟩
        · exact .inl h
        · exact .inr ⟨_, .inl rfl, rfl⟩
    | insertOnConflict =>
        rcases hasRow_insertEmail_iff.mp hrow with h | ⟨rfl, rfl⟩
        · exact .inl h
        · exact .inr ⟨_, .inr rfl, rfl⟩
    | deleteEmail => exact .inl (hasRow_deleteEmail_iff.mp hrow).1
    | setAttachments => exact .inl (hasRow_setAttachments_iff.mp hrow)

theorem not_hasRow_of_keyTaken {key : String} (h : w.keyTaken (some key) = false) {id : EmailId} :
    ¬ w.HasRow id (some key) := by
  rintro ⟨row, hrow, -, hkey⟩
  simp only [World.keyTaken, World.findKey, Option.isSome_eq_false_iff, Option.isNone_iff_eq_none,
    List.find?_eq_none, decide_eq_true_eq] at h
  exact h row hrow hkey

theorem keysUnique_insertEmail (h : w.KeysUnique) {id : EmailId} {envelope : Envelope}
    (hkey : w.keyTaken envelope.idempotencyKey = false) : (w.insertEmail id envelope).KeysUnique := by
  intro key id₁ id₂ h₁ h₂
  rw [hasRow_insertEmail_iff] at h₁ h₂
  rcases h₁ with h₁ | ⟨rfl, hk⟩ <;> rcases h₂ with h₂ | ⟨rfl, hk'⟩
  · exact h h₁ h₂
  · exact absurd h₁ (not_hasRow_of_keyTaken (by rwa [hk']))
  · exact absurd h₂ (not_hasRow_of_keyTaken (by rwa [hk]))
  · rfl

theorem Performs.keysUnique (h : Performs w op w' r) (hk : w.KeysUnique) : w'.KeysUnique := by
  rcases h.emails with he | hw
  · intro key id id' h₁ h₂
    exact hk ((hasRow_congr he).mp h₁) ((hasRow_congr he).mp h₂)
  · cases hw with
    | insertOrIgnore hid hkey | insertOnConflict hid hkey => exact keysUnique_insertEmail hk hkey
    | deleteEmail =>
        intro key id id' h₁ h₂
        exact hk (hasRow_deleteEmail_iff.mp h₁).1 (hasRow_deleteEmail_iff.mp h₂).1
    | setAttachments =>
        intro key id id' h₁ h₂
        exact hk (hasRow_setAttachments_iff.mp h₁) (hasRow_setAttachments_iff.mp h₂)

theorem findEmail_isSome {id : EmailId} {key : Option String} (h : w.HasRow id key) :
    (w.findEmail id).isSome := by
  obtain ⟨row, hrow, hid, -⟩ := h
  exact List.find?_isSome.mpr ⟨row, hrow, by simpa using hid⟩

theorem hasRow_of_findKey {key : String} {row : EmailRow} (h : w.findKey key = some row) :
    w.HasRow row.id (some key) := by
  have hk := List.find?_some h
  exact ⟨row, List.mem_of_find?_eq_some h, rfl, of_decide_eq_true hk⟩

theorem Performs.attachments_of (h : Performs w op w' r) {row' : EmailRow} (hrow' : row' ∈ w'.emails) :
    (∃ row ∈ w.emails, row.id = row'.id ∧ row.envelope.attachments = row'.envelope.attachments) ∨
      (∃ envelope, (op = .insertOrIgnore row'.id envelope ∨ op = .insertOnConflict row'.id envelope) ∧
        row'.envelope.attachments = envelope.attachments) ∨
      op = .setAttachments row'.id row'.envelope.attachments := by
  rcases h.emails with he | hw
  · exact .inl ⟨row', he ▸ hrow', rfl, rfl⟩
  · cases hw with
    | @insertOrIgnore id envelope =>
        simp only [World.insertEmail_emails, List.mem_append, List.mem_singleton] at hrow'
        rcases hrow' with hrow' | rfl
        · exact .inl ⟨row', hrow', rfl, rfl⟩
        · exact .inr (.inl ⟨envelope, .inl rfl, rfl⟩)
    | @insertOnConflict id envelope =>
        simp only [World.insertEmail_emails, List.mem_append, List.mem_singleton] at hrow'
        rcases hrow' with hrow' | rfl
        · exact .inl ⟨row', hrow', rfl, rfl⟩
        · exact .inr (.inl ⟨envelope, .inr rfl, rfl⟩)
    | deleteEmail =>
        simp only [World.deleteEmail_emails, List.mem_filter] at hrow'
        exact .inl ⟨row', hrow'.1, rfl, rfl⟩
    | setAttachments =>
        simp only [World.setAttachments_emails, List.mem_map] at hrow'
        obtain ⟨row, hrow, rfl⟩ := hrow'
        split
        · rename_i hid
          exact .inr (.inr (by rw [hid]))
        · exact .inl ⟨row, hrow, rfl, rfl⟩

inductive BlobsWrite (w : World) : Effect → World → Prop
  | put {backend reader key stamp} (hkey : key ∉ w.issued) (hstamp : stamp ≤ w.now) :
      BlobsWrite w (.putBlob backend reader) (w.addBlob ⟨backend, key⟩ reader stamp)
  | delete {blob} : BlobsWrite w (.deleteBlob blob) (w.deleteBlob blob)

theorem Performs.blobs (h : Performs w op w' r) :
    (w'.blobs = w.blobs ∧ w'.issued = w.issued) ∨ BlobsWrite w op w' := by
  cases h with
  | putBlob hkey hstamp h =>
      rcases h.cases with rfl | rfl
      · exact .inl ⟨rfl, rfl⟩
      · exact .inr (.put hkey.1 hstamp)
  | deleteBlob h =>
      rcases h.cases with rfl | rfl
      · exact .inl ⟨rfl, rfl⟩
      · exact .inr .delete
  | insertOrIgnore h | insertOnConflict h =>
      cases h with
      | inserted _ _ hs => rcases hs.cases with rfl | rfl <;> exact .inl ⟨rfl, rfl⟩
      | _ => exact .inl ⟨rfl, rfl⟩
  | @claimTransaction _ _ e _ _ _ _ h =>
      rcases h.cases with rfl | rfl
      · exact .inl ⟨rfl, rfl⟩
      · unfold World.claimInTransaction
        split <;> exact .inl ⟨rfl, rfl⟩
  | deleteEmail _ h | setAttachments _ h | insertEvent _ h | insertEntry _ _ h | claimNext _ _ h | deleteEntry h
  | leaseEntry h =>
      rcases h.cases with rfl | rfl <;> exact .inl ⟨rfl, rfl⟩
  | _ => exact .inl ⟨rfl, rfl⟩

theorem Drifts.blobs {e : Drift} (h : Drifts w e w') : w'.blobs = w.blobs ∧ w'.issued = w.issued := by
  cases h <;> exact ⟨rfl, rfl⟩

theorem Performs.issued_subset (h : Performs w op w' r) {key : String} (hk : key ∈ w.issued) :
    key ∈ w'.issued := by
  rcases h.blobs with ⟨-, hi⟩ | hw
  · rwa [hi]
  · cases hw with
    | put => exact List.mem_append_left _ hk
    | delete => exact hk

@[simp] theorem claimInTransaction_events (e : QueueEntry) (claimUntil : Int) :
    (w.claimInTransaction e claimUntil).1.events = w.events := by
  unfold World.claimInTransaction
  split <;> rfl

theorem Performs.events (h : Performs w op w' r) : w'.events = w.events ∨
    ∃ uuid event, op = .insertEvent uuid event ∧ w'.events = w.events ++ [w.eventRow uuid event] := by
  cases h with
  | insertEvent _ h =>
      rcases h.cases with rfl | rfl
      · exact .inl rfl
      · exact .inr ⟨_, _, rfl, rfl⟩
  | insertOrIgnore h | insertOnConflict h =>
      cases h with
      | inserted _ _ hs => rcases hs.cases with rfl | rfl <;> exact .inl rfl
      | _ => exact .inl rfl
  | claimTransaction _ _ h =>
      rcases h.cases with rfl | rfl
      · exact .inl rfl
      · exact .inl (claimInTransaction_events _ _)
  | deleteEmail _ h | setAttachments _ h | insertEntry _ _ h | claimNext _ _ h | deleteEntry h | leaseEntry h
  | putBlob _ _ h | deleteBlob h =>
      rcases h.cases with rfl | rfl <;> exact .inl rfl
  | _ => exact .inl rfl

theorem latestEvent_eq_none {events : List EventRow} (h : latestEvent events = none) : events = [] := by
  cases events with
  | nil => rfl
  | cons e events =>
      unfold latestEvent at h
      split at h
      · cases h
      · split at h <;> cases h

theorem latestEvent_spec {events : List EventRow} {l : EventRow} (h : latestEvent events = some l) :
    l ∈ events ∧ ∀ e ∈ events, e.later l = false := by
  induction events generalizing l with
  | nil => cases h
  | cons e events ih =>
      have hself : e.later e = false := by simp [EventRow.later]
      unfold latestEvent at h
      cases hl : latestEvent events with
      | none =>
          simp only [hl, Option.some.injEq] at h
          subst h
          obtain rfl := latestEvent_eq_none hl
          exact ⟨List.mem_cons_self, fun x hx => by rw [List.mem_singleton.mp hx]; exact hself⟩
      | some l' =>
          obtain ⟨hmem, hmax⟩ := ih hl
          simp only [hl] at h
          split at h <;> cases h
          · rename_i hlater
            refine ⟨List.mem_cons_self, fun x hx => ?_⟩
            rcases List.mem_cons.mp hx with rfl | hx
            · exact hself
            · have hx := hmax x hx
              simp only [EventRow.later, decide_eq_true_eq, decide_eq_false_iff_not] at hx hlater ⊢
              omega
          · rename_i hlater
            refine ⟨List.mem_cons_of_mem _ hmem, fun x hx => ?_⟩
            rcases List.mem_cons.mp hx with rfl | hx
            · exact Bool.eq_false_iff.mpr hlater
            · exact hmax x hx

theorem latestEvent_eq {events : List EventRow} {t : EventRow} (ht : t ∈ events)
    (h : ∀ e ∈ events, e = t ∨ t.later e = true) : latestEvent events = some t := by
  cases hl : latestEvent events with
  | none =>
      rw [latestEvent_eq_none hl] at ht
      cases ht
  | some l =>
      obtain ⟨hmem, hmax⟩ := latestEvent_spec hl
      rcases h l hmem with rfl | hlater
      · rfl
      · rw [hmax t ht] at hlater
        cases hlater

theorem Drifts.events {e : Drift} (h : Drifts w e w') : w'.events = w.events := by
  cases h <;> rfl

/-- The calls that write to `email_queue`. -/
inductive QueueWrite (w : World) : Effect → World → Prop
  | insertEntry {id uuid} (h : w.lastUuid < uuid) :
      QueueWrite w (.insertEntry id) (w.insertEntry uuid id)
  | claimNext {now claimUntil e} (he : e ∈ w.queue) (hf : firstEligible now w.queue e = true) :
      QueueWrite w (.claimNext now claimUntil) (w.claimEntry e.id claimUntil)
  | claimTransaction {now claimUntil e} (he : e ∈ w.queue)
      (hf : firstEligible now w.queue e = true) :
      QueueWrite w (.claimTransaction now claimUntil) (w.claimInTransaction e claimUntil).1
  | deleteEntry {token} : QueueWrite w (.deleteEntry token) (w.deleteEntry token)
  | leaseEntry {token claimedUntil} :
      QueueWrite w (.leaseEntry token claimedUntil) (w.leaseEntry token claimedUntil)

theorem Performs.queue (h : Performs w op w' r) : w'.queue = w.queue ∨ QueueWrite w op w' := by
  cases h with
  | insertOrIgnore h | insertOnConflict h =>
      cases h with
      | inserted _ _ hs => rcases hs.cases with rfl | rfl <;> exact .inl rfl
      | _ => exact .inl rfl
  | insertEntry _ hu h =>
      rcases h.cases with rfl | rfl
      · exact .inl rfl
      · exact .inr (.insertEntry hu)
  | claimNext he hf h =>
      rcases h.cases with rfl | rfl
      · exact .inl rfl
      · exact .inr (.claimNext he hf)
  | claimTransaction he hf h =>
      rcases h.cases with rfl | rfl
      · exact .inl rfl
      · exact .inr (.claimTransaction he hf)
  | deleteEntry h =>
      rcases h.cases with rfl | rfl
      · exact .inl rfl
      · exact .inr .deleteEntry
  | leaseEntry h =>
      rcases h.cases with rfl | rfl
      · exact .inl rfl
      · exact .inr .leaseEntry
  | deleteEmail _ h | setAttachments _ h | insertEvent _ h | putBlob _ _ h | deleteBlob h =>
      rcases h.cases with rfl | rfl <;> exact .inl rfl
  | _ => exact .inl rfl

theorem Drifts.queue {e : Drift} (h : Drifts w e w') : w'.queue = w.queue := by
  cases h <;> rfl

theorem Drifts.lastUuid {e : Drift} (h : Drifts w e w') : w'.lastUuid = w.lastUuid := by
  cases h <;> rfl

theorem Drifts.now_le {e : Drift} (h : Drifts w e w') : w.now ≤ w'.now := by
  cases h with
  | tick => exact Nat.le_add_right ..
  | wake => exact Nat.le_refl _

@[simp] theorem claimInTransaction_lastUuid (e : QueueEntry) (claimUntil : Int) :
    (w.claimInTransaction e claimUntil).1.lastUuid = w.lastUuid := by
  unfold World.claimInTransaction
  split <;> rfl

@[simp] theorem claimInTransaction_now (e : QueueEntry) (claimUntil : Int) :
    (w.claimInTransaction e claimUntil).1.now = w.now := by
  unfold World.claimInTransaction
  split <;> rfl

theorem Performs.lastUuid_le (h : Performs w op w' r) : w.lastUuid ≤ w'.lastUuid := by
  cases h with
  | newUuid h => exact Nat.le_of_lt h
  | insertEntry _ hu h =>
      rcases h.cases with rfl | rfl
      · exact Nat.le_refl _
      · exact Nat.le_of_lt hu
  | insertOrIgnore h | insertOnConflict h =>
      cases h with
      | inserted _ _ hs => rcases hs.cases with rfl | rfl <;> exact Nat.le_refl _
      | _ => exact Nat.le_refl _
  | claimTransaction _ _ h => rcases h.cases with rfl | rfl <;> simp
  | claimNext _ _ h | deleteEntry h | leaseEntry h | deleteEmail _ h | setAttachments _ h
  | insertEvent _ h | putBlob _ _ h | deleteBlob h => rcases h.cases with rfl | rfl <;> exact Nat.le_refl _
  | _ => exact Nat.le_refl _

theorem Performs.now_eq (h : Performs w op w' r) : w'.now = w.now := by
  cases h with
  | insertOrIgnore h | insertOnConflict h =>
      cases h with
      | inserted _ _ hs => rcases hs.cases with rfl | rfl <;> rfl
      | _ => rfl
  | claimTransaction _ _ h => rcases h.cases with rfl | rfl <;> simp
  | insertEntry _ _ h | claimNext _ _ h | deleteEntry h | leaseEntry h | deleteEmail _ h | setAttachments _ h
  | insertEvent _ h | putBlob _ _ h | deleteBlob h => rcases h.cases with rfl | rfl <;> rfl
  | _ => rfl

theorem nowMs_le (h : w.now ≤ w'.now) : w.nowMs ≤ w'.nowMs := by
  unfold World.nowMs
  have hdiv : w.now / 1000000 ≤ w'.now / 1000000 := Nat.div_le_div_right h
  omega

/-- The ids of the entries are distinct, and all were drawn before. -/
structure World.EntriesFresh (w : World) : Prop where
  nodup : (w.queue.map QueueEntry.id).Nodup
  drawn : ∀ e ∈ w.queue, e.id ≤ w.lastUuid

theorem entriesFresh_empty : World.empty.EntriesFresh := ⟨List.nodup_nil, nofun⟩

theorem World.EntriesFresh.unique (h : w.EntriesFresh) {e e' : QueueEntry} (he : e ∈ w.queue)
    (he' : e' ∈ w.queue) (hid : e.id = e'.id) : e = e' :=
  List.inj_on_of_nodup_map h.nodup he he' hid

theorem updateEntry_ids (token : AckToken) (f : QueueEntry → QueueEntry) (hf : ∀ e, (f e).id = e.id) :
    (w.updateEntry token f).queue.map QueueEntry.id = w.queue.map QueueEntry.id := by
  simp only [World.updateEntry_queue, List.map_map]
  refine List.map_congr_left fun e _ => ?_
  simp only [Function.comp]
  split
  · exact hf e
  · rfl

theorem World.EntriesFresh.of_sublist (h : w.EntriesFresh) (hl : w.lastUuid ≤ w'.lastUuid)
    (hs : (w'.queue.map QueueEntry.id).Sublist (w.queue.map QueueEntry.id)) : w'.EntriesFresh := by
  refine ⟨hs.nodup h.nodup, fun e he => ?_⟩
  have hmem : e.id ∈ w.queue.map QueueEntry.id := hs.subset (List.mem_map_of_mem he)
  obtain ⟨e', he', hid⟩ := List.mem_map.mp hmem
  rw [← hid]
  exact Nat.le_trans (h.drawn e' he') hl

theorem leaseEntry_ids (token : AckToken) (claimedUntil : Int) :
    (w.leaseEntry token claimedUntil).queue.map QueueEntry.id = w.queue.map QueueEntry.id :=
  updateEntry_ids token _ fun _ => rfl

theorem claimEntry_ids (token : AckToken) (claimUntil : Int) :
    (w.claimEntry token claimUntil).queue.map QueueEntry.id = w.queue.map QueueEntry.id :=
  updateEntry_ids token _ fun _ => rfl

theorem deleteEntry_sublist (token : AckToken) :
    ((w.deleteEntry token).queue.map QueueEntry.id).Sublist (w.queue.map QueueEntry.id) :=
  List.filter_sublist.map _

theorem QueueWrite.ids (h : QueueWrite w op w') :
    (w'.queue.map QueueEntry.id).Sublist (w.queue.map QueueEntry.id) ∨
      ∃ id uuid, op = .insertEntry id ∧ w.lastUuid < uuid ∧ w' = w.insertEntry uuid id := by
  cases h with
  | insertEntry h => exact .inr ⟨_, _, rfl, h, rfl⟩
  | claimNext => exact .inl (by rw [claimEntry_ids])
  | claimTransaction =>
      left
      unfold World.claimInTransaction
      split
      · exact (deleteEntry_sublist _).trans (by rw [claimEntry_ids])
      · rw [claimEntry_ids]
  | deleteEntry => exact .inl (deleteEntry_sublist _)
  | leaseEntry => exact .inl (by rw [leaseEntry_ids])

theorem Performs.entriesFresh (h : Performs w op w' r) (hf : w.EntriesFresh) : w'.EntriesFresh := by
  rcases h.queue with hq | hq
  · exact hf.of_sublist h.lastUuid_le (by rw [hq])
  · rcases hq.ids with hs | ⟨id, uuid, -, hu, rfl⟩
    · exact hf.of_sublist h.lastUuid_le hs
    · refine ⟨?_, fun e he => ?_⟩
      · simp only [World.insertEntry_queue, List.map_append, List.map_cons, List.map_nil]
        refine List.nodup_append.mpr ⟨hf.nodup, List.nodup_singleton _, ?_⟩
        intro x hx y hy hxy
        obtain ⟨e, he, rfl⟩ := List.mem_map.mp hx
        have hle := hf.drawn e he
        simp only [List.mem_singleton] at hy
        omega
      · simp only [World.insertEntry_queue, List.mem_append, List.mem_singleton] at he
        rcases he with he | rfl
        · exact Nat.le_trans (hf.drawn e he) (Nat.le_of_lt hu)
        · exact Nat.le_refl _

theorem mem_claimEntry {token : AckToken} {claimUntil : Int} {e' : QueueEntry}
    (h : e' ∈ (w.claimEntry token claimUntil).queue) :
    ∃ e ∈ w.queue, e.id = e'.id ∧ e.emailId = e'.emailId ∧ e.attemptCount ≤ e'.attemptCount ∧
      (e.id ≠ token → e' = e) ∧
      (e.id = token → e'.claimedUntil = some claimUntil ∧ e'.attemptCount = e.attemptCount + 1) := by
  simp only [World.claimEntry_queue, List.mem_map] at h
  obtain ⟨e, he, rfl⟩ := h
  refine ⟨e, he, ?_⟩
  split <;> simp_all

theorem mem_leaseEntry {token : AckToken} {claimedUntil : Int} {e' : QueueEntry}
    (h : e' ∈ (w.leaseEntry token claimedUntil).queue) :
    ∃ e ∈ w.queue, e.id = e'.id ∧ e.emailId = e'.emailId ∧ e.attemptCount = e'.attemptCount ∧
      (e.id ≠ token → e' = e) := by
  simp only [World.leaseEntry_queue, List.mem_map] at h
  obtain ⟨e, he, rfl⟩ := h
  refine ⟨e, he, ?_⟩
  split <;> simp_all

theorem mem_deleteEntry {token : AckToken} {e : QueueEntry} :
    e ∈ (w.deleteEntry token).queue ↔ e ∈ w.queue ∧ e.id ≠ token := by
  simp [List.mem_filter]

theorem claimed_mem {e : QueueEntry} (he : e ∈ w.queue) (claimUntil : Int) :
    { e with claimedUntil := some claimUntil, attemptCount := e.attemptCount + 1 } ∈
      (w.claimEntry e.id claimUntil).queue :=
  List.mem_map.mpr ⟨e, he, if_pos rfl⟩

theorem mem_claimEntry_of_ne {e : QueueEntry} {token : AckToken} (he : e ∈ w.queue) (hne : e.id ≠ token)
    (claimUntil : Int) : e ∈ (w.claimEntry token claimUntil).queue :=
  List.mem_map.mpr ⟨e, he, if_neg hne⟩

theorem mem_leaseEntry_of_ne {e : QueueEntry} {token : AckToken} (he : e ∈ w.queue) (hne : e.id ≠ token)
    (claimedUntil : Int) : e ∈ (w.leaseEntry token claimedUntil).queue :=
  List.mem_map.mpr ⟨e, he, if_neg hne⟩

theorem claimInTransaction_queue (e : QueueEntry) (claimUntil : Int) :
    (w.claimInTransaction e claimUntil).1.queue = (w.claimEntry e.id claimUntil).queue ∨
      (w.claimInTransaction e claimUntil).1 = (w.claimEntry e.id claimUntil).deleteEntry e.id := by
  unfold World.claimInTransaction
  split
  · exact .inr rfl
  · exact .inl rfl

theorem Performs.entry_of (h : Performs w op w' r) {e' : QueueEntry} (he' : e' ∈ w'.queue) :
    (∃ e ∈ w.queue, e.id = e'.id ∧ e.emailId = e'.emailId ∧ e.attemptCount ≤ e'.attemptCount) ∨
      (w.lastUuid < e'.id ∧ op = .insertEntry e'.emailId) := by
  rcases h.queue with hq | hq
  · exact .inl ⟨e', hq ▸ he', rfl, rfl, Nat.le_refl _⟩
  · cases hq with
    | insertEntry hu =>
        simp only [World.insertEntry_queue, List.mem_append, List.mem_singleton] at he'
        rcases he' with he' | rfl
        · exact .inl ⟨e', he', rfl, rfl, Nat.le_refl _⟩
        · exact .inr ⟨hu, rfl⟩
    | claimNext =>
        obtain ⟨e, he, hid, hem, hat, -⟩ := mem_claimEntry he'
        exact .inl ⟨e, he, hid, hem, hat⟩
    | @claimTransaction _ claimUntil e₀ =>
        have hmem : e' ∈ (w.claimEntry e₀.id claimUntil).queue := by
          rcases claimInTransaction_queue e₀ claimUntil with hq | hq
          · rwa [hq] at he'
          · rw [hq] at he'
            exact (mem_deleteEntry.mp he').1
        obtain ⟨e, he, hid, hem, hat, -⟩ := mem_claimEntry hmem
        exact .inl ⟨e, he, hid, hem, hat⟩
    | deleteEntry => exact .inl ⟨e', (mem_deleteEntry.mp he').1, rfl, rfl, Nat.le_refl _⟩
    | leaseEntry =>
        obtain ⟨e, he, hid, hem, hat, -⟩ := mem_leaseEntry he'
        exact .inl ⟨e, he, hid, hem, Nat.le_of_eq hat⟩

theorem Performs.entry_kept (h : Performs w op w' r) (hf : w.EntriesFresh) {e : QueueEntry}
    (he : e ∈ w.queue) (hack : op ≠ .deleteEntry e.id)
    (hnack : ∀ claimedUntil, op ≠ .leaseEntry e.id claimedUntil)
    (hclaim : ∀ {now claimUntil}, op = .claimNext now claimUntil ∨ op = .claimTransaction now claimUntil →
      e.eligible now = false) : e ∈ w'.queue := by
  have hne : ∀ {now claimUntil e₀}, op = .claimNext now claimUntil ∨ op = .claimTransaction now claimUntil →
      e₀ ∈ w.queue → firstEligible now w.queue e₀ = true → e.id ≠ e₀.id := by
    intro now claimUntil e₀ hop he₀ hfirst hid
    obtain rfl := hf.unique he he₀ hid
    rw [firstEligible, hclaim hop, Bool.false_and] at hfirst
    cases hfirst
  rcases h.queue with hq | hq
  · rwa [hq]
  · cases hq with
    | insertEntry => exact List.mem_append_left _ he
    | claimNext he₀ hfirst => exact mem_claimEntry_of_ne he (hne (.inl rfl) he₀ hfirst) _
    | @claimTransaction _ claimUntil e₀ he₀ hfirst =>
        have hid := hne (.inr rfl) he₀ hfirst
        rcases claimInTransaction_queue e₀ claimUntil with hq | hq
        · rw [hq]
          exact mem_claimEntry_of_ne he hid _
        · rw [hq]
          exact mem_deleteEntry.mpr ⟨mem_claimEntry_of_ne he hid _, hid⟩
    | deleteEntry => exact mem_deleteEntry.mpr ⟨he, fun hid => hack (by rw [hid])⟩
    | leaseEntry => exact mem_leaseEntry_of_ne he (fun hid => hnack _ (by rw [hid])) _

theorem referenced_iff {id : EmailId} : w.referenced id = true ↔
    (∃ e ∈ w.queue, e.emailId = id) ∨ ∃ e ∈ w.events, e.emailId = id := by
  simp [World.referenced]

theorem hasRow_of_findEmail {id : EmailId} {row : EmailRow} (h : w.findEmail id = some row) :
    w.HasRow id row.envelope.idempotencyKey := by
  have hid := List.find?_some h
  exact ⟨row, List.mem_of_find?_eq_some h, of_decide_eq_true hid, rfl⟩

theorem Performs.referenced_of (h : Performs w op w' r) {id : EmailId} (href : w'.referenced id = true) :
    w.referenced id = true ∨ ∃ key, w.HasRow id key ∧ op ≠ .deleteEmail id := by
  rcases referenced_iff.mp href with ⟨e', he', rfl⟩ | ⟨row, hrow, rfl⟩
  · rcases h.entry_of he' with ⟨e, he, -, hid, -⟩ | ⟨hu, rfl⟩
    · exact .inl (referenced_iff.mpr (.inl ⟨e, he, hid⟩))
    · cases h with
      | entryRefused => exact .inl href
      | insertEntry hrow => exact .inr ⟨_, hasRow_of_findEmail hrow, nofun⟩
  · rcases h.events with he | ⟨uuid, event, rfl, he⟩
    · exact .inl (referenced_iff.mpr (.inr ⟨row, he ▸ hrow, rfl⟩))
    · rcases List.mem_append.mp (he ▸ hrow) with hrow | hrow
      · exact .inl (referenced_iff.mpr (.inr ⟨row, hrow, rfl⟩))
      · obtain rfl := List.mem_singleton.mp hrow
        cases h with
        | eventRefused => exact .inl href
        | insertEvent hfound => exact .inr ⟨_, hasRow_of_findEmail hfound, nofun⟩

theorem Performs.references (h : Performs w op w' r) {id : EmailId}
    (hkey : w.referenced id = true → ∃ key, w.HasRow id key) (href : w'.referenced id = true) :
    ∃ key, w'.HasRow id key := by
  rcases h.referenced_of href with hbefore | ⟨key, hrow, hop⟩
  · obtain ⟨key, hrow⟩ := hkey hbefore
    by_cases hop : op = .deleteEmail id
    · subst hop
      cases h with
      | deleteRefused => exact ⟨key, hrow⟩
      | deleteEmail hnot =>
          rw [hnot] at hbefore
          cases hbefore
    · exact ⟨key, h.hasRow hop hrow⟩
  · exact ⟨key, h.hasRow hop hrow⟩

theorem Drifts.referenced {e : Drift} (h : Drifts w e w') (id : EmailId) : w'.referenced id = w.referenced id := by
  rw [World.referenced, World.referenced, h.queue, h.events]

end Catapulte
