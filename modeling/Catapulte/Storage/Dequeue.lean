import Mathlib.Data.List.Nodup
import Catapulte.Storage.Columns

namespace Catapulte

/-- The columns of `email_queue` that `try_dequeue` reads. -/
inductive EntryColumn
  | id
  | emailId
  | attemptCount
  | traceContext
  deriving DecidableEq, Repr

/-- A row of `email_queue`, with the columns whose values are not of the type they are read as. -/
structure EntryColumns where
  id : Nat
  emailId : EmailId
  enqueuedAt : Int
  claimedUntil : Option Int
  attemptCount : Int
  unreadable : List EntryColumn
  deriving DecidableEq, Repr

structure QueueTables where
  queue : List EntryColumns
  emails : EmailTable
  primaryKey : (queue.map EntryColumns.id).Nodup

def EntryColumns.eligible (now : Int) (e : EntryColumns) : Bool :=
  match e.claimedUntil with
  | none => true
  | some t => decide (t < now)

/-- `ORDER BY enqueued_at ASC LIMIT 1`. Which of several equals comes first is
settled by the order of the rows, which is any. -/
def firstEnqueued : List EntryColumns → Option EntryColumns
  | [] => none
  | e :: es =>
      match firstEnqueued es with
      | none => some e
      | some f => if e.enqueuedAt ≤ f.enqueuedAt then some e else some f

def nextEntry (now : Int) (queue : List EntryColumns) : Option EntryColumns :=
  firstEnqueued (queue.filter (·.eligible now))

namespace QueueTables

def update (db : QueueTables) (id : Nat) (f : EntryColumns → EntryColumns) (hf : ∀ e, (f e).id = e.id) :
    QueueTables where
  queue := db.queue.map fun e => if e.id = id then f e else e
  emails := db.emails
  primaryKey := by
    rw [List.map_map, List.map_congr_left (g := EntryColumns.id)]
    · exact db.primaryKey
    · intro e _
      simp only [Function.comp_apply]
      split
      · exact hf e
      · rfl

def claim (db : QueueTables) (id : Nat) (claimUntil : Int) : QueueTables :=
  db.update id (fun e => { e with claimedUntil := some claimUntil, attemptCount := e.attemptCount + 1 }) fun _ => rfl

def delete (db : QueueTables) (id : Nat) : QueueTables where
  queue := db.queue.filter fun e => e.id ≠ id
  emails := db.emails
  primaryKey := db.primaryKey.sublist (List.filter_sublist.map _)

end QueueTables

inductive DequeueStatement
  | begin
  | find
  | claim
  | fetch
  | delete
  | commit
  | rollback
  deriving DecidableEq, Repr

/-- What goes wrong at a statement. A statement that returns an error, or whose
caller is cancelled while waiting, may have taken effect all the same. -/
inductive Fault
  | none
  | error (lands : Bool)
  | cancelled (lands : Bool)
  deriving DecidableEq, Repr

inductive DequeueOutcome
  | returned (result : Except EmailQueueError (Option DequeuedEmail))
  | cancelled

def DequeueOutcome.error (source : String) : DequeueOutcome := returned (.error (.storage source))

def DequeueOutcome.delivers : DequeueOutcome → Bool
  | returned (.ok (some _)) => true
  | _ => false

namespace Fault

def lands : Fault → Bool
  | none => true
  | error lands | cancelled lands => lands

/-- The call goes on after the statement, or it ends there with these tables. -/
def guard (context : String) (db : QueueTables) (rest : QueueTables × DequeueOutcome) : Fault → QueueTables × DequeueOutcome
  | none => rest
  | error _ => (db, .error context)
  | cancelled _ => (db, .cancelled)

end Fault

/-- The `try_get` of each column, and `u32::try_from` of the attempt. -/
def EntryColumns.read (e : EntryColumns) (attemptCount : Int) : Except String Nat :=
  if .id ∈ e.unreadable then .error "reading entry id"
  else if .emailId ∈ e.unreadable then .error "reading email_id"
  else if .attemptCount ∈ e.unreadable then .error "reading attempt_count"
  else if attemptCount < 0 ∨ 2 ^ 32 ≤ attemptCount then .error "attempt_count out of range"
  else if .traceContext ∈ e.unreadable then .error "reading trace_context"
  else .ok attemptCount.toNat

section Backends

variable (parseUrl : String → Option Url) (faults : DequeueStatement → Fault) (now : Int) (db : QueueTables)

namespace SqliteAdapter

def dropOrphan (claimed : QueueTables) (e : EntryColumns) : QueueTables × DequeueOutcome :=
  let db' := if (faults .delete).lands then claimed.delete e.id else claimed
  (faults .delete).guard "deleting from email_queue" db' (db', .returned (.ok none))

def fetchEmail (claimed : QueueTables) (e : EntryColumns) : QueueTables × DequeueOutcome :=
  match e.read (e.attemptCount + 1) with
  | .error context => (claimed, .error context)
  | .ok newAttempt =>
      (faults .fetch).guard "fetching email for dequeue" claimed <|
        match claimed.emails.find e.emailId with
        | none => dropOrphan faults claimed e
        | some row =>
            match parseEnvelope parseUrl row with
            | .error source => (claimed, .error source)
            | .ok envelope => (claimed, .returned (.ok (some ⟨row.id, envelope, newAttempt, e.id⟩)))

/-- `try_dequeue`, where each statement commits by itself. -/
def tryDequeueRow : QueueTables × DequeueOutcome :=
  match nextEntry now db.queue with
  | none => (faults .claim).guard "claiming next queue entry" db (db, .returned (.ok none))
  | some e =>
      let claimed := if (faults .claim).lands then db.claim e.id (now + processingTimeoutMs) else db
      (faults .claim).guard "claiming next queue entry" claimed (fetchEmail parseUrl faults claimed e)

end SqliteAdapter

namespace PostgresAdapter

/-- The transaction takes effect if its commit does; one that is dropped is rolled back. -/
def commit (tx : QueueTables) (context : String) (result : Except EmailQueueError (Option DequeuedEmail)) :
    QueueTables × DequeueOutcome :=
  let db' := if (faults .commit).lands then tx else db
  (faults .commit).guard context db' (db', .returned result)

/-- What follows the claim of the entry, in the transaction `tx`. -/
def fetchEmail (tx : QueueTables) (e : EntryColumns) (newAttempt : Nat) : QueueTables × DequeueOutcome :=
  (faults .fetch).guard "fetching email for dequeue" db <|
    match tx.emails.find e.emailId with
    | none =>
        (faults .delete).guard "deleting orphaned queue entry" db <|
          commit faults db (tx.delete e.id) "committing orphan cleanup transaction" (.ok none)
    | some row =>
        -- The row is only parsed after the commit.
        commit faults db tx "committing dequeue transaction" <|
          match parseEnvelope parseUrl row with
          | .error source => .error (.storage source)
          | .ok envelope => .ok (some ⟨e.emailId, envelope, newAttempt, e.id⟩)

/-- `try_dequeue`, in one transaction; `locked` are the rows that other transactions have locked. -/
def tryDequeueRow (locked : List Nat) : QueueTables × DequeueOutcome :=
  (faults .begin).guard "beginning transaction" db <|
    (faults .find).guard "finding next queue entry" db <|
      match nextEntry now (db.queue.filter fun e => e.id ∉ locked) with
      | none => (faults .rollback).guard "rolling back empty dequeue" db (db, .returned (.ok none))
      | some e =>
          match e.read e.attemptCount with
          | .error context => (db, .error context)
          | .ok currentAttempt =>
              (faults .claim).guard "claiming queue entry" db <|
                -- The column is an INTEGER, whose sum may not leave 32 bits.
                if 2 ^ 31 ≤ e.attemptCount + 1 then (db, .error "claiming queue entry")
                else fetchEmail parseUrl faults db (db.claim e.id (now + processingTimeoutMs)) e (currentAttempt + 1)

end PostgresAdapter

end Backends

/-- Every entry is as it was, except that one whose email row is missing may be removed. -/
def Unconsumed (db db' : QueueTables) : Prop :=
  ∀ e ∈ db.queue, e ∈ db'.queue ∨ db.emails.find e.emailId = none ∧ ∀ e' ∈ db'.queue, e'.id ≠ e.id

variable {parseUrl : String → Option Url} {faults : DequeueStatement → Fault} {now claimUntil : Int}
  {db : QueueTables} {e : EntryColumns}

theorem Unconsumed.refl (db : QueueTables) : Unconsumed db db := fun _ h => .inl h

theorem mem_of_firstEnqueued {queue : List EntryColumns} (h : firstEnqueued queue = some e) : e ∈ queue := by
  induction queue generalizing e with
  | nil => cases h
  | cons f queue ih =>
      simp only [firstEnqueued] at h
      cases hq : firstEnqueued queue with
      | none =>
          simp only [hq] at h
          cases h
          exact List.mem_cons_self
      | some g =>
          simp only [hq] at h
          split at h <;> cases h
          · exact List.mem_cons_self
          · exact List.mem_cons_of_mem _ (ih hq)

theorem mem_of_nextEntry {queue : List EntryColumns} (h : nextEntry now queue = some e) : e ∈ queue :=
  (List.mem_filter.mp (mem_of_firstEnqueued h)).1

theorem not_unconsumed_claim (he : e ∈ db.queue) : ¬ Unconsumed db (db.claim e.id claimUntil) := by
  intro h
  have hclaimed : { e with claimedUntil := some claimUntil, attemptCount := e.attemptCount + 1 } ∈
      (db.claim e.id claimUntil).queue := by
    refine List.mem_map.mpr ⟨e, he, ?_⟩
    rw [if_pos rfl]
  rcases h e he with hin | ⟨-, hgone⟩
  · have heq := List.inj_on_of_nodup_map (db.claim e.id claimUntil).primaryKey hin hclaimed rfl
    have hcount := congrArg EntryColumns.attemptCount heq
    simp only at hcount
    omega
  · exact hgone _ hclaimed rfl

theorem unconsumed_orphan (h : db.emails.find e.emailId = none) (he : e ∈ db.queue) :
    Unconsumed db ((db.claim e.id claimUntil).delete e.id) := by
  intro f hf
  by_cases hid : f.id = e.id
  · obtain rfl := List.inj_on_of_nodup_map db.primaryKey hf he hid
    exact .inr ⟨h, fun e' he' => by simpa using (List.mem_filter.mp he').2⟩
  · refine .inl (List.mem_filter.mpr ⟨List.mem_map.mpr ⟨f, hf, if_neg hid⟩, by simpa using hid⟩)

/-- The call delivers an item, or it has consumed nothing. -/
def Lossless (db : QueueTables) (result : QueueTables × DequeueOutcome) : Prop :=
  result.2.delivers = false → Unconsumed db result.1

theorem lossless_of_refl {outcome : DequeueOutcome} : Lossless db (db, outcome) := fun _ => .refl db

theorem not_lossless_claim {outcome : DequeueOutcome} (he : e ∈ db.queue) (h : outcome.delivers = false) :
    ¬ Lossless db (db.claim e.id claimUntil, outcome) := fun hl => not_unconsumed_claim he (hl h)

theorem guard_lossless {f : Fault} {context : String} {rest : QueueTables × DequeueOutcome} :
    Lossless db (f.guard context db rest) ↔ (f = .none → Lossless db rest) := by
  cases f with
  | none => exact ⟨fun h _ => h, fun h => h rfl⟩
  | error | cancelled => exact iff_of_true lossless_of_refl nofun

theorem guard_claim_lossless {f : Fault} {context : String} {rest : QueueTables × DequeueOutcome} (he : e ∈ db.queue) :
    Lossless db (f.guard context (db.claim e.id claimUntil) rest) ↔ f = .none ∧ Lossless db rest := by
  cases f with
  | none => exact (and_iff_right rfl).symm
  | error | cancelled => exact iff_of_false (not_lossless_claim he rfl) nofun

namespace SqliteAdapter

/-- Once the claim has taken effect, nothing else goes wrong. -/
def Unbroken (parseUrl : String → Option Url) (faults : DequeueStatement → Fault) (db : QueueTables)
    (e : EntryColumns) : Prop :=
  (∃ n, e.read (e.attemptCount + 1) = .ok n) ∧ faults .fetch = .none ∧
    match db.emails.find e.emailId with
    | none => (faults .delete).lands = true
    | some row => ∃ envelope, parseEnvelope parseUrl row = .ok envelope

theorem dropOrphan_lossless (he : e ∈ db.queue) (hfind : db.emails.find e.emailId = none) :
    Lossless db (dropOrphan faults (db.claim e.id claimUntil) e) ↔ (faults .delete).lands = true := by
  unfold dropOrphan
  cases hf : faults .delete with
  | none => exact iff_of_true (fun _ => unconsumed_orphan hfind he) rfl
  | error lands | cancelled lands =>
      cases lands with
      | true => exact iff_of_true (fun _ => unconsumed_orphan hfind he) rfl
      | false => exact iff_of_false (not_lossless_claim he rfl) nofun

theorem fetchEmail_lossless (he : e ∈ db.queue) :
    Lossless db (fetchEmail parseUrl faults (db.claim e.id claimUntil) e) ↔ Unbroken parseUrl faults db e := by
  have hemails : (db.claim e.id claimUntil).emails = db.emails := rfl
  unfold fetchEmail Unbroken
  cases hread : e.read (e.attemptCount + 1) with
  | error context =>
      refine iff_of_false (not_lossless_claim he rfl) ?_
      rintro ⟨⟨n, hn⟩, -⟩
      cases hn
  | ok newAttempt =>
      simp only [guard_claim_lossless he, hemails, Except.ok.injEq, exists_eq', true_and]
      refine and_congr_right fun _ => ?_
      cases hfind : db.emails.find e.emailId with
      | none => exact dropOrphan_lossless he hfind
      | some row =>
          dsimp only
          cases hparse : parseEnvelope parseUrl row with
          | error source => exact iff_of_false (not_lossless_claim he rfl) nofun
          | ok envelope => exact iff_of_true (fun h => nomatch h) ⟨_, rfl⟩

theorem tryDequeueRow_lossless : Lossless db (tryDequeueRow parseUrl faults now db) ↔
    ∀ e, nextEntry now db.queue = some e → (faults .claim).lands = true →
      faults .claim = .none ∧ Unbroken parseUrl faults db e := by
  unfold tryDequeueRow
  cases hnext : nextEntry now db.queue with
  | none => exact iff_of_true (guard_lossless.mpr fun _ => lossless_of_refl) nofun
  | some e =>
      have he := mem_of_nextEntry hnext
      simp only [Option.some.injEq, forall_eq']
      cases hlands : (faults .claim).lands with
      | true => simp only [if_true, guard_claim_lossless he, fetchEmail_lossless he, forall_const]
      | false =>
          refine iff_of_true (guard_lossless.mpr fun hnone => ?_) nofun
          rw [hnone] at hlands
          cases hlands

end SqliteAdapter

namespace PostgresAdapter

/-- The statements of the transaction up to its commit succeed for the entry. -/
def Succeeds (faults : DequeueStatement → Fault) (e : EntryColumns) : Prop :=
  faults .begin = .none ∧ faults .find = .none ∧ (∃ n, e.read e.attemptCount = .ok n) ∧ faults .claim = .none ∧
    e.attemptCount + 1 < 2 ^ 31 ∧ faults .fetch = .none

theorem commit_lossless {tx : QueueTables} {context : String} {result : Except EmailQueueError (Option DequeuedEmail)}
    (h : Unconsumed db tx) : Lossless db (commit faults db tx context result) := by
  intro _
  unfold commit
  cases hf : faults .commit with
  | none => exact h
  | error lands | cancelled lands =>
      cases lands with
      | true => exact h
      | false => exact .refl db

theorem commit_claim_lossless {context : String} {result : Except EmailQueueError (Option DequeuedEmail)}
    (he : e ∈ db.queue) : Lossless db (commit faults db (db.claim e.id claimUntil) context result) ↔
      ((faults .commit).lands = true → faults .commit = .none ∧ ∃ item, result = .ok (some item)) := by
  unfold commit
  cases hlands : (faults .commit).lands with
  | true =>
      simp only [if_true, guard_claim_lossless he, forall_const]
      refine and_congr_right fun _ => ?_
      rcases result with source | _ | item
      · exact iff_of_false (not_lossless_claim he rfl) nofun
      · exact iff_of_false (not_lossless_claim he rfl) nofun
      · exact iff_of_true (fun h => nomatch h) ⟨_, rfl⟩
  | false =>
      refine iff_of_true (guard_lossless.mpr fun hnone => ?_) nofun
      rw [hnone] at hlands
      cases hlands

theorem fetchEmail_lossless (he : e ∈ db.queue) {newAttempt : Nat} :
    Lossless db (fetchEmail parseUrl faults db (db.claim e.id claimUntil) e newAttempt) ↔
      (faults .fetch = .none → ∀ row, db.emails.find e.emailId = some row → (faults .commit).lands = true →
        faults .commit = .none ∧ ∃ envelope, parseEnvelope parseUrl row = .ok envelope) := by
  have hemails : (db.claim e.id claimUntil).emails = db.emails := rfl
  simp only [fetchEmail, guard_lossless, hemails]
  refine imp_congr_right fun _ => ?_
  cases hfind : db.emails.find e.emailId with
  | none =>
      refine iff_of_true (guard_lossless.mpr fun _ => commit_lossless (unconsumed_orphan hfind he)) nofun
  | some row =>
      simp only [Option.some.injEq, forall_eq', commit_claim_lossless he]
      refine imp_congr_right fun _ => and_congr_right fun _ => ?_
      cases parseEnvelope parseUrl row <;> simp

theorem tryDequeueRow_lossless {locked : List Nat} : Lossless db (tryDequeueRow parseUrl faults now db locked) ↔
    ∀ e row, nextEntry now (db.queue.filter fun e => e.id ∉ locked) = some e → Succeeds faults e →
      db.emails.find e.emailId = some row → (faults .commit).lands = true →
        faults .commit = .none ∧ ∃ envelope, parseEnvelope parseUrl row = .ok envelope := by
  simp only [tryDequeueRow, guard_lossless, Succeeds]
  cases hnext : nextEntry now (db.queue.filter fun e => e.id ∉ locked) with
  | none => exact iff_of_true (fun _ _ => guard_lossless.mpr fun _ => lossless_of_refl) nofun
  | some e =>
      have he : e ∈ db.queue := (List.mem_filter.mp (mem_of_nextEntry hnext)).1
      dsimp only
      cases hread : e.read e.attemptCount with
      | error context =>
          refine iff_of_true (fun _ _ => lossless_of_refl) ?_
          rintro _ row ⟨⟩ ⟨-, -, ⟨n, hn⟩, -⟩
          rw [hread] at hn
          cases hn
      | ok currentAttempt =>
          simp only [guard_lossless]
          by_cases hover : 2 ^ 31 ≤ e.attemptCount + 1
          · rw [if_pos hover]
            refine iff_of_true (fun _ _ _ => lossless_of_refl) ?_
            rintro _ row ⟨⟩ ⟨-, -, -, -, hlt, -⟩
            omega
          · rw [if_neg hover, fetchEmail_lossless he]
            constructor
            · rintro h _ row ⟨⟩ ⟨hbegin, hfind, -, hclaim, -, hfetch⟩ hrow hlands
              exact h hbegin hfind hclaim hfetch row hrow hlands
            · intro h hbegin hfind hclaim hfetch row hrow hlands
              exact h e row rfl ⟨hbegin, hfind, ⟨_, hread⟩, hclaim, by omega, hfetch⟩ hrow hlands

end PostgresAdapter

end Catapulte
