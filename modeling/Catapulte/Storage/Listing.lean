import Mathlib.Data.List.Sort
import Catapulte.Sql.Like
import Catapulte.Storage.World

namespace Catapulte

/-- `text LIKE pattern` of SQLite: ASCII letters match in either case, there is no escape, and
both texts end at a NUL. -/
def like (pattern text : List Char) : Bool :=
  Sql.accepts (Sql.sameUnder Char.toLower) (Sql.tokens none (Sql.cString pattern)) (Sql.cString text)

def BodySource.template : BodySource → Option String
  | .mjml (.named name) => some name
  | _ => none

namespace EmailStatus

def ofEventType (latestEventType : String) : EmailStatus :=
  if latestEventType = "delivery.succeeded" then sent
  else if latestEventType = "delivery.failed" then failed
  else queued

def admits (latestEventType : String) : EmailStatus → Bool
  | sent => latestEventType = "delivery.succeeded"
  | failed => latestEventType = "delivery.failed"
  | queued => latestEventType ≠ "delivery.succeeded" && latestEventType ≠ "delivery.failed"

theorem admits_iff (status : EmailStatus) (latestEventType : String) :
    status.admits latestEventType = true ↔ ofEventType latestEventType = status := by
  unfold ofEventType
  split
  · subst latestEventType
    cases status <;> simp [admits]
  · rename_i hsent
    split
    · subst latestEventType
      cases status <;> simp [admits]
    · rename_i hfailed
      cases status <;> simp [admits, hsent, hfailed]

end EmailStatus

namespace SqliteAdapter

def listed (params : ListEmailsParams) (row : EmailRow) (latestEventType : String) : Bool :=
  params.id.all (fun id => row.id = id) &&
  params.afterMs.all (fun after => after < row.createdAt) &&
  params.beforeMs.all (fun before => row.createdAt < before) &&
  params.recipient.all (fun recipient => row.envelope.recipients.any fun (_, address) =>
    like (Sql.within recipient.toList) address.toList) &&
  params.template.all (fun template => row.envelope.body.template = some template) &&
  params.status.all (·.admits latestEventType)

/-- `ORDER BY created_at_ms DESC, id DESC`. -/
def newer (a b : EmailRow) : Prop :=
  b.createdAt < a.createdAt ∨ (a.createdAt = b.createdAt ∧ b.id.uuid ≤ a.id.uuid)

instance : DecidableRel newer := fun _ _ => inferInstanceAs (Decidable (_ ∨ _))

def toEmailRecord (w : World) (row : EmailRow) : EmailRecord where
  id := row.id
  idempotencyKey := row.envelope.idempotencyKey
  subject := row.envelope.subject
  sender := row.envelope.sender
  recipients := row.envelope.recipients
  createdAtMs := row.createdAt
  status := .ofEventType (w.latestEventType row.id)

def listEmails (w : World) (params : ListEmailsParams) : List EmailRecord :=
  let rows := w.emails.filter fun row => listed params row (w.latestEventType row.id)
  (((rows.insertionSort newer).drop params.offset).take params.limit).map (toEmailRecord w)

variable {w : World} {params : ListEmailsParams} {record : EmailRecord}

theorem status_of_mem (h : record ∈ listEmails w params) :
    record.status = .ofEventType (w.latestEventType record.id) := by
  obtain ⟨row, -, rfl⟩ := List.mem_map.mp h
  rfl

theorem listEmails_by_id {row : EmailRow} (hrow : row ∈ w.emails) (hid : params.id = some row.id)
    (hall : params.afterMs = none ∧ params.beforeMs = none ∧ params.recipient = none ∧
      params.template = none ∧ params.status = none) (hlimit : 0 < params.limit)
    (hoffset : params.offset = 0) : ∃ record ∈ listEmails w params, record.id = row.id := by
  obtain ⟨hafter, hbefore, hrecipient, htemplate, hstatus⟩ := hall
  have hlisted : ∀ row', listed params row' (w.latestEventType row'.id) = decide (row'.id = row.id) := by
    intro row'
    simp [listed, hid, hafter, hbefore, hrecipient, htemplate, hstatus]
  obtain ⟨limit, hlimit⟩ := Nat.exists_eq_succ_of_ne_zero (Nat.ne_of_gt hlimit)
  have hmem : row ∈ (w.emails.filter fun row => listed params row (w.latestEventType row.id)).insertionSort
      newer := by
    rw [List.mem_insertionSort, List.mem_filter]
    exact ⟨hrow, by rw [hlisted]; exact decide_eq_true rfl⟩
  cases hsort : (w.emails.filter fun row => listed params row (w.latestEventType row.id)).insertionSort
      newer with
  | nil => rw [hsort] at hmem; cases hmem
  | cons first rest =>
      have hfirst : first ∈ w.emails.filter fun row => listed params row (w.latestEventType row.id) := by
        rw [← List.mem_insertionSort newer, hsort]
        exact List.mem_cons_self
      rw [List.mem_filter, hlisted, decide_eq_true_eq] at hfirst
      refine ⟨toEmailRecord w first, List.mem_map_of_mem ?_, hfirst.2⟩
      simp only [hsort, hoffset, hlimit, List.drop_zero, List.take_succ_cons]
      exact List.mem_cons_self

end SqliteAdapter

end Catapulte
