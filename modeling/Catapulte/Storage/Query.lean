import Mathlib.Algebra.BigOperators.Group.List.Basic
import Mathlib.Algebra.Ring.Nat
import Catapulte.Sql.Select
import Catapulte.Storage.Columns
import Catapulte.Storage.Listing
import Catapulte.Storage.Tables

namespace Catapulte

structure StoredEmail extends EmailColumns where
  createdAt : Int

/-- The tables `emails` and `lifecycle_events` with their primary keys. -/
structure EmailStore where
  emails : List StoredEmail
  events : List EventRow
  emails_unique : (emails.map fun email => email.id.uuid).Nodup
  events_unique : (events.map EventRow.id).Nodup

/-- The operators on JSON and text by which the two databases differ: the search for an
address in `recipients`, and for the name of a template in `body`. A query with a refused text
fails, and so does the evaluation of a search that is too complex. -/
structure SqlEngine where
  recipientLike : Json → String → Bool
  templateNamed : Json → String → Bool
  refuses : String → Bool
  tooComplex : Json → String → Bool

/-- `json_extract` of a text. -/
def Json.text (name : String) : Json → Option String
  | .object members => (members.lookup name).bind Json.asString
  | _ => none

namespace SqliteAdapter

/-- `SQLITE_MAX_LIKE_PATTERN_LENGTH`, in bytes. -/
def maxLikePatternLength : Nat := 50000

def engine : SqlEngine where
  recipientLike recipients text := match recipients with
    | .array items => items.any fun item =>
        ((item.text "address").map fun address => like (Sql.within text.toList) address.toList).getD false
    | _ => false
  templateNamed body name := match body with
    | .object members => ((members.lookup "source").bind (Json.text "kind")) = some "mjml_named" ∧
        ((members.lookup "source").bind (Json.text "name")) = some name
    | _ => false
  refuses _ := false
  tooComplex recipients text := match recipients with
    | .array (_ :: _) => maxLikePatternLength < ("%" ++ text ++ "%").utf8ByteSize
    | _ => false

end SqliteAdapter

/-- A row of `email_status`. -/
structure StatusRow extends StoredEmail where
  latestEventType : String

namespace EmailStore

variable (store : EmailStore)

def SelectsLatest (id : EmailId) (eventType : String) : Prop :=
  ∃ page, Sql.Page (Sql.Descending EventRow.createdAt EventRow.id) (store.events.filter (fun e => e.emailId = id)) 1 0 page ∧
    eventType = (page.head?.map EventRow.eventType).getD "queued"

/-- `WITH email_status AS (...)`. -/
def SelectsStatus (status : List StatusRow) : Prop :=
  List.Forall₂ (fun email row => row.toStoredEmail = email ∧ store.SelectsLatest email.id row.latestEventType)
    store.emails status

end EmailStore

/-- The conditions that `list_emails` pushes. -/
def SqlEngine.selects (engine : SqlEngine) (params : ListEmailsParams) (row : StatusRow) : Bool :=
  params.id.all (fun id => row.id = id) &&
  params.afterMs.all (fun after => after < row.createdAt) &&
  params.beforeMs.all (fun before => row.createdAt < before) &&
  params.recipient.all (engine.recipientLike row.recipients) &&
  params.template.all (engine.templateNamed row.body) &&
  params.status.all (·.admits row.latestEventType)

def rowToEmailRecord (row : StatusRow) : Except String EmailRecord := do
  let some recipients := Json.asSeq RecipientDto.deserialize row.recipients | .error "reading recipients"
  pure {
    id := row.id
    idempotencyKey := row.idempotencyKey
    subject := row.subject
    sender := row.sender
    recipients := recipientsFromDto recipients
    createdAtMs := row.createdAt
    status := .ofEventType row.latestEventType }

/-- `ORDER BY created_at DESC, id DESC`. -/
def newest : StatusRow → StatusRow → Prop := Sql.Descending (fun row => row.createdAt) fun row => row.id.uuid

def SqlEngine.Refuses (engine : SqlEngine) (params : ListEmailsParams) : Prop :=
  (∃ text, params.recipient = some text ∧ engine.refuses text = true) ∨
    ∃ name, params.template = some name ∧ engine.refuses name = true

def SqlEngine.FailsIn (engine : SqlEngine) (params : ListEmailsParams) (row : StatusRow) : Prop :=
  ∃ text, params.recipient = some text ∧ engine.tooComplex row.recipients text = true

/-- What `list_emails` can return while the database answers. Nothing is said of the order in which
the conditions are evaluated: a row that meets the others is searched, any other row may be. -/
inductive EmailStore.Lists (store : EmailStore) (engine : SqlEngine) (params : ListEmailsParams) :
    Except EmailRepositoryError (List EmailRecord) → Prop
  | refused (h : engine.Refuses params) : Lists store engine params (.error (.storage "listing emails"))
  | failed {status : List StatusRow} {row : StatusRow} (hstatus : store.SelectsStatus status) (hrow : row ∈ status)
      (h : engine.FailsIn params row) : Lists store engine params (.error (.storage "listing emails"))
  | rows {status rows : List StatusRow} (hrefuses : ¬ engine.Refuses params) (hstatus : store.SelectsStatus status)
      (hruns : params.limit = 0 ∨ ∀ row ∈ status, engine.selects { params with recipient := none } row = true →
        ¬ engine.FailsIn params row)
      (hpage : Sql.Page newest (status.filter (engine.selects params)) params.limit params.offset rows) :
      Lists store engine params ((rows.mapM rowToEmailRecord).mapError .storage)

structure SqlEngine.Takes (engine : SqlEngine) (params : ListEmailsParams) : Prop where
  taken : ¬ engine.Refuses params
  simple : ∀ row, ¬ engine.FailsIn params row

/-- The loop of `list_all_attachment_blobs`: bodies that do not decode are skipped. -/
def blobsOfBodies (bodies : List Json) : List BlobRef :=
  bodies.flatMap fun body =>
    match EnvelopeBodyDtoDeser.deserialize body with
    | none => []
    | some deser => deser.split.2.map fun att => ⟨att.blob.backend, att.blob.key⟩

/-- What `list_all_attachment_blobs` can return when its query succeeds. -/
def EmailStore.ListsBlobs (store : EmailStore) (blobs : List BlobRef) : Prop :=
  ∃ status bodies, store.SelectsStatus status ∧
    List.Perm bodies ((status.filter fun row =>
      row.latestEventType ≠ "delivery.succeeded" ∧ row.latestEventType ≠ "delivery.failed").map fun row => row.body) ∧
    blobs = blobsOfBodies bodies

namespace EmailStore

def latestEventType (store : EmailStore) (id : EmailId) : String :=
  match latestEvent (store.events.filter (fun e => e.emailId = id)) with
  | none => "queued"
  | some e => e.eventType

def status (store : EmailStore) (id : EmailId) : EmailStatus := .ofEventType (store.latestEventType id)

def matching (store : EmailStore) (engine : SqlEngine) (params : ListEmailsParams) (email : StoredEmail) : Bool :=
  params.id.all (fun id => email.id = id) &&
  params.afterMs.all (fun after => after < email.createdAt) &&
  params.beforeMs.all (fun before => email.createdAt < before) &&
  params.recipient.all (engine.recipientLike email.recipients) &&
  params.template.all (engine.templateNamed email.body) &&
  params.status.all (fun status => store.status email.id = status)

/-- The recipients of every email decode. -/
def Decodes (store : EmailStore) : Prop :=
  ∀ email ∈ store.emails, ∃ recipients, Json.asSeq RecipientDto.deserialize email.recipients = some recipients

/-- The records of the matching emails, each once, the newest first. -/
def NewestFirst (store : EmailStore) (engine : SqlEngine) (params : ListEmailsParams) (records : List EmailRecord) : Prop :=
  (records.map fun record => record.id.uuid).Nodup ∧
  ∃ emails, Sql.Ordered (Sql.Descending (fun email => email.createdAt) fun email => email.id.uuid)
      (store.emails.filter (store.matching engine params)) emails ∧
    emails.mapM (fun email => rowToEmailRecord ⟨email, store.latestEventType email.id⟩) = .ok records

def Listing (store : EmailStore) (engine : SqlEngine) (params : ListEmailsParams) (records : List EmailRecord) : Prop :=
  ∃ pages : List (List EmailRecord), pages ≠ [] ∧
    (∀ (k : Nat) (page : List EmailRecord), pages[k]? = some page →
      store.Lists engine { params with offset := k * params.limit } (.ok page)) ∧
    (store.emails.filter (store.matching engine params)).length ≤ pages.length * params.limit ∧
    records = pages.flatten

/-- How many attachments of the body, if it decodes, are stored in the blob. -/
def attached (blob : BlobRef) (body : Json) : Nat :=
  match EnvelopeBodyDtoDeser.deserialize body with
  | some (.withAttachments _ attachments) =>
      attachments.countP fun att => att.blob.backend = blob.backend ∧ att.blob.key = blob.key
  | _ => 0

/-- How often an email needs the blob. -/
def keeps (store : EmailStore) (blob : BlobRef) (email : StoredEmail) : Nat :=
  if store.status email.id = .queued then attached blob email.body else 0

/-- Filter, records and live blobs see one status. -/
structure OneProjection (store : EmailStore) (engine : SqlEngine) : Prop where
  answers : ∀ params, engine.Takes params → ∃ records, ∀ result, store.Lists engine params result ↔ result = .ok records
  status : ∀ params records, store.Lists engine params (.ok records) →
    ∀ record ∈ records, record.status = store.status record.id ∧ ∀ status ∈ params.status, record.status = status
  partition : ∀ (params : ListEmailsParams) all, store.Listing engine { params with status := none } all →
    ∀ limit status records, store.Listing engine { params with status := some status, limit } records →
      records = all.filter fun record => record.status = status
  paging : ∀ params records, store.Listing engine params records → store.NewestFirst engine params records
  listed : ∃ blobs, store.ListsBlobs blobs
  blobs : ∀ blobs, store.ListsBlobs blobs → ∀ blob, blobs.count blob = (store.emails.map (store.keeps blob)).sum

variable {store : EmailStore} {engine : SqlEngine} {params : ListEmailsParams} {id : EmailId}

theorem eventType_of_page {page : List EventRow}
    (h : Sql.Page (Sql.Descending EventRow.createdAt EventRow.id) (store.events.filter (fun e => e.emailId = id)) 1 0 page) :
    (page.head?.map EventRow.eventType).getD "queued" = store.latestEventType id := by
  have hkeyed : Sql.Keyed (Sql.Descending EventRow.createdAt EventRow.id) (store.events.filter (fun e => e.emailId = id)) :=
    (Sql.keyed_descending store.events_unique).filter _
  obtain ⟨out, hout, rfl⟩ := h
  rw [List.drop_zero, latestEventType]
  cases hl : latestEvent (store.events.filter (fun e => e.emailId = id)) with
  | none =>
      have hnil := hout.perm
      rw [latestEvent_eq_none hl] at hnil
      rw [hnil.eq_nil]
      rfl
  | some l =>
      obtain ⟨hmem, hmax⟩ := latestEvent_spec hl
      cases out with
      | nil => exact absurd (hout.perm.symm.subset hmem) List.not_mem_nil
      | cons o out =>
          have ho := hout.perm.subset List.mem_cons_self
          have hfirst : Sql.Descending EventRow.createdAt EventRow.id o l := by
            rcases List.mem_cons.mp (hout.perm.symm.subset hmem) with rfl | htail
            · exact .inr ⟨rfl, Nat.le_refl _⟩
            · exact List.rel_of_pairwise_cons hout.sorted htail
          have hlast : Sql.Descending EventRow.createdAt EventRow.id l o := by
            have hlater := hmax o ho
            simp only [EventRow.later, decide_eq_false_iff_not] at hlater
            unfold Sql.Descending
            omega
          rw [hkeyed o ho l hmem hfirst hlast]
          rfl

theorem selectsLatest_iff {eventType : String} : store.SelectsLatest id eventType ↔ eventType = store.latestEventType id := by
  constructor
  · rintro ⟨page, hpage, rfl⟩
    exact eventType_of_page hpage
  · rintro rfl
    have hpage : Sql.Page (Sql.Descending EventRow.createdAt EventRow.id) (store.events.filter (fun e => e.emailId = id)) 1 0 _ :=
      ⟨_, Sql.ordered_insertionSort _, rfl⟩
    exact ⟨_, hpage, (eventType_of_page hpage).symm⟩

def statusRow (store : EmailStore) (email : StoredEmail) : StatusRow := ⟨email, store.latestEventType email.id⟩

theorem selectsStatus_iff {rows : List StatusRow} : store.SelectsStatus rows ↔ rows = store.emails.map store.statusRow := by
  have hrow {email : StoredEmail} {row : StatusRow} :
      (row.toStoredEmail = email ∧ store.SelectsLatest email.id row.latestEventType) ↔ row = store.statusRow email := by
    rw [selectsLatest_iff]
    constructor
    · rintro ⟨rfl, hlatest⟩
      exact congrArg (StatusRow.mk row.toStoredEmail) hlatest
    · rintro rfl
      exact ⟨rfl, rfl⟩
  rw [SelectsStatus]
  generalize store.emails = emails
  induction emails generalizing rows with
  | nil => rw [List.forall₂_nil_left_iff, List.map_nil]
  | cons email emails ih =>
      rw [List.map_cons, List.forall₂_cons_left_iff]
      constructor
      · rintro ⟨row, rest, hhead, htail, rfl⟩
        rw [hrow.mp hhead, ih.mp htail]
      · rintro rfl
        exact ⟨_, _, hrow.mpr rfl, ih.mpr rfl, rfl⟩

theorem selects_statusRow (email : StoredEmail) :
    engine.selects params (store.statusRow email) = store.matching engine params email := by
  have hstatus : params.status.all (·.admits (store.latestEventType email.id)) =
      params.status.all (fun status => store.status email.id = status) := by
    congr 1
    funext status
    rw [Bool.eq_iff_iff, EmailStatus.admits_iff, decide_eq_true_iff]
    rfl
  rw [matching, ← hstatus]
  rfl

theorem filter_selects : (store.emails.map store.statusRow).filter (engine.selects params) =
    (store.emails.filter (store.matching engine params)).map store.statusRow := by
  rw [List.filter_map]
  congr 2
  funext email
  exact selects_statusRow email

theorem keyed_statusRows : Sql.Keyed newest (store.emails.map store.statusRow) := by
  refine Sql.keyed_descending ?_
  rw [List.map_map]
  exact store.emails_unique

def record (store : EmailStore) (email : StoredEmail) : EmailRecord where
  id := email.id
  idempotencyKey := email.idempotencyKey
  subject := email.subject
  sender := email.sender
  recipients := recipientsFromDto ((Json.asSeq RecipientDto.deserialize email.recipients).getD [])
  createdAtMs := email.createdAt
  status := store.status email.id

theorem rowToEmailRecord_ok (hdecodes : store.Decodes) {email : StoredEmail} (hemail : email ∈ store.emails) :
    rowToEmailRecord (store.statusRow email) = .ok (store.record email) := by
  obtain ⟨recipients, hrecipients⟩ := hdecodes email hemail
  rw [rowToEmailRecord, record, statusRow]
  simp only [hrecipients, Option.getD_some]
  rfl

theorem mapM_rowToEmailRecord (hdecodes : store.Decodes) {emails : List StoredEmail} (h : ∀ email ∈ emails, email ∈ store.emails) :
    emails.mapM (fun email => rowToEmailRecord (store.statusRow email)) = .ok (emails.map store.record) := by
  induction emails with
  | nil => rfl
  | cons email emails ih =>
      rw [List.mapM_cons, rowToEmailRecord_ok hdecodes (h email List.mem_cons_self),
        ih fun email hemail => h email (List.mem_cons_of_mem _ hemail)]
      rfl

def ordered (store : EmailStore) (engine : SqlEngine) (params : ListEmailsParams) : List StoredEmail :=
  (store.emails.filter (store.matching engine params)).insertionSort
    (Sql.Descending (fun email => email.createdAt) fun email => email.id.uuid)

theorem ordered_spec : Sql.Ordered (Sql.Descending (fun email => email.createdAt) fun email => email.id.uuid)
    (store.emails.filter (store.matching engine params)) (store.ordered engine params) :=
  Sql.ordered_insertionSort _

theorem mem_of_mem_ordered {email : StoredEmail} (h : email ∈ store.ordered engine params) :
    email ∈ store.emails ∧ store.matching engine params email = true :=
  List.mem_filter.mp (ordered_spec.perm.subset h)

theorem ordered_statusRows : Sql.Ordered newest ((store.emails.map store.statusRow).filter (engine.selects params))
    ((store.ordered engine params).map store.statusRow) := by
  rw [filter_selects]
  exact ⟨ordered_spec.perm.map _, List.pairwise_map.mpr ordered_spec.sorted⟩

theorem page_records (hdecodes : store.Decodes) :
    (((((store.ordered engine params).map store.statusRow).drop params.offset).take params.limit).mapM rowToEmailRecord).mapError
        EmailRepositoryError.storage =
      .ok ((((store.ordered engine params).drop params.offset).take params.limit).map store.record) := by
  have hstored : ∀ email ∈ ((store.ordered engine params).drop params.offset).take params.limit, email ∈ store.emails :=
    fun email hemail => (mem_of_mem_ordered (List.mem_of_mem_drop (List.mem_of_mem_take hemail))).1
  rw [← List.map_drop, ← List.map_take, List.mapM_map]
  exact congrArg (Except.mapError EmailRepositoryError.storage) (mapM_rowToEmailRecord hdecodes hstored)

theorem lists_ok (hdecodes : store.Decodes) {records : List EmailRecord} (h : store.Lists engine params (.ok records)) :
    records = (((store.ordered engine params).drop params.offset).take params.limit).map store.record := by
  generalize hresult : Except.ok records = result at h
  cases h with
  | refused | failed => cases hresult
  | rows hrefuses hstatus hruns hpage =>
      obtain rfl := selectsStatus_iff.mp hstatus
      rw [hpage.eq (keyed_statusRows.filter _) ordered_statusRows, page_records hdecodes] at hresult
      exact Except.ok.inj hresult

theorem lists_page (hdecodes : store.Decodes) (htaken : ¬ engine.Refuses params)
    (hruns : params.limit = 0 ∨ ∀ email ∈ store.emails, store.matching engine { params with recipient := none } email = true →
      ¬ engine.FailsIn params (store.statusRow email)) :
    store.Lists engine params
      (.ok ((((store.ordered engine params).drop params.offset).take params.limit).map store.record)) := by
  rw [← page_records hdecodes]
  refine .rows htaken (selectsStatus_iff.mpr rfl) (hruns.imp_right fun hruns row hrow hselects => ?_)
    ⟨_, ordered_statusRows, rfl⟩
  obtain ⟨email, hemail, rfl⟩ := List.mem_map.mp hrow
  rw [selects_statusRow] at hselects
  exact hruns email hemail hselects

theorem Listing.taken {records : List EmailRecord} (h : store.Listing engine params records) : ¬ engine.Refuses params := by
  obtain ⟨pages, hne, hpages, -⟩ := h
  obtain ⟨page, pages, rfl⟩ := List.exists_cons_of_ne_nil hne
  have hfirst := hpages 0 page rfl
  generalize hresult : Except.ok page = result at hfirst
  cases hfirst with
  | refused | failed => cases hresult
  | rows htaken => exact htaken

theorem lists_iff (hdecodes : store.Decodes) (htakes : engine.Takes params)
    {result : Except EmailRepositoryError (List EmailRecord)} : store.Lists engine params result ↔
      result = .ok ((((store.ordered engine params).drop params.offset).take params.limit).map store.record) := by
  constructor
  · intro h
    cases result with
    | ok records => exact congrArg Except.ok (lists_ok hdecodes h)
    | error e =>
        generalize hresult : Except.error e = result at h
        cases h with
        | refused h => exact absurd h htakes.taken
        | failed _ _ h => exact absurd h (htakes.simple _)
        | rows hrefuses hstatus hruns hpage =>
            obtain rfl := selectsStatus_iff.mp hstatus
            rw [hpage.eq (keyed_statusRows.filter _) ordered_statusRows, page_records hdecodes] at hresult
            cases hresult
  · rintro rfl
    exact lists_page hdecodes htakes.taken (.inr fun email _ _ => htakes.simple _)

theorem listing_eq (hdecodes : store.Decodes) {records : List EmailRecord} (h : store.Listing engine params records) :
    records = (store.ordered engine params).map store.record := by
  obtain ⟨pages, -, hpages, henough, rfl⟩ := h
  have hflatten : pages.flatten = ((store.ordered engine params).map store.record).take (pages.length * params.limit) := by
    refine Sql.flatten_pages fun k page hk => ?_
    have hpage := lists_ok hdecodes (hpages k page hk)
    rwa [List.map_take, List.map_drop] at hpage
  rw [hflatten, List.take_of_length_le]
  rwa [List.length_map, ordered_spec.perm.length_eq]

theorem ordered_status (limit : Nat) (status : EmailStatus) :
    store.ordered engine { params with status := some status, limit } =
      (store.ordered engine { params with status := none }).filter fun email => store.status email.id = status := by
  have hmatching : store.emails.filter (store.matching engine { params with status := some status, limit }) =
      (store.emails.filter (store.matching engine { params with status := none })).filter
        fun email => store.status email.id = status := by
    rw [List.filter_filter]
    congr 1
    funext email
    simp only [matching, Option.all_some, Option.all_none, Bool.and_true]
    exact Bool.and_comm _ _
  have hkeyed : Sql.Keyed (Sql.Descending (fun email : StoredEmail => email.createdAt) fun email => email.id.uuid) store.emails :=
    Sql.keyed_descending store.emails_unique
  have hfilter : Sql.Ordered _ ((store.emails.filter (store.matching engine { params with status := none })).filter
      fun email => store.status email.id = status) _ := ordered_spec.filter _
  rw [← hmatching] at hfilter
  exact ordered_spec.unique (hkeyed.filter _) hfilter

theorem filter_queued : (store.emails.map store.statusRow).filter (fun row =>
      row.latestEventType ≠ "delivery.succeeded" ∧ row.latestEventType ≠ "delivery.failed") =
    (store.emails.filter fun email => store.status email.id = .queued).map store.statusRow := by
  rw [List.filter_map]
  congr 2
  funext email
  have hqueued := EmailStatus.admits_iff .queued (store.latestEventType email.id)
  rw [EmailStatus.admits, Bool.and_eq_true, decide_eq_true_iff, decide_eq_true_iff] at hqueued
  rw [Bool.eq_iff_iff, Function.comp_apply, decide_eq_true_iff, decide_eq_true_iff]
  exact hqueued

theorem count_blobsOfBodies (blob : BlobRef) (bodies : List Json) :
    (blobsOfBodies bodies).count blob = (bodies.map (attached blob)).sum := by
  rw [blobsOfBodies, List.count_flatMap]
  congr 2
  funext body
  rw [Function.comp_apply, attached]
  cases EnvelopeBodyDtoDeser.deserialize body with
  | none => rfl
  | some deser =>
      cases deser with
      | legacy dto => rfl
      | withAttachments dto attachments =>
          change (attachments.map _).count blob = _
          rw [List.count, List.countP_map]
          congr 1
          funext att
          obtain ⟨backend, key⟩ := blob
          rw [Function.comp_apply, Bool.eq_iff_iff, beq_iff_eq, decide_eq_true_iff]
          exact BlobRef.mk.injEq ..  ▸ Iff.rfl

theorem count_listed {blobs : List BlobRef} (h : store.ListsBlobs blobs) (blob : BlobRef) :
    blobs.count blob = (store.emails.map (store.keeps blob)).sum := by
  obtain ⟨status, bodies, hstatus, hbodies, rfl⟩ := h
  obtain rfl := selectsStatus_iff.mp hstatus
  rw [filter_queued, List.map_map] at hbodies
  rw [count_blobsOfBodies, (hbodies.map _).sum_eq, List.map_map]
  generalize store.emails = emails
  induction emails with
  | nil => rfl
  | cons email emails ih =>
      rw [List.map_cons, List.sum_cons, keeps, List.filter_cons, ← ih]
      by_cases hqueued : store.status email.id = .queued
      · rw [if_pos (decide_eq_true hqueued), if_pos hqueued]
        rfl
      · rw [if_neg (by simpa using hqueued), if_neg hqueued, Nat.zero_add]

theorem oneProjection (store : EmailStore) (engine : SqlEngine) (hdecodes : store.Decodes) : store.OneProjection engine where
  answers := fun params htakes => ⟨_, fun result => lists_iff hdecodes htakes⟩
  status := by
    rintro params records hrecords record hrecord
    obtain rfl := lists_ok hdecodes hrecords
    obtain ⟨email, hemail, rfl⟩ := List.mem_map.mp hrecord
    refine ⟨rfl, fun status hstatus => ?_⟩
    have hmatching := (mem_of_mem_ordered (List.mem_of_mem_drop (List.mem_of_mem_take hemail))).2
    rw [matching, Bool.and_eq_true, hstatus] at hmatching
    exact of_decide_eq_true hmatching.2
  partition := by
    intro params all hall limit status records hrecords
    rw [listing_eq hdecodes hall, listing_eq hdecodes hrecords, ordered_status, List.filter_map]
    rfl
  paging := by
    intro params records hrecords
    obtain rfl := listing_eq hdecodes hrecords
    refine ⟨?_, store.ordered engine params, ordered_spec, ?_⟩
    · rw [List.map_map, (ordered_spec.perm.map _).nodup_iff]
      exact store.emails_unique.sublist (List.filter_sublist.map _)
    · exact mapM_rowToEmailRecord hdecodes fun email hemail => (mem_of_mem_ordered hemail).1
  listed := ⟨_, _, _, selectsStatus_iff.mpr rfl, .refl _, rfl⟩
  blobs := fun blobs hblobs => count_listed hblobs

def toAda : Json := .array [.object [("kind", .string "to"), ("address", .string "ada@example.org")]]

def twiceAttached : Json :=
  (EnvelopeBodyDto.mk (.mjmlNamed "welcome") [⟨"a.pdf", "application/pdf", 4, ⟨"fs", "k1"⟩⟩, ⟨"b.pdf", "application/pdf", 4, ⟨"fs", "k1"⟩⟩]).serialize

/-- Four emails of one time: a queued one with attachments, one that was sent, one with two latest events of
one time, and one with a body that does not decode. -/
def tied : EmailStore where
  emails := [
    ⟨⟨⟨1⟩, none, none, none, "bob@example.org", toAda, twiceAttached, .object []⟩, 7⟩,
    ⟨⟨⟨2⟩, none, none, none, "bob@example.org", toAda, twiceAttached, .object []⟩, 7⟩,
    ⟨⟨⟨3⟩, some "key", none, some "hi", "bob@example.org", toAda, twiceAttached, .object []⟩, 7⟩,
    ⟨⟨⟨4⟩, none, none, none, "bob@example.org", toAda, .null, .object []⟩, 7⟩]
  events := [
    ⟨1, ⟨2⟩, "delivery.succeeded", .null, none, none, 8⟩,
    ⟨2, ⟨3⟩, "delivery.succeeded", .null, none, none, 9⟩,
    ⟨3, ⟨3⟩, "delivery.postponed", .null, none, none, 9⟩]
  emails_unique := by decide
  events_unique := by decide

theorem tied_decodes : tied.Decodes := by
  simp only [Decodes, tied, List.forall_mem_cons]
  exact ⟨⟨_, rfl⟩, ⟨_, rfl⟩, ⟨_, rfl⟩, ⟨_, rfl⟩, fun _ h => absurd h List.not_mem_nil⟩

theorem tied_oneProjection : tied.OneProjection SqliteAdapter.engine ∧
    (tied.emails.map (tied.keeps ⟨"fs", "k1"⟩)) = [2, 0, 2, 0] :=
  ⟨oneProjection tied SqliteAdapter.engine tied_decodes, by decide⟩

end EmailStore

namespace SqliteAdapter

theorem recipientLike_ofEnvelope (id : EmailId) (envelope : Envelope) (text : String) :
    engine.recipientLike (EmailColumns.ofEnvelope id envelope).recipients text =
      envelope.recipients.any fun (_, address) => like ('%' :: (text.toList ++ ['%'])) address.toList := by
  simp only [engine, EmailColumns.ofEnvelope, recipientsToDto, List.any_map]
  rfl

theorem templateNamed_ofEnvelope (id : EmailId) (envelope : Envelope) (name : String) :
    engine.templateNamed (EmailColumns.ofEnvelope id envelope).body name = decide (envelope.body.template = some name) := by
  obtain ⟨key, correlation, subject, sender, recipients, body, vars, attachments⟩ := envelope
  match body with
  | .plain p => simp [engine, EmailColumns.ofEnvelope, EnvelopeBodyDto.serialize, BodySourceDto.ofBodySource,
      BodySourceDto.serialize, BodySource.template, Json.text, List.lookup_cons]
  | .mjml (.inline source) => simp [engine, EmailColumns.ofEnvelope, EnvelopeBodyDto.serialize, BodySourceDto.ofBodySource,
      BodySourceDto.serialize, BodySource.template, Json.text, List.lookup_cons]
  | .mjml (.named name) => simp [engine, EmailColumns.ofEnvelope, EnvelopeBodyDto.serialize, BodySourceDto.ofBodySource,
      BodySourceDto.serialize, BodySource.template, Json.text, List.lookup_cons]
  | .mjml (.remote url) => simp [engine, EmailColumns.ofEnvelope, EnvelopeBodyDto.serialize, BodySourceDto.ofBodySource,
      BodySourceDto.serialize, BodySource.template, Json.text, List.lookup_cons]

end SqliteAdapter

def EmailRow.stored (row : EmailRow) : StoredEmail := ⟨.ofEnvelope row.id row.envelope, row.createdAt⟩

def World.store (w : World) (hemails : (w.emails.map fun row => row.id.uuid).Nodup) (hevents : (w.events.map EventRow.id).Nodup) :
    EmailStore where
  emails := w.emails.map EmailRow.stored
  events := w.events
  emails_unique := by rwa [List.map_map]
  events_unique := hevents

variable {w : World} {hemails : (w.emails.map fun row => row.id.uuid).Nodup} {hevents : (w.events.map EventRow.id).Nodup}

theorem asSeq_recipients (row : EmailRow) :
    Json.asSeq RecipientDto.deserialize row.stored.recipients = some (recipientsToDto row.envelope.recipients) := by
  have hseq := Json.asSeq_array (g := RecipientDto.serialize) (f := fun r => r)
    (recipientsToDto row.envelope.recipients) fun r _ => RecipientDto.deserialize_serialize r
  rwa [List.map_id'] at hseq

theorem World.store_decodes : (w.store hemails hevents).Decodes := by
  intro email hemail
  obtain ⟨row, -, rfl⟩ := List.mem_map.mp hemail
  exact ⟨_, asSeq_recipients row⟩

theorem World.matching_stored (hemails : (w.emails.map fun row => row.id.uuid).Nodup)
    (hevents : (w.events.map EventRow.id).Nodup) {params : ListEmailsParams} (row : EmailRow) :
    (w.store hemails hevents).matching SqliteAdapter.engine params row.stored =
      SqliteAdapter.listed params row (w.latestEventType row.id) := by
  rw [← EmailStore.selects_statusRow]
  simp only [SqlEngine.selects, SqliteAdapter.listed]
  congr 3
  · congr 1
    funext text
    exact SqliteAdapter.recipientLike_ofEnvelope row.id row.envelope text
  · funext name
    exact SqliteAdapter.templateNamed_ofEnvelope row.id row.envelope name

theorem World.lists_listEmails {params : ListEmailsParams} (htakes : SqliteAdapter.engine.Takes params) :
    (w.store hemails hevents).Lists SqliteAdapter.engine params (.ok (SqliteAdapter.listEmails w params)) := by
  have hrows : Sql.Ordered (Sql.Descending EmailRow.createdAt fun row => row.id.uuid)
      (w.emails.filter fun row => SqliteAdapter.listed params row (w.latestEventType row.id)) _ := Sql.ordered_insertionSort _
  have hfilter : (w.store hemails hevents).emails.filter ((w.store hemails hevents).matching SqliteAdapter.engine params) =
      (w.emails.filter fun row => SqliteAdapter.listed params row (w.latestEventType row.id)).map EmailRow.stored := by
    rw [World.store, List.filter_map]
    congr 2
    funext row
    exact World.matching_stored hemails hevents row
  have hordered : (w.store hemails hevents).ordered SqliteAdapter.engine params =
      ((w.emails.filter fun row => SqliteAdapter.listed params row (w.latestEventType row.id)).insertionSort
        SqliteAdapter.newer).map EmailRow.stored := by
    refine EmailStore.ordered_spec.unique ?_ ?_
    · exact (Sql.keyed_descending (w.store hemails hevents).emails_unique).filter _
    · rw [hfilter]
      exact ⟨hrows.perm.map _, List.pairwise_map.mpr hrows.sorted⟩
  have hrecord (row : EmailRow) : (w.store hemails hevents).record row.stored = SqliteAdapter.toEmailRecord w row := by
    have hseq : Json.asSeq RecipientDto.deserialize row.stored.recipients = some (recipientsToDto row.envelope.recipients) :=
      asSeq_recipients row
    rw [EmailStore.record, hseq, Option.getD_some, recipientsFromDto_recipientsToDto]
    rfl
  have hlist : SqliteAdapter.listEmails w params = ((((w.emails.filter fun row => SqliteAdapter.listed params row
      (w.latestEventType row.id)).insertionSort SqliteAdapter.newer).drop params.offset).take params.limit).map
        ((w.store hemails hevents).record ∘ EmailRow.stored) := by
    rw [show (w.store hemails hevents).record ∘ EmailRow.stored = SqliteAdapter.toEmailRecord w from funext hrecord]
    rfl
  rw [EmailStore.lists_iff World.store_decodes htakes, hordered, ← List.map_drop, ← List.map_take, List.map_map, hlist]

theorem World.listsBlobs_liveBlobs (hsize : ∀ row ∈ w.emails, ∀ a ∈ row.envelope.attachments, a.sizeBytes < 2 ^ 64) :
    (w.store hemails hevents).ListsBlobs w.liveBlobs := by
  have hqueued (row : EmailRow) : decide ((w.store hemails hevents).status row.stored.id = .queued) =
      decide (w.latestEventType row.id ≠ "delivery.succeeded" ∧ w.latestEventType row.id ≠ "delivery.failed") := by
    have hadmits := EmailStatus.admits_iff .queued (w.latestEventType row.id)
    rw [EmailStatus.admits, Bool.and_eq_true, decide_eq_true_iff, decide_eq_true_iff] at hadmits
    exact decide_eq_decide.mpr hadmits.symm
  have hfilter : (w.store hemails hevents).emails.filter (fun email => (w.store hemails hevents).status email.id = .queued) =
      (w.emails.filter fun row => w.latestEventType row.id ≠ "delivery.succeeded" ∧
        w.latestEventType row.id ≠ "delivery.failed").map EmailRow.stored := by
    rw [World.store, List.filter_map]
    congr 2
    exact funext hqueued
  refine ⟨_, _, EmailStore.selectsStatus_iff.mpr rfl, .refl _, ?_⟩
  rw [EmailStore.filter_queued, hfilter, List.map_map, List.map_map, blobsOfBodies, List.flatMap_map, World.liveBlobs]
  refine List.flatMap_congr fun row hrow => ?_
  have hbody : EnvelopeBodyDtoDeser.deserialize row.stored.body = _ :=
    EnvelopeBodyDtoDeser.deserialize_serialize (fits_ofAttachmentRef (hsize row (List.mem_of_mem_filter hrow)))
  simp only [Function.comp_apply, EmailStore.statusRow, hbody]
  change _ = (row.envelope.attachments.map AttachmentRefDto.ofAttachmentRef).map _
  rw [List.map_map]
  rfl

end Catapulte
