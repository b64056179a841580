import Catapulte.Sql.Select
import Catapulte.Storage.Adapters

namespace Catapulte

namespace ErrorClass

/-- The error is `UnknownErrorClass`, with the text. -/
def fromStr (s : String) : Except String ErrorClass :=
  match s with
  | "template_resolve" => .ok .templateResolve
  | "template_interpolate" => .ok .templateInterpolate
  | "template_render" => .ok .templateRender
  | "attachment" => .ok .attachment
  | "delivery" => .ok .delivery
  | "routing" => .ok .routing
  | _ => .error s

theorem fromStr_asStr (ec : ErrorClass) : fromStr ec.asStr = .ok ec := by
  cases ec <;> rfl

theorem asStr_of_fromStr {s : String} {ec : ErrorClass} (h : fromStr s = .ok ec) : ec.asStr = s := by
  unfold fromStr at h
  split at h <;> cases h <;> rfl

end ErrorClass

structure ListEventsParams where
  emailId : Option EmailId
  eventType : Option String
  senderName : Option String
  errorClass : Option ErrorClass
  afterMs : Option Int
  beforeMs : Option Int
  limit : Nat
  offset : Nat

structure EventRecord where
  id : Nat
  emailId : EmailId
  eventType : String
  payload : Option Json
  senderName : Option SenderName
  errorClass : Option String
  createdAtMs : Int

inductive EventRepositoryError
  | storage (source : String)
  deriving DecidableEq, Repr

structure EventRepository where
  listEvents : ListEventsParams → Except EventRepositoryError (List EventRecord)

/-- The conditions that `list_events` pushes. -/
def ListEventsParams.selects (params : ListEventsParams) (row : EventRow) : Bool :=
  params.emailId.all (fun emailId => row.emailId = emailId) &&
  params.eventType.all (fun eventType => row.eventType = eventType) &&
  params.senderName.all (fun senderName => row.senderName = some senderName) &&
  params.errorClass.all (fun errorClass => row.errorClass = some errorClass.asStr) &&
  params.afterMs.all (fun after => after < row.createdAt) &&
  params.beforeMs.all (fun before => row.createdAt < before)

def rowToEventRecord (row : EventRow) : EventRecord where
  id := row.id
  emailId := row.emailId
  eventType := row.eventType
  payload := some row.payload
  senderName := row.senderName.map SenderName.mk
  errorClass := row.errorClass
  createdAtMs := row.createdAt

/-- `ORDER BY created_at DESC, id DESC`. -/
abbrev newestFirst : EventRow → EventRow → Prop := Sql.Descending EventRow.createdAt EventRow.id

def World.selectEvents (w : World) (params : ListEventsParams) : List EventRow :=
  (((w.events.filter params.selects).insertionSort newestFirst).drop params.offset).take params.limit

def SqliteAdapter.listEvents (w : World) (params : ListEventsParams) : Except EventRepositoryError (List EventRecord) :=
  .ok ((w.selectEvents params).map rowToEventRecord)

def PostgresAdapter.listEvents (w : World) (params : ListEventsParams) : Except EventRepositoryError (List EventRecord) :=
  .ok ((w.selectEvents params).map rowToEventRecord)

def StorageAdapter.eventRepository (w : World) : StorageAdapter → EventRepository
  | sqlite => ⟨SqliteAdapter.listEvents w⟩
  | postgres => ⟨PostgresAdapter.listEvents w⟩

/-- The use case hands the parameters on. -/
def ListEventsService.execute (repo : EventRepository) (params : ListEventsParams) :
    Except EventRepositoryError (List EventRecord) := repo.listEvents params

theorem listEvents_eq (backend : StorageAdapter) (w : World) (params : ListEventsParams) :
    ListEventsService.execute (backend.eventRepository w) params = .ok ((w.selectEvents params).map rowToEventRecord) := by
  cases backend <;> rfl

theorem selectEvents_page (w : World) (params : ListEventsParams) :
    Sql.Page newestFirst (w.events.filter params.selects) params.limit params.offset (w.selectEvents params) :=
  ⟨_, Sql.ordered_insertionSort _, rfl⟩

end Catapulte
