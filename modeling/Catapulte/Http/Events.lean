import Catapulte.Storage.Events

namespace Catapulte

/-- `AppError` as the two event routes return it. -/
inductive EventsError
  | invalidEmailId
  | invalidErrorClass
  | listEvents (e : EventRepositoryError)
  deriving DecidableEq, Repr

/-- `Uuid::parse_str` and `Uuid::to_string`. -/
structure UuidLibrary where
  parseStr : String → Option Nat
  toString : Nat → String

structure ListEventsQuery where
  emailId : Option String
  eventType : Option String
  senderName : Option String
  errorClass : Option String
  afterMs : Option Int
  beforeMs : Option Int
  limit : Option Nat
  offset : Option Nat

def defaultEventsLimit : Nat := 20

def maxEventsLimit : Nat := 100

structure EventRecordDto where
  id : String
  emailId : String
  eventType : String
  payload : Option Json
  senderName : Option String
  errorClass : Option String
  createdAtMs : Int

structure ListEventsResponse where
  events : List EventRecordDto
  limit : Nat
  offset : Nat

section Handlers

variable (uuids : UuidLibrary)

def EventRecordDto.ofRecord (r : EventRecord) : EventRecordDto where
  id := uuids.toString r.id
  emailId := uuids.toString r.emailId.uuid
  eventType := r.eventType
  payload := r.payload
  senderName := r.senderName.map SenderName.name
  errorClass := r.errorClass
  createdAtMs := r.createdAtMs

def parseErrorClass : Option String → Except EventsError (Option ErrorClass)
  | some s =>
      match ErrorClass.fromStr s with
      | .ok ec => .ok (some ec)
      | .error _ => .error .invalidErrorClass
  | none => .ok none

def parseEmailId (raw : String) : Except EventsError EmailId :=
  match uuids.parseStr raw with
  | some uuid => .ok ⟨uuid⟩
  | none => .error .invalidEmailId

/-- What both handlers make of the query, for the email id they have parsed. -/
def ListEventsQuery.params (query : ListEventsQuery) (emailId : Option EmailId) : Except EventsError ListEventsParams := do
  let errorClass ← parseErrorClass query.errorClass
  pure {
    emailId
    eventType := query.eventType
    senderName := query.senderName
    errorClass
    afterMs := query.afterMs
    beforeMs := query.beforeMs
    limit := min (query.limit.getD defaultEventsLimit) maxEventsLimit
    offset := query.offset.getD 0
  }

def respond (repo : EventRepository) (params : ListEventsParams) : Except EventsError ListEventsResponse :=
  match ListEventsService.execute repo params with
  | .error e => .error (.listEvents e)
  | .ok events => .ok ⟨events.map (EventRecordDto.ofRecord uuids), params.limit, params.offset⟩

/-- `GET /events` and `GET /emails/{email_id}/events`. -/
inductive EventsRoute
  | all
  | forEmail (emailId : String)

def EventsRoute.params : EventsRoute → ListEventsQuery → Except EventsError ListEventsParams
  | all, query => do
      let emailId ← query.emailId.mapM (parseEmailId uuids)
      query.params emailId
  | forEmail emailId, query => do
      let emailId ← parseEmailId uuids emailId
      query.params (some emailId)

def listEvents (repo : EventRepository) (query : ListEventsQuery) : Except EventsError ListEventsResponse := do
  respond uuids repo (← EventsRoute.all.params uuids query)

def listEventsForEmail (repo : EventRepository) (emailId : String) (query : ListEventsQuery) :
    Except EventsError ListEventsResponse := do
  respond uuids repo (← (EventsRoute.forEmail emailId).params uuids query)

def EventsRoute.handle (repo : EventRepository) (query : ListEventsQuery) : EventsRoute → Except EventsError ListEventsResponse
  | all => listEvents uuids repo query
  | forEmail emailId => listEventsForEmail uuids repo emailId query

variable {uuids} {route : EventsRoute} {query : ListEventsQuery} {params : ListEventsParams} {repo : EventRepository}
  {response : ListEventsResponse}

theorem handle_eq_ok (h : route.handle uuids repo query = .ok response) :
    ∃ params, route.params uuids query = .ok params ∧ respond uuids repo params = .ok response := by
  cases route <;> exact exists_of_bind_eq_ok h

theorem params_offset (h : route.params uuids query = .ok params) (offset : Nat) :
    route.params uuids { query with offset := some offset } = .ok { params with offset } := by
  have hparams {emailId : Option EmailId} (h : query.params emailId = .ok params) :
      ListEventsQuery.params { query with offset := some offset } emailId = .ok { params with offset } := by
    obtain ⟨errorClass, hec, h⟩ := exists_of_bind_eq_ok h
    cases h
    simp only [ListEventsQuery.params, hec]
    rfl
  cases route with
  | all =>
      obtain ⟨emailId, hid, h⟩ := exists_of_bind_eq_ok h
      simp only [EventsRoute.params, hid]
      exact hparams h
  | forEmail raw =>
      obtain ⟨emailId, hid, h⟩ := exists_of_bind_eq_ok h
      simp only [EventsRoute.params, hid]
      exact hparams h

end Handlers

end Catapulte
