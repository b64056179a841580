import Catapulte.Http.Events
import Catapulte.Survival

namespace Catapulte

open Async

variable {ι : Type} {a : Adapters} {jobs : ι → Job} {w w' : World} {calls : List (ι × Call Sys World)}
  {i j : ι} {op : Effect} {r : op.Reply} {heard : Bool} {uuid : Nat}

def drew : Call Sys World → Option Nat
  | ⟨_, .newUuid, uuid, _⟩ => some uuid
  | _ => none

abbrev Drew (uuid : Nat) (c : Call Sys World) : Prop := drew c = some uuid

/-- The row that a call stored in `lifecycle_events`. -/
def eventStored : Call Sys World → Option EventRow
  | ⟨w, .insertEvent uuid event, .ok (), _⟩ => some (w.eventRow uuid event)
  | _ => none

/-- The ids of the events are distinct, and all were drawn before. -/
structure World.EventsFresh (w : World) : Prop where
  nodup : (w.events.map EventRow.id).Nodup
  drawn : ∀ row ∈ w.events, row.id ≤ w.lastUuid

structure EventLog (w : World) (calls : List (ι × Call Sys World)) : Prop where
  fresh : w.EventsFresh
  drawn : ∀ {i uuid}, Did (Drew uuid) i calls → uuid ≤ w.lastUuid
  once : ∀ {i j uuid}, Did (Drew uuid) i calls → Did (Drew uuid) j calls → i = j
  stored : ∀ {i row}, Did (fun c => eventStored c = some row) i calls → row ∈ w.events

structure HoldsUuid (i : ι) (uuid : Nat) (w : World) (calls : List (ι × Call Sys World)) : Prop where
  drew : Did (Drew uuid) i calls
  notMem : uuid ∉ w.events.map EventRow.id

def EventLogTask (i : ι) : Stage → World → List (ι × Call Sys World) → Prop
  | .turn (.sendingDrawn _ uuid), w, calls | .turn (.closingDrawn _ _ uuid), w, calls
  | .submit (.announcing _ uuid), w, calls => HoldsUuid i uuid w calls
  | _, _, _ => True

def eventLog (a : Adapters) (jobs : ι → Job) : Outlines ι := outline a jobs EventLog EventLogTask

theorem holdsUuid_of_insertEvent {job : Job} {st st' : Stage} {event : LifecycleEvent}
    (hop : op = .insertEvent uuid event) (hm : JobMoves a job st op r st') (ht : EventLogTask i st w calls) :
    HoldsUuid i uuid w calls := by
  subst hop
  cases hm with
  | submit hm => cases hm; exact ht
  | turn hm => cases hm <;> exact ht
  | sweep hm => cases hm

theorem HoldsUuid.keep (h : HoldsUuid j uuid w calls) (hp : Performs w op w' r)
    (hne : ∀ uuid' event, op = .insertEvent uuid' event → uuid' ≠ uuid) :
    HoldsUuid j uuid w' (calls ++ [(i, ⟨w, op, r, heard⟩)]) := by
  refine ⟨h.drew.append _, fun hmem => ?_⟩
  rcases hp.events with hev | ⟨uuid', event, rfl, hev⟩
  · exact h.notMem (hev ▸ hmem)
  · rw [hev, List.map_append, List.mem_append] at hmem
    rcases hmem with hmem | hmem
    · exact h.notMem hmem
    · exact hne uuid' event rfl (List.mem_singleton.mp hmem).symm

theorem EventLog.snoc {job : Job} {st st' : Stage} (h : EventLog w calls) (hp : Performs w op w' r)
    (hm : JobMoves a job st op r st') (ht : EventLogTask i st w calls) :
    EventLog w' (calls ++ [(i, ⟨w, op, r, heard⟩)]) := by
  have hfresh : w'.EventsFresh := by
    rcases hp.events with hev | ⟨uuid, event, rfl, hev⟩
    · refine ⟨hev ▸ h.fresh.nodup, fun row hrow => ?_⟩
      exact Nat.le_trans (h.fresh.drawn row (hev ▸ hrow)) hp.lastUuid_le
    · have hholds : HoldsUuid i uuid w calls := holdsUuid_of_insertEvent rfl hm ht
      refine ⟨?_, fun row hrow => ?_⟩
      · rw [hev, List.map_append]
        refine List.nodup_append.mpr ⟨h.fresh.nodup, List.nodup_singleton _, ?_⟩
        rintro x hx y hy rfl
        have hid : x = uuid := List.mem_singleton.mp hy
        exact hholds.notMem (hid ▸ hx)
      · rw [hev, List.mem_append] at hrow
        rcases hrow with hrow | hrow
        · exact Nat.le_trans (h.fresh.drawn row hrow) hp.lastUuid_le
        · obtain rfl := List.mem_singleton.mp hrow
          exact Nat.le_trans (h.drawn hholds.drew) hp.lastUuid_le
  have hnew {uuid : Nat} (hd : Drew uuid ⟨w, op, r, heard⟩) : w.lastUuid < uuid ∧ uuid ≤ w'.lastUuid := by
    cases hp with
    | newUuid hlt =>
        cases hd
        exact ⟨hlt, Nat.le_refl _⟩
    | _ => cases hd
  refine ⟨hfresh, fun {k uuid} hd => ?_, fun {k l uuid} hk hl => ?_, fun {k row} hd => ?_⟩
  · rcases did_snoc.mp hd with hd | ⟨-, hd⟩
    · exact Nat.le_trans (h.drawn hd) hp.lastUuid_le
    · exact (hnew hd).2
  · rcases did_snoc.mp hk with hk' | ⟨rfl, hk'⟩ <;> rcases did_snoc.mp hl with hl' | ⟨rfl, hl'⟩
    · exact h.once hk' hl'
    · exact absurd (h.drawn hk') (Nat.not_le.mpr (hnew hl').1)
    · exact absurd (h.drawn hl') (Nat.not_le.mpr (hnew hk').1)
    · rfl
  · have hkept : ∀ row ∈ w.events, row ∈ w'.events := by
      intro row hrow
      rcases hp.events with hev | ⟨uuid, event, -, hev⟩
      · exact hev ▸ hrow
      · exact hev ▸ List.mem_append_left _ hrow
    rcases did_snoc.mp hd with hd | ⟨-, hd⟩
    · exact hkept row (h.stored hd)
    · cases hp with
      | insertEvent hrow hs =>
          cases hs with
          | ok =>
              cases hd
              exact List.mem_append_right _ List.mem_cons_self
          | failed | landed => cases hd
      | _ => cases hd

theorem EventLog.draw (h : EventLog w calls) (hlt : w.lastUuid < uuid) :
    HoldsUuid i uuid { w with lastUuid := uuid } (calls ++ [(i, ⟨w, .newUuid, uuid, true⟩)]) := by
  refine ⟨did_snoc_self.mpr (.inr rfl), fun hmem => ?_⟩
  obtain ⟨row, hrow, rfl⟩ := List.mem_map.mp hmem
  exact absurd (h.fresh.drawn row hrow) (Nat.not_le.mpr hlt)

theorem EventLogTask.mono {st : Stage} {calls' : List (ι × Call Sys World)} (h : EventLogTask j st w calls)
    (hkeep : ∀ {uuid}, HoldsUuid j uuid w calls → HoldsUuid j uuid w' calls') : EventLogTask j st w' calls' := by
  cases st with
  | turn st =>
      cases st with
      | sendingDrawn | closingDrawn => exact hkeep h
      | _ => trivial
  | submit st =>
      cases st with
      | announcing => exact hkeep h
      | _ => trivial
  | sweep => trivial

theorem EventLog.submitted {id : EmailId} {input : SubmitEmailInput} {st st' : SubmitStage} (h : EventLog w calls)
    (hp : Performs w op w' r) (hm : SubmitMoves a id input st op r st') :
    EventLogTask i (.submit st') w' (calls ++ [(i, ⟨w, op, r, true⟩)]) := by
  cases hm with
  | drawn =>
      cases hp with
      | newUuid hlt => exact h.draw hlt
  | @insertOrIgnore r | @insertOnConflict r =>
      cases r with
      | error e => trivial
      | ok n =>
          simp only [SubmitStage.afterInsert]
          split
          · trivial
          · split <;> trivial
  | _ => trivial

theorem EventLog.turned {st st' : TurnStage} (h : EventLog w calls) (hp : Performs w op w' r)
    (hm : TurnMoves a st op r st') : EventLogTask i (.turn st') w' (calls ++ [(i, ⟨w, op, r, true⟩)]) := by
  cases hm with
  | sendingDrawn | sentDrawn | closingDrawn =>
      cases hp with
      | newUuid hlt => exact h.draw hlt
  | @received r | @committed _ r => cases r <;> trivial
  | @read _ r => cases r <;> trivial
  | @claimed _ r =>
      cases r with
      | none => trivial
      | some row =>
          simp only [TurnStage.afterClaim]
          split <;> trivial
  | @processed _ r =>
      cases r with
      | ok => trivial
      | error =>
          simp only [TurnStage.afterProcess]
          split <;> trivial
  | @acked _ outcome | @removed _ outcome => cases outcome <;> trivial
  | _ => trivial

theorem EventLog.drift {e : Drift} (h : EventLog w calls) (hd : Drifts w e w') : EventLog w' calls where
  fresh := ⟨hd.events ▸ h.fresh.nodup, fun row hrow => hd.lastUuid ▸ h.fresh.drawn row (hd.events ▸ hrow)⟩
  drawn hdrew := hd.lastUuid ▸ h.drawn hdrew
  once := h.once
  stored hdid := hd.events ▸ h.stored hdid

theorem eventLog_keeps {s : System ι} {act : Act ι} (h : (eventLog a jobs).Holds s) :
    (eventLog a jobs).Keeps machine s act where
  shared hl hm ht := h.1.snoc (lands_performs hl) hm ht
  own := by
    intro i op w r st st' hl hm ht
    have hmoves : JobMoves a (jobs i) st op r st' := hm
    clear hm
    generalize jobs i = job at hmoves
    cases hmoves with
    | submit hsubmit => exact h.1.submitted (lands_performs hl) hsubmit
    | turn hturn => exact h.1.turned (lands_performs hl) hturn
    | sweep => trivial
  other := by
    intro i op w r heard st st' hl hm ht j stj p hji hj hf htj
    refine EventLogTask.mono htj fun hholds => hholds.keep (lands_performs hl) fun uuid' event hop => ?_
    rintro rfl
    exact hji (h.1.once hholds.drew (holdsUuid_of_insertEvent hop hm ht).drew)
  drift := by
    intro e w hdrift
    have hdr := drifts hdrift
    exact ⟨h.1.drift hdr, fun hj => EventLogTask.mono hj fun hholds => ⟨hholds.drew, hdr.events ▸ hholds.notMem⟩⟩

theorem eventLog_start (hw : w.EventsFresh) : (eventLog a jobs).Holds (System.start a w jobs) := by
  refine outline_start ⟨hw, fun hd => absurd hd did_nil, fun hd => absurd hd did_nil,
    fun hd => absurd hd did_nil⟩ fun i => ?_
  cases jobs i <;> trivial

theorem eventLog_run [DecidableEq ι] {s s' : System ι} {as : List (Act ι)} (h : (eventLog a jobs).Holds s)
    (hr : s.run machine as = some s') : (eventLog a jobs).Holds s' :=
  Pool.run_invariant (fun h hs => Pool.Outline.step h eventLog_keeps hs) h hr

theorem events_prefix_of_step {s s' : System ι} [DecidableEq ι] {act : Act ι} (hs : Pool.Step machine s act s') :
    s.world.events <+: s'.world.events := by
  rcases storing_of_step hs with h | ⟨row, -, h⟩
  · exact h.symm ▸ List.prefix_rfl
  · exact h ▸ List.prefix_append _ _

theorem events_prefix_of_run {s s' : System ι} [DecidableEq ι] {as : List (Act ι)} (hr : s.run machine as = some s') :
    s.world.events <+: s'.world.events :=
  Pool.run_invariant (J := fun t => s.world.events <+: t.world.events) (fun h hs => h.trans (events_prefix_of_step hs))
    List.prefix_rfl hr

section Client

variable [DecidableEq ι] {uuids : UuidLibrary} {backend : StorageAdapter} {route : EventsRoute} {query : ListEventsQuery}
  {params : ListEventsParams} {s t : System ι} {offset : Nat} {responses : List ListEventsResponse}

def EventRow.dto (uuids : UuidLibrary) (row : EventRow) : EventRecordDto :=
  EventRecordDto.ofRecord uuids (rowToEventRecord row)

/-- A client asks for page after page while the system goes on, until a page is short. -/
inductive Pages (uuids : UuidLibrary) (backend : StorageAdapter) (route : EventsRoute) (query : ListEventsQuery) :
    System ι → Nat → List ListEventsResponse → System ι → Prop
  | last {s : System ι} {offset : Nat} {response : ListEventsResponse}
      (h : route.handle uuids (backend.eventRepository s.world) { query with offset := some offset } = .ok response)
      (hshort : response.events.length < response.limit) : Pages uuids backend route query s offset [response] s
  | next {s s' t : System ι} {offset : Nat} {response : ListEventsResponse} {responses : List ListEventsResponse}
      (as : List (Act ι))
      (h : route.handle uuids (backend.eventRepository s.world) { query with offset := some offset } = .ok response)
      (hr : s.run machine as = some s') (hrest : Pages uuids backend route query s' (offset + response.limit) responses t) :
      Pages uuids backend route query s offset (response :: responses) t

theorem handle_page {w : World} {response : ListEventsResponse} (hparams : route.params uuids query = .ok params)
    (h : route.handle uuids (backend.eventRepository w) { query with offset := some offset } = .ok response) :
    response.limit = params.limit ∧ ∃ page, response.events = page.map (EventRow.dto uuids) ∧
      Sql.Page newestFirst (w.events.filter params.selects) params.limit offset page := by
  obtain ⟨params', hparams', hrespond⟩ := handle_eq_ok h
  rw [params_offset hparams offset] at hparams'
  obtain rfl := Except.ok.inj hparams'
  rw [respond, listEvents_eq] at hrespond
  obtain rfl := Except.ok.inj hrespond
  refine ⟨rfl, _, ?_, selectEvents_page w { params with offset }⟩
  exact List.map_map

theorem Pages.grows (h : Pages uuids backend route query s offset responses t) : s.world.events <+: t.world.events := by
  induction h with
  | last => exact List.prefix_rfl
  | next as h hr hrest ih => exact (events_prefix_of_run hr).trans ih

theorem Pages.reads (hparams : route.params uuids query = .ok params)
    (h : Pages uuids backend route query s offset responses t) (hlog : (eventLog a jobs).Holds s) : ∃ pages : List (List EventRow),
      Sql.Reads newestFirst params.limit (s.world.events.filter params.selects) offset pages ∧
      responses.map ListEventsResponse.events = pages.map (List.map (EventRow.dto uuids)) ∧
      ∀ page ∈ pages, ∀ row ∈ page, row ∈ t.world.events ∧ params.selects row = true := by
  have hkeyed {s : System ι} (hlog : (eventLog a jobs).Holds s) :
      Sql.Keyed newestFirst (s.world.events.filter params.selects) := (Sql.keyed_descending hlog.1.fresh.nodup).filter _
  have hselected {w : World} {offset : Nat} {page : List EventRow}
      (hpage : Sql.Page newestFirst (w.events.filter params.selects) params.limit offset page) :
      ∀ row ∈ page, row ∈ w.events ∧ params.selects row = true := by
    intro row hrow
    obtain ⟨out, hout, rfl⟩ := hpage
    exact List.mem_filter.mp (hout.perm.subset (List.mem_of_mem_drop (List.mem_of_mem_take hrow)))
  induction h with
  | @last s offset response h hshort =>
      obtain ⟨hlimit, page, hevents, hpage⟩ := handle_page hparams h
      rw [hlimit, hevents, List.length_map] at hshort
      refine ⟨[page], .last (hkeyed hlog) hpage hshort, ?_, fun page' hpage' => ?_⟩
      · rw [List.map_cons, List.map_nil, hevents, List.map_cons, List.map_nil]
      · obtain rfl := List.mem_singleton.mp hpage'
        exact hselected hpage
  | @next s s' t offset response responses as h hr hrest ih =>
      obtain ⟨hlimit, page, hevents, hpage⟩ := handle_page hparams h
      obtain ⟨pages, hreads, hmap, hrows⟩ := ih (eventLog_run hlog hr)
      rw [hlimit] at hreads
      refine ⟨page :: pages, ?_, ?_, fun page' hpage' => ?_⟩
      · exact .next (hkeyed hlog) hpage ((events_prefix_of_run hr).sublist.filter _) hreads
      · rw [List.map_cons, List.map_cons, hmap, hevents]
      · rcases List.mem_cons.mp hpage' with rfl | hpage'
        · intro row hrow
          obtain ⟨hmem, hsel⟩ := hselected hpage row hrow
          exact ⟨((events_prefix_of_run hr).trans hrest.grows).subset hmem, hsel⟩
        · exact hrows page' hpage'

/-- However the system goes on between the requests, the pages of a query have every event that
was published before the first one and that the query selects, and only stored events. -/
theorem feed_complete {as : List (Act ι)} {w : World} (hw : w.EventsFresh) (hr : Reaches a w jobs as s)
    (hparams : route.params uuids query = .ok params) (h : Pages uuids backend route query s 0 responses t) :
    (∀ i row, Did (fun c => eventStored c = some row) i s.calls → params.selects row = true →
      ∃ response ∈ responses, row.dto uuids ∈ response.events) ∧
    ∀ response ∈ responses, ∀ dto ∈ response.events, ∃ row ∈ t.world.events,
      params.selects row = true ∧ dto = row.dto uuids := by
  have hlog : (eventLog a jobs).Holds s := eventLog_run (eventLog_start hw) hr
  obtain ⟨pages, hreads, hmap, hrows⟩ := h.reads hparams hlog
  refine ⟨fun i row hd hsel => ?_, fun response hresponse dto hdto => ?_⟩
  · obtain ⟨page, hpage, hmem⟩ := hreads.mem (List.mem_filter.mpr ⟨hlog.1.stored hd, hsel⟩) (Nat.zero_le _)
    have hevents : page.map (EventRow.dto uuids) ∈ responses.map ListEventsResponse.events :=
      hmap ▸ List.mem_map_of_mem hpage
    obtain ⟨response, hresponse, heq⟩ := List.mem_map.mp hevents
    exact ⟨response, hresponse, heq ▸ List.mem_map_of_mem hmem⟩
  · have hevents : response.events ∈ pages.map (List.map (EventRow.dto uuids)) := hmap ▸ List.mem_map_of_mem hresponse
    obtain ⟨page, hpage, heq⟩ := List.mem_map.mp hevents
    obtain ⟨row, hrow, rfl⟩ := List.mem_map.mp (heq ▸ hdto)
    obtain ⟨hmem, hsel⟩ := hrows page hpage row hrow
    exact ⟨row, hmem, hsel, rfl⟩

end Client

def oneByOne : ListEventsQuery := ⟨none, none, none, none, none, none, some 1, none⟩

def decimalUuids : UuidLibrary := ⟨fun _ => none, Nat.repr⟩

/-- The turn begins after the first page was read: its Sending event moves the Queued event to the second page. -/
theorem feed_complete_moved : ∃ s t responses params,
    Reaches sqliteOnly .empty attachedEmail (enqueuing ++ announcing 2) s ∧
    EventsRoute.all.params decimalUuids oneByOne = .ok params ∧
    Pages decimalUuids .sqlite .all oneByOne s 0 responses t ∧ responses.length = 3 ∧
    (∀ i row, Did (fun c => eventStored c = some row) i s.calls → params.selects row = true →
      ∃ response ∈ responses, row.dto decimalUuids ∈ response.events) ∧
    ∀ response ∈ responses, ∀ dto ∈ response.events, ∃ row ∈ t.world.events,
      params.selects row = true ∧ dto = row.dto decimalUuids := by
  have hrun : ∃ s t responses params, Reaches sqliteOnly .empty attachedEmail (enqueuing ++ announcing 2) s ∧
      EventsRoute.all.params decimalUuids oneByOne = .ok params ∧
      Pages decimalUuids .sqlite .all oneByOne s 0 responses t ∧ responses.length = 3 :=
    ⟨_, _, _, _, rfl, rfl, .next (executing 1 3 (.ok ⟨"smtp"⟩)) rfl rfl
      (.next [] rfl rfl (.last rfl (by decide))), rfl⟩
  obtain ⟨s, t, responses, params, hr, hparams, hpages, hlength⟩ := hrun
  have hfresh : World.empty.EventsFresh := ⟨List.nodup_nil, fun row hrow => absurd hrow List.not_mem_nil⟩
  exact ⟨s, t, responses, params, hr, hparams, hpages, hlength, feed_complete hfresh hr hparams hpages⟩

end Catapulte
