import Catapulte.Attempts
import Catapulte.Storage.SenderUsage

namespace Catapulte

open Async

/-- One stored publication: the drawn uuid, the event, and the time the insert took place. -/
structure Publication where
  uuid : Nat
  event : LifecycleEvent
  createdAt : Int

namespace Publication

def row (p : Publication) : EventRow where
  id := p.uuid
  emailId := p.event.emailId
  eventType := p.event.eventType
  payload := p.event.payload
  senderName := p.event.senderName.map SenderName.name
  errorClass := p.event.errorClass.map ErrorClass.asStr
  createdAt := p.createdAt

/-- A Sent event that carries the name, published inside the window. -/
def Sent (sinceMs : Int) (name : SenderName) (p : Publication) : Prop :=
  (∃ id correlationId, p.event = .sent id name correlationId) ∧ sinceMs ≤ p.createdAt

/-- A Failed event that carries the name, published inside the window. -/
def Failed (sinceMs : Int) (name : SenderName) (p : Publication) : Prop :=
  (∃ id attempt reason errorClass correlationId,
    p.event = .failed id attempt reason errorClass (some name) correlationId) ∧ sinceMs ≤ p.createdAt

end Publication

variable {sinceMs nowMs : Int} {name : SenderName} {names : List SenderName} {p : Publication}
  {history : List Publication} {w : World} {c : Choice}

theorem senderName_column {senderName : Option SenderName} :
    senderName.map SenderName.name = some name.name ↔ senderName = some name := by
  cases senderName with
  | none => simp
  | some other => cases other; cases name; simp

theorem sent_iff : p.Sent sinceMs name ↔ (p.row.eventType = "delivery.succeeded" ∧
    p.row.senderName = some name.name) ∧ sinceMs ≤ p.row.createdAt := by
  refine and_congr_left fun _ => ?_
  simp only [Publication.row, senderName_column]
  cases p.event <;> simp [LifecycleEvent.eventType, LifecycleEvent.senderName]

theorem failed_iff : p.Failed sinceMs name ↔ (p.row.eventType = "delivery.failed" ∧
    p.row.senderName = some name.name) ∧ sinceMs ≤ p.row.createdAt := by
  refine and_congr_left fun _ => ?_
  simp only [Publication.row, senderName_column]
  cases p.event <;> simp [LifecycleEvent.eventType, LifecycleEvent.senderName]

instance : DecidablePred (Publication.Sent sinceMs name) := fun _ => decidable_of_iff _ sent_iff.symm

instance : DecidablePred (Publication.Failed sinceMs name) := fun _ => decidable_of_iff _ failed_iff.symm

def sentCount (history : List Publication) (sinceMs : Int) (name : SenderName) : Nat :=
  history.countP (Publication.Sent sinceMs name)

def failedCount (history : List Publication) (sinceMs : Int) (name : SenderName) : Nat :=
  history.countP (Publication.Failed sinceMs name)

/-- The usage of the senders, counted in the history of publications. -/
def usage (history : List Publication) (names : List SenderName) (sinceMs : Int) : List SenderStats :=
  names.map fun name => ⟨name, sentCount history sinceMs name, failedCount history sinceMs name⟩

section Runs

variable {ι : Type} [DecidableEq ι] {a : Adapters} {jobs : ι → Job} {s s' : System ι}

/-- The stored events are publications that calls of the run asked for. -/
def Published (s : System ι) (history : List Publication) : Prop :=
  s.world.events = history.map Publication.row ∧
    ∀ p ∈ history, Seen (fun c : Call Sys World => c.op = Effect.insertEvent p.uuid p.event) s.calls

theorem published_step {act : Act ι} (h : ∃ history, Published s history)
    (hs : Pool.Step machine s act s') : ∃ history, Published s' history := by
  obtain ⟨history, hevents, hseen⟩ := h
  have hseen' : ∀ p ∈ history, Seen (fun c : Call Sys World => c.op = Effect.insertEvent p.uuid p.event) s'.calls :=
    fun p hp => Pool.seen_step hs (hseen p hp)
  cases hs with
  | @answer i op next c w r ht hp | @lose i op next c w r ht hp =>
      rcases (performs hp).events with he | ⟨uuid, event, rfl, he⟩
      · exact ⟨history, he.trans hevents, hseen'⟩
      · refine ⟨history ++ [⟨uuid, event, s.world.nowMs⟩], ?_, fun p hp => ?_⟩
        · simp only [he, hevents, List.map_append]
          rfl
        · rcases List.mem_append.mp hp with hp | hp
          · exact hseen' p hp
          · cases List.mem_singleton.mp hp
            exact seen_snoc.mpr (.inr rfl)
  | drop => exact ⟨history, hevents, hseen'⟩
  | drift hd => exact ⟨history, (drifts hd).events.trans hevents, hseen'⟩

theorem history_of_run {as : List (Act ι)} (hw : w.events = []) (hr : Reaches a w jobs as s) :
    ∃ history, Published s history :=
  Pool.run_invariant published_step ⟨[], hw, nofun⟩ hr

end Runs

theorem countOfType_sent (hw : w.events = history.map Publication.row) :
    countOfType "delivery.succeeded" w.events sinceMs name = sentCount history sinceMs name := by
  rw [countOfType, hw, List.countP_map, sentCount]
  refine List.countP_congr fun p _ => ?_
  simp [sent_iff]

theorem countOfType_failed (hw : w.events = history.map Publication.row) :
    countOfType "delivery.failed" w.events sinceMs name = failedCount history sinceMs name := by
  rw [countOfType, hw, List.countP_map, failedCount]
  refine List.countP_congr fun p _ => ?_
  simp [failed_iff]

theorem countOfType_foreign (hw : w.events = history.map Publication.row) {eventType : String}
    (h : ∀ event : LifecycleEvent, event.eventType ≠ eventType) :
    countOfType eventType w.events sinceMs name = 0 := by
  rw [countOfType, hw, List.countP_eq_zero]
  intro e he
  obtain ⟨p, -, rfl⟩ := List.mem_map.mp he
  simp [Publication.row, h]

theorem sqlite_getStats (hw : w.events = history.map Publication.row) (hn : names.Nodup)
    (hc : c.fails = false) : SqliteAdapter.getStats w c names sinceMs = .ok (usage history names sinceMs) := by
  rw [SqliteAdapter.getStats, senderStats_eq hn hc, usage]
  simp only [countOfType_sent hw, countOfType_failed hw]

theorem postgres_getStats (hw : w.events = history.map Publication.row) (hn : names.Nodup)
    (hc : c.fails = false) :
    PostgresAdapter.getStats w c names sinceMs = .ok (names.map fun name => ⟨name, 0, 0⟩) := by
  have hsent : ∀ event : LifecycleEvent, event.eventType ≠ "sent" := by
    intro event
    cases event <;> simp [LifecycleEvent.eventType]
  have hfailed : ∀ event : LifecycleEvent, event.eventType ≠ "failed" := by
    intro event
    cases event <;> simp [LifecycleEvent.eventType]
  rw [PostgresAdapter.getStats, senderStats_eq hn hc]
  simp only [countOfType_foreign hw hsent, countOfType_foreign hw hfailed]

/-- None of the names was published inside the window. -/
def Unused (history : List Publication) (names : List SenderName) (sinceMs : Int) : Prop :=
  ∀ name ∈ names, ∀ p ∈ history, ¬ p.Sent sinceMs name ∧ ¬ p.Failed sinceMs name

theorem usage_eq_zero_iff :
    (names.map fun name => (⟨name, 0, 0⟩ : SenderStats)) = usage history names sinceMs ↔
      Unused history names sinceMs := by
  rw [usage, List.map_inj_left]
  refine forall₂_congr fun name _ => ?_
  simp only [SenderStats.mk.injEq, true_and, eq_comm (a := 0), sentCount, failedCount, List.countP_eq_zero,
    decide_eq_true_eq]
  exact forall₂_and.symm

open RoutedEmailSender in
theorem lookup_of_counts {getStats : List SenderName → Int → Except SenderUsageError (List SenderStats)}
    (sent failed : SenderName → Int → Nat) (h : ∀ (names : List SenderName) sinceMs, names.Nodup →
      getStats names sinceMs = .ok (names.map fun name => ⟨name, sent name sinceMs, failed name sinceMs⟩))
    {routes : List SenderRoute} {groups : List (Int × List SenderName)}
    (hn : (routes.map SenderRoute.name).Nodup) (hg : groups.Perm (sinceMsToNames nowMs routes))
    {route : SenderRoute} {quota : SenderQuota} (hr : route ∈ routes) (hq : route.quota = some quota) :
    (sentMap getStats groups).lookup route.name = some (sent route.name (quota.range.sinceMs nowMs)) := by
  have hnodup := nodup_of_mem_groups hn hg
  have hfst : (groups.map fun group => (group, getStats group.2 group.1)).map Prod.fst = groups := by
    simp [Function.comp_def]
  have hanswers : Answers (groups.map fun group => (group, getStats group.2 group.1)) := by
    intro group stats hstats
    obtain ⟨_, hgroup, heq⟩ := List.mem_map.mp hstats
    obtain ⟨rfl, hok⟩ := Prod.mk.inj heq
    rw [h _ _ (hnodup _ hgroup), Except.ok.injEq] at hok
    rw [← hok, List.map_map]
    simp [Function.comp_def]
  obtain ⟨names, hgroup, hname⟩ := (asked_iff hg).mpr ⟨route, hr, quota, hq, rfl, rfl⟩
  have hstats := h names (quota.range.sinceMs nowMs) (hnodup _ hgroup)
  rw [sentMap_eq]
  exact lookup_collected hn (hfst.symm ▸ hg) hanswers hr hq (List.mem_map.mpr ⟨_, hgroup, by rw [hstats]⟩)
    (List.mem_map.mpr ⟨route.name, hname, rfl⟩) rfl

open RoutedEmailSender in
/-- The SQLite adapter counts what was published, and its quota checks see it. The
Postgres adapter does so exactly where there is nothing to count. -/
theorem stats_count_published (hw : w.events = history.map Publication.row) (hc : c.fails = false)
    (hn : names.Nodup) (sinceMs : Int) :
    (SqliteAdapter.getStats w c names sinceMs = .ok (usage history names sinceMs) ∧
      (PostgresAdapter.getStats w c names sinceMs = .ok (usage history names sinceMs) ↔
        Unused history names sinceMs)) ∧
    ∀ {routes : List SenderRoute} {groups nowMs}, (routes.map SenderRoute.name).Nodup →
      groups.Perm (sinceMsToNames nowMs routes) → ∀ route ∈ routes, ∀ quota, route.quota = some quota →
      let sent := sentCount history (quota.range.sinceMs nowMs) route.name
      (sentMap (SqliteAdapter.getStats w c) groups).lookup route.name = some sent ∧
        ((sentMap (PostgresAdapter.getStats w c) groups).lookup route.name = some sent ↔
          ∀ p ∈ history, ¬ p.Sent (quota.range.sinceMs nowMs) route.name) := by
  refine ⟨⟨sqlite_getStats hw hn hc, ?_⟩, fun hroutes hg route hr quota hq => ⟨?_, ?_⟩⟩
  · rw [postgres_getStats hw hn hc, Except.ok.injEq, usage_eq_zero_iff]
  · exact lookup_of_counts (fun name sinceMs => sentCount history sinceMs name)
      (fun name sinceMs => failedCount history sinceMs name) (fun _ _ hn => sqlite_getStats hw hn hc)
      hroutes hg hr hq
  · rw [lookup_of_counts (fun _ _ => 0) (fun _ _ => 0) (fun _ _ hn => postgres_getStats hw hn hc) hroutes hg
      hr hq, Option.some.injEq, eq_comm, sentCount, List.countP_eq_zero]
    simp only [decide_eq_true_eq]

def postgresOnly : Adapters := ⟨.postgres, .postgres, .fromSecs 3600⟩

/-- The turn claims the entry in a transaction and delivers through the sender. -/
def delivering (senderName : SenderName) : List (Act Nat) :=
  [.step 1 {}, .step 1 { uuid := 1 }, .step 1 { uuid := 3 }, .step 1 {},
    .step 1 { result := .ok senderName }, .step 1 {}, .step 1 {}, .step 1 { uuid := 4 }, .step 1 {}]

def delivered : List Publication :=
  [⟨2, .queued ⟨1⟩ none, 0⟩, ⟨3, .sending ⟨1⟩ 1 none, 0⟩, ⟨4, .sent ⟨1⟩ ⟨"primary"⟩ none, 0⟩]

/-- The Sent event of the delivery is stored, and Postgres does not count it. -/
theorem sent_not_counted : ∃ s, Reaches postgresOnly .empty oneEmail (submitting ++ delivering ⟨"primary"⟩) s ∧
    s.world.events = delivered.map Publication.row ∧
    SqliteAdapter.getStats s.world {} [⟨"primary"⟩] 0 = .ok [⟨⟨"primary"⟩, 1, 0⟩] ∧
    PostgresAdapter.getStats s.world {} [⟨"primary"⟩] 0 = .ok [⟨⟨"primary"⟩, 0, 0⟩] ∧
    usage delivered [⟨"primary"⟩] 0 = [⟨⟨"primary"⟩, 1, 0⟩] :=
  ⟨_, rfl, rfl, by decide, by decide, by decide⟩

theorem delivered_counted : ∃ s, Reaches postgresOnly .empty oneEmail (submitting ++ delivering ⟨"primary"⟩) s ∧
    SqliteAdapter.getStats s.world {} [⟨"primary"⟩, ⟨"backup"⟩] 0 =
      .ok (usage delivered [⟨"primary"⟩, ⟨"backup"⟩] 0) ∧
    PostgresAdapter.getStats s.world {} [⟨"backup"⟩] 0 = .ok (usage delivered [⟨"backup"⟩] 0) := by
  have hrun : ∃ s, Reaches postgresOnly .empty oneEmail (submitting ++ delivering ⟨"primary"⟩) s ∧
      s.world.events = delivered.map Publication.row := ⟨_, rfl, rfl⟩
  obtain ⟨s, hr, hw⟩ := hrun
  refine ⟨s, hr, (stats_count_published hw rfl (by decide) 0).1.1,
    (stats_count_published hw rfl (by decide) 0).1.2.mpr ?_⟩
  unfold Unused
  decide

end Catapulte
