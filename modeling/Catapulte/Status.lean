import Catapulte.Attempts
import Catapulte.Chronicle
import Catapulte.Ownership
import Catapulte.Storage.Listing

namespace Catapulte

open Async

variable {ι : Type} {a : Adapters} {jobs : ι → Job} {w : World} {s s' : System ι} {act : Act ι}
  {id : EmailId}

instance (row : EventRow) : Decidable row.Terminal := inferInstanceAs (Decidable (_ ∨ _))

/-- The email is reported with the status of the event, and its blobs are not live. -/
structure Reported (jobs : ι → Job) (s : System ι) (row : EventRow) : Prop where
  status : ∀ params, ∀ record ∈ SqliteAdapter.listEmails s.world params, record.id = row.emailId →
    record.status = .ofEventType row.eventType
  found : ∀ params : ListEmailsParams, params.id = some row.emailId →
    params.afterMs = none ∧ params.beforeMs = none ∧ params.recipient = none ∧ params.template = none ∧
      params.status = none → 0 < params.limit → params.offset = 0 →
    ∃ record ∈ SqliteAdapter.listEmails s.world params, record.id = row.emailId
  dead : ∀ {i input}, jobs i = .submit row.emailId input → ∀ {blob}, Did (Stored blob) i s.calls →
    blob ∉ s.world.liveBlobs

/-- A queue entry is handed out only while no running turn has its email in its hands. -/
def OneWorker (s : System ι) (act : Act ι) : Prop :=
  ∀ x ∈ s.landed machine act, x.2.heard = true → ∀ id ∈ handsOut x.2, ∀ y ∈ s.calls,
    handsOut y.2 = some id → ¬ Running s y.1

def storing (s : System ι) : Act ι → Option EventRow
  | .step i c | .abandon i (some c) =>
      match s.task i with
      | some (.await (.insertEvent uuid event) _) =>
          if (c.fails && !c.lands) || (s.world.findEmail event.emailId).isNone then none
          else some (s.world.eventRow uuid event)
      | _ => none
  | _ => none

/-- A Queued event is not stored above a terminal event of its email, and a terminal
event is not stored below a Queued event. -/
def QueuedFirst (s : System ι) (act : Act ι) : Prop :=
  ∀ row ∈ storing s act, ∀ e ∈ s.world.events, e.emailId = row.emailId →
    (row.eventType = "queued" → e.Terminal → e.later row = true) ∧
      (row.Terminal → e.eventType = "queued" → row.later e = true)

instance (s : System ι) (act : Act ι) : Decidable (QueuedFirst s act) :=
  inferInstanceAs (Decidable (∀ row ∈ storing s act, _))

instance (s : System ι) (act : Act ι) : Decidable (OneWorker s act) :=
  inferInstanceAs (Decidable (∀ x ∈ s.landed machine act, _))

section Steps

variable [DecidableEq ι]

theorem storing_of_step (hs : Pool.Step machine s act s') : s'.world.events = s.world.events ∨
    ∃ row, storing s act = some row ∧ s'.world.events = s.world.events ++ [row] := by
  have hrow : ∀ {c : Choice} {op : Effect} {w : World} {r : op.Reply},
      perform s.world op c = some (w, r) → w.events = s.world.events ∨ ∃ uuid event,
        op = .insertEvent uuid event ∧ ((c.fails && !c.lands) ||
          (s.world.findEmail event.emailId).isNone) = false ∧
        w.events = s.world.events ++ [s.world.eventRow uuid event] := by
    intro c op w r hp
    rcases (performs hp).events with he | ⟨uuid, event, rfl, he⟩
    · exact .inl he
    · refine .inr ⟨uuid, event, rfl, ?_, he⟩
      have hne : w.events ≠ s.world.events := by simp [he]
      simp only [perform, Choice.settle] at hp
      split at hp
      · rename_i hsome
        rw [Option.isNone_eq_false_iff.mpr hsome, Bool.or_false]
        cases hf : c.fails <;> cases hl : c.lands <;> simp_all
      · cases hp
        exact absurd rfl hne
  cases hs with
  | answer ht hp | lose ht hp =>
      refine (hrow hp).imp_right ?_
      rintro ⟨uuid, event, rfl, hc, he⟩
      exact ⟨_, by simp only [storing, ht, hc]; rfl, he⟩
  | drop => exact .inl rfl
  | drift hd => exact .inl (drifts hd).events

theorem OneTurn.step (hone : OneTurn jobs s) (hw : OneWorker s act) (hs : Pool.Step machine s act s') :
    OneTurn jobs s' := by
  intro i j id ho hi hj hdi hdj
  have hri := running_of_step hs hi
  have hrj := running_of_step hs hj
  rcases Pool.step_calls hs with hc | ⟨⟨k, c⟩, hc⟩
  · rw [hc] at hdi hdj
    exact hone ho hri hrj hdi hdj
  · -- Who is handed the email now is the only one.
    have hnew : ∀ {l}, Running s' k → HandsOut id c → Running s l → Did (HandsOut id) l s.calls → False := by
      intro l hk hh hl ⟨d, hd, hd'⟩
      have hlands := Pool.step_lands hs hc
      have hheard : c.heard = true := by
        by_contra hno
        rw [Bool.not_eq_true] at hno
        rw [hno] at hlands
        obtain ⟨next, ch, ht, hp, rfl⟩ := hlands
        cases hs
        obtain ⟨op, next', hrun⟩ := hk
        simp at hrun
      have hl' := Pool.landed_of_lands _ hlands
      rw [hheard] at hl'
      refine hw _ hl' rfl id ?_ (l, d) hd hd' hl
      have hbefore := Pool.before_of_step hs hc
      obtain ⟨before, op, r, heard⟩ := c
      cases hbefore
      cases hheard
      exact hh
    rw [hc] at hdi hdj
    rcases did_snoc.mp hdi with h₁ | ⟨hik, hh⟩ <;> rcases did_snoc.mp hdj with h₂ | ⟨hjk, hh'⟩
    · exact hone ho hri hrj h₁ h₂
    · exact (hnew (hjk ▸ hj) hh' hri h₁).elim
    · exact (hnew (hik ▸ hi) hh hrj h₂).elim
    · exact hik.trans hjk.symm

/-- After a terminal event of an email no running turn has the email in its hands,
and the event is the latest one of the email. -/
structure Concluded (jobs : ι → Job) (s : System ι) : Prop where
  idle : ∀ t ∈ s.world.events, Own jobs t.emailId → t.Terminal → ∀ {i}, Running s i →
    ¬ Did (HandsOut t.emailId) i s.calls
  latest : ∀ t ∈ s.world.events, Own jobs t.emailId → t.Terminal → ∀ e ∈ s.world.events,
    e.emailId = t.emailId → e = t ∨ t.later e = true

theorem not_running_of_terminal (hchr : (chronicle a jobs).Holds s) (hs : Pool.Step machine s act s')
    {i : ι} {c : Call Sys World} (hc : s'.calls = s.calls ++ [(i, c)]) {uuid : Nat} {event : LifecycleEvent}
    (hop : c.op = .insertEvent uuid event) (hterm : event.Terminal) : ¬ Running s' i := by
  rintro ⟨op', next', hrun⟩
  cases hs with
  | @answer _ _ _ _ _ r ht hp =>
      obtain ⟨-, hx⟩ := List.append_inj' hc rfl
      cases hx
      obtain ⟨st, hf, hat⟩ := hchr.2 i _ ht
      obtain ⟨st', hm, hf'⟩ := hf r
      have hqueued : event.eventType ≠ "queued" := by
        rcases event.terminal_iff.mp hterm with h | h <;> simp [h]
      rcases (insertEvent_moves hm hop hat).2 with ⟨input, -, htype⟩ | ⟨-, -, -, hended⟩
      · exact hqueued htype
      · obtain rfl := hended hterm
        obtain ⟨x, hx, -⟩ := done_of_follows hf' not_moves_ended
        simp [hx] at hrun
  | lose ht hp =>
      obtain ⟨-, hx⟩ := List.append_inj' hc rfl
      cases hx
      simp at hrun
  | drop | drift => simp at hc

omit [DecidableEq ι] in
theorem not_queued_of_terminal {t : EventRow} (ht : t.Terminal) : t.eventType ≠ "queued" := by
  rcases ht with h | h <;> simp [h]

theorem Concluded.step (hcust : (custody a jobs).Holds s) (hchr : (chronicle a jobs).Holds s)
    (hone : OneTurn jobs s) (hc : Concluded jobs s) (hq : QueuedFirst s act)
    (hs : Pool.Step machine s act s') : Concluded jobs s' := by
  rcases Pool.step_calls hs with hcalls | ⟨⟨k, c⟩, hcalls⟩
  · have he : s'.world.events = s.world.events := by
      cases hs with
      | drop => rfl
      | drift hd => exact (drifts hd).events
      | answer | lose => simp at hcalls
    refine ⟨?_, ?_⟩
    · rw [he, hcalls]
      exact fun t ht ho hterm i hi => hc.idle t ht ho hterm (running_of_step hs hi)
    · rw [he]
      exact hc.latest
  · obtain ⟨hbefore, hp, st, st', hm, ht⟩ := landing hchr hs hcalls
    have hlands := Pool.step_lands hs hcalls
    obtain ⟨before, op, r, heard⟩ := c
    obtain rfl : before = s.world := hbefore
    have hidle : ∀ t ∈ s.world.events, Own jobs t.emailId → t.Terminal → ∀ {i}, Running s' i →
        ¬ Did (HandsOut t.emailId) i s'.calls := by
      intro t hmem ho hterm i hi hd
      rw [hcalls] at hd
      rcases did_snoc.mp hd with hd | ⟨-, hh⟩
      · exact hc.idle t hmem ho hterm (running_of_step hs hi) hd
      · exact (hcust.1.terminal t hmem hterm ho).2 (outstanding_of_handsOut hp hh)
    rcases hp.events with he | ⟨uuid, event, hop, he⟩
    · exact ⟨he ▸ hidle, he ▸ hc.latest⟩
    · have hrow : storing s act = some (s.world.eventRow uuid event) := by
        rcases storing_of_step hs with he' | ⟨row, hrow, he'⟩
        · simp [he] at he'
        · rw [he] at he'
          obtain ⟨-, hx⟩ := List.append_inj' he' rfl
          cases hx
          exact hrow
      have hfirst := hq _ hrow
      have hmoves := insertEvent_moves hm hop ht
      have hown : ∀ {t : EventRow}, t.emailId = event.emailId → Own jobs t.emailId →
          event.eventType ≠ "queued" → Did (HandsOut event.emailId) k s.calls ∧ Own jobs event.emailId ∧
            Drawn jobs uuid event.emailId s.world := by
        intro t hid ho htype
        rcases hmoves.2 with ⟨input, -, hqueued⟩ | ⟨hd, hdrawn, -⟩
        · exact absurd hqueued htype
        · exact ⟨hd, hid ▸ ho, hdrawn⟩
      constructor
      · intro t hmem ho hterm i hi hd
        rw [he, List.mem_append, List.mem_singleton] at hmem
        rcases hmem with hmem | rfl
        · exact hidle t hmem ho hterm hi hd
        · have hterm' := eventRow_terminal_iff.mp hterm
          obtain ⟨hk, -, -⟩ := hown rfl ho (not_queued_of_terminal hterm)
          have hd : Did (HandsOut event.emailId) i s.calls := by
            rw [hcalls] at hd
            refine (did_snoc.mp hd).resolve_right fun hh => ?_
            subst hop
            cases hh.2
          obtain rfl := hone ho (running_of_step hs hi) (lands_running hlands) hd hk
          exact not_running_of_terminal hchr hs hcalls hop hterm' hi
      · intro t hmem ho hterm e hmem' hid
        rw [he, List.mem_append, List.mem_singleton] at hmem hmem'
        rcases hmem with hmem | rfl <;> rcases hmem' with hmem' | rfl
        · exact hc.latest t hmem ho hterm e hmem' hid
        · by_cases htype : event.eventType = "queued"
          · exact .inr ((hfirst t hmem hid.symm).1 htype hterm)
          · obtain ⟨hk, -, -⟩ := hown hid.symm ho htype
            have hid : event.emailId = t.emailId := hid
            exact absurd (hid ▸ hk) (hc.idle t hmem ho hterm (lands_running hlands))
        · by_cases htype : e.eventType = "queued"
          · exact .inr ((hfirst e hmem' hid).2 hterm htype)
          · obtain ⟨-, ho', hdrawn⟩ := hown rfl ho (not_queued_of_terminal hterm)
            have hlt := hdrawn.2 ho' e hmem' hid htype
            have hle := (hchr.1.past e hmem' (hid ▸ ho)).1
            refine .inr (decide_eq_true ?_)
            change e.createdAt < s.world.nowMs ∨ (s.world.nowMs = e.createdAt ∧ e.id < uuid)
            omega
        · exact .inl rfl

/-- A run in which every entry has one worker at a time and Queued events come first. -/
abbrev Orderly (a : Adapters) (jobs : ι → Job) (w : World) (as : List (Act ι)) : Prop :=
  (System.start a w jobs).Meets machine (fun s act => OneWorker s act ∧ QueuedFirst s act) as

theorem concluded_of_run {as : List (Act ι)} (hw : Ready jobs w) (hv : Vacant jobs w)
    (hr : Reaches a w jobs as s) (hm : Orderly a jobs w as) :
    (custody a jobs).Holds s ∧ Concluded jobs s := by
  have hinv := Pool.run_preserves (J := fun s : System ι => (acceptance a jobs).Holds s ∧
    (custody a jobs).Holds s ∧ (chronicle a jobs).Holds s ∧ OneTurn jobs s ∧ Concluded jobs s)
    (fun ⟨hacc, hcust, hchr, hone, hc⟩ ⟨hworker, hfirst⟩ hs =>
      ⟨Pool.Outline.step hacc (acceptance_keeps hw.distinct) hs,
        Pool.Outline.step hcust (custody_keeps hw.distinct hacc) hs,
        Pool.Outline.step hchr (chronicle_keeps hone) hs,
        OneTurn.step hone hworker hs, hc.step hcust hchr hone hfirst hs⟩)
    ⟨acceptance_start hw, custody_start hv, chronicle_start hv, fun _ _ _ hd => absurd hd did_nil,
      fun t ht ho => absurd ho (hv.events t ht), fun t ht ho => absurd ho (hv.events t ht)⟩ hm hr
  exact ⟨hinv.2.1, hinv.2.2.2.2⟩

theorem events_of_run {as : List (Act ι)} (hr : s.run machine as = some s') {row : EventRow}
    (hrow : row ∈ s.world.events) : row ∈ s'.world.events := by
  refine Pool.run_invariant (J := fun s : System ι => row ∈ s.world.events) (fun h hs => ?_) hrow hr
  rcases storing_of_step hs with he | ⟨row', -, he⟩
  · exact he ▸ h
  · rw [he]
    exact List.mem_append_left _ h

omit [DecidableEq ι] in
theorem Concluded.latestEventType (h : Concluded jobs s) {row : EventRow} (hrow : row ∈ s.world.events)
    (ho : Own jobs row.emailId) (hterm : row.Terminal) :
    s.world.latestEventType row.emailId = row.eventType := by
  have hlatest : latestEvent (s.world.events.filter fun e => e.emailId = row.emailId) = some row := by
    refine latestEvent_eq (List.mem_filter.mpr ⟨hrow, decide_eq_true rfl⟩) fun e he => ?_
    obtain ⟨hmem, hid⟩ := List.mem_filter.mp he
    exact h.latest row hrow ho hterm e hmem (of_decide_eq_true hid)
  rw [World.latestEventType, hlatest]

/-- Where every entry has one worker at a time and Queued events come first, a Sent
or Failed event of a submitted email decides its status for good. The clock of the
system does not go back. -/
theorem terminal_status_stable {as bs : List (Act ι)} {t : System ι} (hw : Ready jobs w)
    (hv : Vacant jobs w) (hk : w.KeysIssued) (ht : Reaches a w jobs as t)
    (hr : t.run machine bs = some s) (hm : Orderly a jobs w (as ++ bs)) {row : EventRow}
    (hrow : row ∈ t.world.events) (ho : Own jobs row.emailId) (hterm : row.Terminal) :
    Reported jobs s row := by
  have hrun : Reaches a w jobs (as ++ bs) s := Pool.run_append.mpr ⟨t, ht, hr⟩
  obtain ⟨hcust, hc⟩ := concluded_of_run hw hv hrun hm
  have hrow := events_of_run hr hrow
  have htype := hc.latestEventType hrow ho hterm
  refine ⟨fun params record hrecord hid => ?_, fun params hid hall hlimit hoffset => ?_,
    fun {i input} hi {blob} hd hlive => ?_⟩
  · rw [SqliteAdapter.status_of_mem hrecord, hid, htype]
  · have hnone : w.referenced row.emailId = true → ∃ key, w.HasRow row.emailId key := fun href =>
      absurd href (by simp [hv.not_referenced ho])
    obtain ⟨key, email, hemail, hemailId, -⟩ :=
      references_of_run hrun hnone (referenced_iff.mpr (.inr ⟨row, hrow, rfl⟩))
    obtain ⟨record, hrecord, hrecordId⟩ :=
      SqliteAdapter.listEmails_by_id hemail (hemailId ▸ hid) hall hlimit hoffset
    exact ⟨record, hrecord, hrecordId.trans hemailId⟩
  · have hown := Pool.run_invariant (fun h hs => Pool.Outline.step h ownership_keeps hs)
      (ownership_start hk) hrun
    obtain ⟨email, hemail, hblob⟩ := List.mem_flatMap.mp hlive
    obtain ⟨ref, href, rfl⟩ := List.mem_map.mp hblob
    obtain ⟨hemail, hstatus⟩ := List.mem_filter.mp hemail
    obtain ⟨input', hi'⟩ := hown.1.owner email hemail ref href hd
    rw [hi] at hi'
    obtain ⟨hid, -⟩ := Job.submit.inj hi'
    rw [← hid, htype] at hstatus
    rcases hterm with h | h <;> simp [h] at hstatus

end Steps

/-- One submission with an attachment, and turns over its queue entry. -/
def attachedEmail (k : Nat) : Job :=
  if k = 0 then
    .submit ⟨1⟩ (plainSubmission none [.inline "invoice.pdf" "application/pdf" [37, 80, 68, 70]])
  else .turn

def enqueuing : List (Act Nat) :=
  [.step 0 {}, .step 0 { key := "a1" }, .step 0 {}, .step 0 { uuid := 1 }]

def failing (uuid : Nat) : List (Act Nat) :=
  executing 1 uuid (.error (.send (.noMatchingRoute "example.com"))) ++
    [.step 1 {}, .step 1 { uuid := uuid + 1 }, .step 1 {}]

def announcing (uuid : Nat) : List (Act Nat) := [.step 0 { uuid }, .step 0 {}]

def byId (id : EmailId) : ListEmailsParams := ⟨none, none, none, none, none, some id, 1, 0⟩

/-- The Queued event comes after the Failed event: the email is listed as queued
again, and its blob is live again. -/
theorem failed_listed_as_queued : ∃ t s row,
    Reaches sqliteOnly .empty attachedEmail (enqueuing ++ failing 2) t ∧
    t.run machine (announcing 4) = some s ∧
    (System.start sqliteOnly .empty attachedEmail).Meets machine OneWorker
      (enqueuing ++ failing 2 ++ announcing 4) ∧
    row ∈ t.world.events ∧ row.eventType = "delivery.failed" ∧
    (∃ record ∈ SqliteAdapter.listEmails s.world (byId row.emailId),
      record.id = row.emailId ∧ record.status = .queued) ∧
    Did (Stored ⟨"fs", "a1"⟩) 0 s.calls ∧ ⟨"fs", "a1"⟩ ∈ s.world.liveBlobs := by
  refine ⟨_, _, _, rfl, rfl, by decide, .tail _ (.head _), rfl, ?_⟩
  decide

theorem attachedEmail_ready : Ready attachedEmail .empty where
  distinct := by
    intro i j id input input' hi hj
    simp only [attachedEmail] at hi hj
    split at hi <;> cases hi
    split at hj <;> cases hj
    omega
  fresh := by
    rintro i id input key - ⟨row, hrow, -⟩
    cases hrow
  keysUnique := by
    rintro key id id' ⟨row, hrow, -⟩
    cases hrow

theorem vacant_empty (jobs : ι → Job) : Vacant jobs .empty where
  outstanding := by
    rintro id - (⟨e, he, -⟩ | hpos)
    · cases he
    · cases hpos
  events := nofun

theorem failed_stays_failed : ∃ t s row,
    Reaches sqliteOnly .empty attachedEmail (enqueuing ++ announcing 2 ++ failing 3) t ∧
    t.run machine [.drift (.tick 1000000)] = some s ∧ row ∈ t.world.events ∧
    row.eventType = "delivery.failed" ∧ Reported attachedEmail s row := by
  have hrun : ∃ t s row,
      Reaches sqliteOnly .empty attachedEmail (enqueuing ++ announcing 2 ++ failing 3) t ∧
      t.run machine [.drift (.tick 1000000)] = some s ∧ row ∈ t.world.events ∧ row.emailId = ⟨1⟩ ∧
      row.eventType = "delivery.failed" :=
    ⟨_, _, _, rfl, rfl, .tail _ (.tail _ (.head _)), rfl, rfl⟩
  obtain ⟨t, s, row, ht, hs, hrow, hid, htype⟩ := hrun
  exact ⟨t, s, row, ht, hs, hrow, htype, terminal_status_stable attachedEmail_ready (vacant_empty _)
    nofun ht hs (by decide) hrow ⟨0, _, by rw [hid]; rfl⟩ (.inr htype)⟩

end Catapulte
