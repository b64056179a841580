import Catapulte.Session.Job
import Catapulte.Storage.Tables

namespace Catapulte

open Async

/-- Submissions, worker turns and sweeps over one shared state. -/
abbrev System (ι : Type) := Pool Sys World ι JobResult

abbrev Act (ι : Type) := Action ι Choice Drift

variable {ι : Type} {a : Adapters} {jobs : ι → Job} {w : World}

def System.start (a : Adapters) (w : World) (jobs : ι → Job) : System ι :=
  Pool.start w fun i => (jobs i).program a

/-- The run takes the system from its start to `s`. -/
abbrev Reaches [DecidableEq ι] (a : Adapters) (w : World) (jobs : ι → Job) (as : List (Act ι)) (s : System ι) : Prop :=
  (System.start a w jobs).run machine as = some s

def System.Quiet (s : System ι) : Prop := ∀ i p, s.task i = some p → ∃ r, p = .done r

def Running (s : System ι) (i : ι) : Prop := ∃ op next, s.task i = some (.await op next)

instance (s : System ι) (i : ι) : Decidable (Running s i) :=
  match h : s.task i with
  | some (.await op next) => isTrue ⟨op, next, h⟩
  | some (.done _) => isFalse fun ⟨_, _, h'⟩ => by rw [h] at h'; cases h'
  | none => isFalse fun ⟨_, _, h'⟩ => by rw [h] at h'; cases h'

theorem running_of_step [DecidableEq ι] {s s' : System ι} {act : Act ι} (h : Pool.Step machine s act s')
    {i : ι} (hr : Running s' i) : Running s i := by
  obtain ⟨op, next, hi⟩ := hr
  obtain ⟨p, hp⟩ := Pool.task_of_step h hi
  cases p with
  | done x =>
      rw [Pool.done_step h hp] at hi
      cases hi
  | await op' next' => exact ⟨op', next', hp⟩

abbrev Outlines (ι : Type) := Pool.Outline Sys World ι JobResult Stage

def outline (a : Adapters) (jobs : ι → Job) (shared : World → List (ι × Call Sys World) → Prop)
    (task : ι → Stage → World → List (ι × Call Sys World) → Prop) : Outlines ι where
  session i := JobMoves a (jobs i)
  ends i := JobEnds (jobs i)
  shared := shared
  task := task

theorem holds_start {o : Outlines ι}
    (hf : ∀ i, ((jobs i).program a).Follows (o.session i) (o.ends i) (jobs i).start) (hshared : o.shared w [])
    (htask : ∀ i, o.task i (jobs i).start w []) : o.Holds (System.start a w jobs) := by
  refine ⟨hshared, fun i p hp => ⟨_, ?_, htask i⟩⟩
  cases hp
  exact hf i

theorem outline_start {shared : World → List (ι × Call Sys World) → Prop}
    {task : ι → Stage → World → List (ι × Call Sys World) → Prop} (hshared : shared w [])
    (htask : ∀ i, task i (jobs i).start w []) :
    (outline a jobs shared task).Holds (System.start a w jobs) :=
  holds_start (fun i => program_follows (jobs i)) hshared htask

section Stages

variable {shared : World → List (ι × Call Sys World) → Prop}
  {task : ι → Stage → World → List (ι × Call Sys World) → Prop} {s : System ι} {i : ι}
  {id : EmailId} {input : SubmitEmailInput}

theorem stage_submit (h : (outline a jobs shared task).Holds s) {p : Prog JobResult}
    (hi : jobs i = .submit id input) (hp : s.task i = some p) :
    ∃ st, p.Follows (JobMoves a (.submit id input)) (JobEnds (.submit id input)) (.submit st) ∧
      task i (.submit st) s.world s.calls := by
  obtain ⟨st, hf, ht⟩ := h.2 i p hp
  have hf : p.Follows (JobMoves a (jobs i)) (JobEnds (jobs i)) st := hf
  rw [hi] at hf
  obtain ⟨st, rfl⟩ := stage_of_submit hf
  exact ⟨st, hf, ht⟩

theorem stage_submitted (h : (outline a jobs shared task).Holds s)
    {r : Except SubmitEmailError EmailId} (hp : s.task i = some (.done (.submitted r))) :
    ∃ id input, jobs i = .submit id input ∧ task i (.submit (.ended r)) s.world s.calls := by
  obtain ⟨st, hends, ht⟩ := h.2 i _ hp
  have hends : JobEnds (jobs i) st (.submitted r) := hends
  obtain rfl := submitted_ends hends
  generalize hj : jobs i = job at hends
  cases hends with
  | submit => exact ⟨_, _, rfl, ht⟩

end Stages

theorem lands_running {s : System ι} {act : Act ι} {i : ι} {op : Effect} {w : World} {r : op.Reply}
    {heard : Bool} (h : Pool.Lands machine s act i op w r heard) : Running s i := by
  obtain ⟨next, c, ht, -, -⟩ := h
  exact ⟨op, next, ht⟩

theorem running_of_turn {s : System ι} {i : ι} {p : Prog JobResult} {st : TurnStage}
    (hp : s.task i = some p) (hf : p.Follows (JobMoves a (jobs i)) (JobEnds (jobs i)) (.turn st))
    (hst : st ≠ .ended) : Running s i := by
  cases p with
  | await op next => exact ⟨op, next, hp⟩
  | done r =>
      have hends : JobEnds (jobs i) (.turn st) r := hf
      generalize jobs i = job at hends
      cases hends
      exact absurd rfl hst

theorem lands_performs {s : System ι} {act : Act ι} {i : ι} {op : Effect} {w : World} {r : op.Reply}
    {heard : Bool} (h : Pool.Lands machine s act i op w r heard) : Performs s.world op w r := by
  obtain ⟨next, c, -, hp, -⟩ := h
  exact performs hp

theorem landing [DecidableEq ι] {shared : World → List (ι × Call Sys World) → Prop}
    {task : ι → Stage → World → List (ι × Call Sys World) → Prop} {s s' : System ι} {act : Act ι} {i : ι}
    {c : Call Sys World} (h : (outline a jobs shared task).Holds s) (hs : Pool.Step machine s act s')
    (hc : s'.calls = s.calls ++ [(i, c)]) : c.before = s.world ∧
      Performs s.world c.op s'.world c.reply ∧
      ∃ st st', JobMoves a (jobs i) st c.op c.reply st' ∧ task i st s.world s.calls := by
  obtain ⟨next, ch, ht, hp, -⟩ := Pool.step_lands hs hc
  obtain ⟨st, hf, hat⟩ := h.2 i _ ht
  obtain ⟨st', hm, -⟩ := hf c.reply
  exact ⟨Pool.before_of_step hs hc, performs hp, st, st', hm, hat⟩

theorem references_of_run [DecidableEq ι] {s : System ι} {as : List (Act ι)} {id : EmailId} (hr : Reaches a w jobs as s)
    (hkey : w.referenced id = true → ∃ key, w.HasRow id key) (href : s.world.referenced id = true) :
    ∃ key, s.world.HasRow id key := by
  refine Pool.run_invariant
    (J := fun s : System ι => s.world.referenced id = true → ∃ key, s.world.HasRow id key) ?_ hkey hr href
  intro s act s' h hs
  cases hs with
  | answer _ hp | lose _ hp => exact (performs hp).references h
  | drop => exact h
  | drift hd =>
      intro href
      obtain ⟨key, hrow⟩ := h ((drifts hd).referenced id ▸ href)
      exact ⟨key, (hasRow_congr (drifts hd).emails).mpr hrow⟩

def Job.idempotencyKey : Job → Option String
  | submit _ input => input.idempotencyKey
  | _ => none

def DistinctIds (jobs : ι → Job) : Prop :=
  ∀ {i j id input input'}, jobs i = .submit id input → jobs j = .submit id input' → i = j

/-- The generated email ids are fresh, and the unique index holds at the start. -/
structure Ready (jobs : ι → Job) (w : World) : Prop where
  distinct : DistinctIds jobs
  fresh : ∀ {i id input key}, jobs i = .submit id input → ¬ w.HasRow id key
  keysUnique : w.KeysUnique

theorem ready_of_no_emails (hd : DistinctIds jobs) (hw : w.emails = []) : Ready jobs w where
  distinct := hd
  fresh := by
    rintro i id input key - ⟨row, hrow, -⟩
    rw [hw] at hrow
    cases hrow
  keysUnique := by
    rintro key id id' ⟨row, hrow, -⟩
    rw [hw] at hrow
    cases hrow

/-- The email that a successful enqueue stored. -/
def enqueued : Call Sys World → Option EmailId
  | ⟨_, .insertEntry id, .ok (), _⟩ => some id
  | ⟨_, .send id _, .ok (), _⟩ => some id
  | _ => none

theorem enqueued_moves {job : Job} {st st' : Stage} {op : Effect} {r : op.Reply} {w : World}
    {heard : Bool} {id : EmailId} (hm : JobMoves a job st op r st')
    (h : enqueued ⟨w, op, r, heard⟩ = some id) :
    ∃ input refs patched, job = .submit id input ∧ st = .submit (.reserved refs patched) ∧
      st' = .submit (.queued refs) ∧ (op = .insertEntry id ∨ op = .send id (input.envelope refs)) := by
  cases hm with
  | submit hm =>
      cases hm with
      | enqueued => cases h; exact ⟨_, _, _, rfl, rfl, rfl, .inl rfl⟩
      | sent => cases h; exact ⟨_, _, _, rfl, rfl, rfl, .inr rfl⟩
      | _ => cases h
  | turn hm => cases hm <;> cases h
  | sweep hm => cases hm <;> cases h

theorem deleteEmail_moves {job : Job} {st st' : Stage} {op : Effect} {r : op.Reply} {id : EmailId}
    (hop : op = .deleteEmail id) (hm : JobMoves a job st op r st') :
    ∃ input e, job = .submit id input ∧ st = .submit (.undoing [] e) := by
  subst hop
  cases hm with
  | submit hm => cases hm; exact ⟨_, _, rfl, rfl⟩
  | turn hm => cases hm
  | sweep hm => cases hm

theorem insert_moves {job : Job} {st st' : Stage} {id : EmailId} {envelope : Envelope} {op : Effect}
    {r : op.Reply} (hop : op = .insertOrIgnore id envelope ∨ op = .insertOnConflict id envelope)
    (hm : JobMoves a job st op r st') :
    ∃ input, job = .submit id input ∧ st = .submit .saving ∧ envelope = input.envelope [] := by
  cases hm with
  | submit hm => rcases hop with rfl | rfl <;> cases hm <;> exact ⟨_, rfl, rfl, rfl⟩
  | turn hm => rcases hop with rfl | rfl <;> cases hm
  | sweep hm => rcases hop with rfl | rfl <;> cases hm

theorem foreign_moves (hd : DistinctIds jobs) {i j : ι} (hij : i ≠ j) {id : EmailId}
    {input : SubmitEmailInput} (hj : jobs j = .submit id input) {st st' : Stage} {op : Effect}
    {r : op.Reply} (hm : JobMoves a (jobs i) st op r st') : op ≠ .deleteEmail id ∧
      ∀ envelope, ¬ (op = .insertOrIgnore id envelope ∨ op = .insertOnConflict id envelope) := by
  refine ⟨fun ho => ?_, fun envelope ho => ?_⟩
  · obtain ⟨_, _, hi, -⟩ := deleteEmail_moves ho hm
    exact hij (hd hi hj)
  · obtain ⟨_, hi, -⟩ := insert_moves ho hm
    exact hij (hd hi hj)

end Catapulte
