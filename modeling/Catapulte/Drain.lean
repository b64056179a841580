import Mathlib.Data.List.Basic
import Catapulte.Storage.Adapters
import Catapulte.Worker.Run

namespace Catapulte

open Async

variable {I : Interface} {κ : Type} {state : WorkerState (Program I)} {reply : κ → (op : I.Op) → Option (I.Reply op)}
  {s s' : WorkerRun I} {e : RunEvent κ} {es : List (RunEvent κ)} {concurrency : Nat} {t t' : SpawnedTask I}
  {ts ts' : List (SpawnedTask I)}

/-- The task makes the calls of `process_one` on its item, and has made all of them if
it has ended without a panic. -/
def SpawnedTask.Processes (state : WorkerState (Program I)) (t : SpawnedTask I) : Prop :=
  ∃ rest, (state.processOne t.item).Runs t.calls rest ∧
    match t.state with
    | .running p => p = rest
    | .finished false | .joined false => rest = .done ()
    | .finished true | .joined true => True

namespace WorkerRun

def running (s : WorkerRun I) : Nat := s.tasks.countP SpawnedTask.isRunning

/-- The permits in the hands of the loop. -/
def held (s : WorkerRun I) : Nat :=
  match s.phase with
  | .dequeuing _ | .dequeued _ => 1
  | _ => 0

/-- The item that is dequeued and not yet spawned. -/
def inHand (s : WorkerRun I) : List DequeuedEmail :=
  match s.phase with
  | .dequeued (.ok item) => [item]
  | _ => []

def Observed (s : WorkerRun I) : Prop := s.phase = .draining ∨ s.phase = .returned

structure Sound (state : WorkerState (Program I)) (concurrency : Nat) (s : WorkerRun I) : Prop where
  permits : s.permits + s.held + s.running = concurrency
  received : s.received = s.tasks.map SpawnedTask.item ++ s.inHand
  processes : ∀ t ∈ s.tasks, t.Processes state
  returned : s.phase = .returned → ∀ t ∈ s.tasks, t.isJoined = true
  observed : s.Observed → s.cancelled = true

end WorkerRun

open WorkerRun

def Replaces (ts ts' : List (SpawnedTask I)) (t t' : SpawnedTask I) : Prop :=
  ∃ l r, ts = l ++ t :: r ∧ ts' = l ++ t' :: r

theorem replaces_set {k : Nat} (h : ts[k]? = some t) : Replaces ts (ts.set k t') t t' := by
  obtain ⟨hk, rfl⟩ := List.getElem?_eq_some_iff.mp h
  refine ⟨ts.take k, ts.drop (k + 1), ?_, List.set_eq_take_append_cons_drop .. |>.trans (if_pos hk)⟩
  rw [← List.drop_eq_getElem_cons hk, List.take_append_drop]

theorem replaces_joinNext (h : joinNext ts = some ts') : ∃ t, t.isFinished = true ∧ Replaces ts ts' t t.join := by
  induction ts generalizing ts' with
  | nil => cases h
  | cons u ts ih =>
      simp only [joinNext] at h
      split at h
      · cases h
        exact ⟨u, ‹_›, [], ts, rfl, rfl⟩
      · obtain ⟨rest, hrest, rfl⟩ := Option.map_eq_some_iff.mp h
        obtain ⟨t, ht, l, r, rfl, rfl⟩ := ih hrest
        exact ⟨t, ht, u :: l, r, rfl, rfl⟩

theorem Replaces.items (h : Replaces ts ts' t t') (ht : t'.item = t.item) :
    ts'.map SpawnedTask.item = ts.map SpawnedTask.item := by
  obtain ⟨l, r, rfl, rfl⟩ := h
  simp [ht]

theorem Replaces.running (h : Replaces ts ts' t t') :
    ts'.countP SpawnedTask.isRunning + (if t.isRunning then 1 else 0) =
      ts.countP SpawnedTask.isRunning + (if t'.isRunning then 1 else 0) := by
  obtain ⟨l, r, rfl, rfl⟩ := h
  simp only [List.countP_append, List.countP_cons]
  omega

theorem Replaces.forall {P : SpawnedTask I → Prop} (h : Replaces ts ts' t t') (hts : ∀ u ∈ ts, P u)
    (ht : P t → P t') : ∀ u ∈ ts', P u := by
  obtain ⟨l, r, rfl, rfl⟩ := h
  simp only [List.mem_append, List.mem_cons] at hts ⊢
  rintro u (hu | rfl | hu)
  · exact hts u (.inl hu)
  · exact ht (hts t (.inr (.inl rfl)))
  · exact hts u (.inr (.inr hu))

theorem Replaces.sound {s s' : WorkerRun I} (h : Replaces s.tasks s'.tasks t t') (hs : s.Sound state concurrency)
    (hitem : t'.item = t.item) (hprocesses : t.Processes state → t'.Processes state)
    (hphase : s'.phase = s.phase) (hcancelled : s'.cancelled = s.cancelled) (hreceived : s'.received = s.received)
    (hreturned : s.phase ≠ .returned) (hpermits : s'.permits + (if t'.isRunning then 1 else 0) = s.permits + (if t.isRunning then 1 else 0)) :
    s'.Sound state concurrency where
  permits := by
    have hrunning := h.running
    have hsum := hs.permits
    simp only [held, WorkerRun.running, hphase] at hsum ⊢
    omega
  received := by simp only [hreceived, hs.received, h.items hitem, inHand, hphase]
  processes := h.forall hs.processes hprocesses
  returned hr := absurd (hphase.symm.trans hr) hreturned
  observed ho := by
    rw [Observed, hphase] at ho
    exact hcancelled.trans (hs.observed ho)

theorem WorkerRun.Sound.move (hs : s.Sound state concurrency) (htasks : s'.tasks = s.tasks)
    (hreceived : s'.received = s.received) (hpermits : s'.permits + s'.held = s.permits + s.held)
    (hinHand : s'.inHand = s.inHand) (hreturned : s'.phase ≠ .returned)
    (hobserved : s'.Observed → s'.cancelled = true) : s'.Sound state concurrency where
  permits := by
    have hsum := hs.permits
    simp only [WorkerRun.running, htasks] at hsum ⊢
    omega
  received := by rw [hreceived, htasks, hinHand, hs.received]
  processes := by rw [htasks]; exact hs.processes
  returned hr := absurd hr hreturned
  observed := hobserved

theorem processes_join (h : t.Processes state) : t.join.Processes state := by
  obtain ⟨item, calls, st⟩ := t
  cases st with
  | finished panicked => cases panicked <;> exact h
  | running | joined => exact h

theorem not_running_of_finished (h : t.isFinished = true) : t.isRunning = false ∧ t.join.isRunning = false := by
  obtain ⟨item, calls, st⟩ := t
  cases st with
  | finished => exact ⟨rfl, rfl⟩
  | running | joined => cases h

theorem join_item : t.join.item = t.item := by
  obtain ⟨item, calls, st⟩ := t
  cases st <;> rfl

theorem sound_join {permits : Nat} {cancelled : Bool} {received : List DequeuedEmail} {phase : RunPhase}
    (hs : WorkerRun.Sound state concurrency ⟨phase, permits, cancelled, ts, received⟩) (h : joinNext ts = some ts')
    (hphase : phase ≠ .returned) : WorkerRun.Sound state concurrency ⟨phase, permits, cancelled, ts', received⟩ := by
  obtain ⟨t, ht, hreplaces⟩ := replaces_joinNext h
  obtain ⟨hrunning, hjoined⟩ := not_running_of_finished ht
  exact Replaces.sound (s := ⟨phase, permits, cancelled, ts, received⟩) hreplaces hs join_item processes_join rfl rfl rfl hphase
    (by rw [hrunning, hjoined])

theorem sound_spawn {permits : Nat} {cancelled : Bool} {received : List DequeuedEmail} {item : DequeuedEmail}
    (hs : WorkerRun.Sound state concurrency ⟨.dequeued (.ok item), permits, cancelled, ts, received⟩) :
    WorkerRun.Sound state concurrency
      ⟨.reaping, permits, cancelled, ts ++ [⟨item, [], .running (state.processOne item)⟩], received⟩ where
  permits := by
    have hsum := hs.permits
    have hone : [(⟨item, [], .running (state.processOne item)⟩ : SpawnedTask I)].countP SpawnedTask.isRunning = 1 := rfl
    simp only [held, WorkerRun.running, List.countP_append, hone] at hsum ⊢
    omega
  received := by
    have hreceived := hs.received
    simpa [inHand] using hreceived
  processes := by
    intro t ht
    rcases List.mem_append.mp ht with ht | ht
    · exact hs.processes t ht
    · rw [List.mem_singleton.mp ht]
      exact ⟨_, .refl, rfl⟩
  returned hr := by cases hr
  observed := by simp [Observed]

theorem sound_poll (hs : s.Sound state concurrency) (h : s.poll state = some s') : s'.Sound state concurrency := by
  obtain ⟨phase, permits, cancelled, tasks, received⟩ := s
  cases phase with
  | acquiring checked =>
      cases checked with
      | false =>
          cases h
          cases cancelled <;> exact hs.move rfl rfl rfl rfl (by simp) (by simp [Observed])
      | true =>
          simp only [poll] at h
          split at h <;> cases h
          · refine hs.move rfl rfl ?_ rfl (by simp) (by simp [Observed])
            simp only [held]
            omega
          · exact hs.move rfl rfl rfl rfl (by simp) (by simp [Observed])
  | dequeuing checked =>
      cases checked with
      | false =>
          simp only [poll] at h
          split at h <;> cases h
          · exact hs.move rfl rfl rfl rfl (by simp) fun _ => ‹_›
          · exact hs.move rfl rfl rfl rfl (by simp) (by simp [Observed])
      | true => cases h
  | dequeued result =>
      cases result with
      | ok item =>
          cases h
          exact sound_spawn hs
      | error e =>
          cases h
          exact hs.move rfl rfl rfl rfl (by simp) (by simp [Observed])
  | reaping =>
      simp only [poll] at h
      split at h <;> cases h
      · exact sound_join hs ‹_› (by simp)
      · exact hs.move rfl rfl rfl rfl (by simp) (by simp [Observed])
  | sleeping checked =>
      cases checked with
      | false =>
          cases h
          cases cancelled <;> exact hs.move rfl rfl rfl rfl (by simp) (by simp [Observed])
      | true => cases h
  | draining =>
      simp only [poll] at h
      split at h
      · cases h
        exact sound_join hs ‹_› (by simp)
      · split at h <;> cases h
        · refine ⟨hs.permits, hs.received, hs.processes, fun _ t ht => ?_, fun _ => hs.observed (.inl rfl)⟩
          exact List.all_eq_true.mp ‹_› t ht
        · exact hs
  | returned => cases h

theorem processes_answer {c : κ} (h : t.answer reply c = some t') :
    t'.item = t.item ∧ (t.Processes state → t'.Processes state) ∧ t.isRunning = true ∧ t'.isRunning = true := by
  obtain ⟨item, calls, st⟩ := t
  cases st with
  | running p =>
      cases p with
      | done u => cases h
      | await op next =>
          obtain ⟨r, -, rfl⟩ := Option.map_eq_some_iff.mp h
          refine ⟨rfl, ?_, rfl, rfl⟩
          rintro ⟨rest, hruns, hrest⟩
          cases hrest
          exact ⟨_, hruns.call r, rfl⟩
  | finished | joined => cases h

theorem processes_finish (h : t.finish = some t') :
    t'.item = t.item ∧ (t.Processes state → t'.Processes state) ∧ t.isRunning = true ∧ t'.isRunning = false := by
  obtain ⟨item, calls, st⟩ := t
  cases st with
  | running p =>
      cases p with
      | done u =>
          cases h
          refine ⟨rfl, ?_, rfl, rfl⟩
          rintro ⟨rest, hruns, hrest⟩
          exact ⟨rest, hruns, hrest.symm⟩
      | await op next => cases h
  | finished | joined => cases h

theorem processes_panic (h : t.panic = some t') :
    t'.item = t.item ∧ (t.Processes state → t'.Processes state) ∧ t.isRunning = true ∧ t'.isRunning = false := by
  obtain ⟨item, calls, st⟩ := t
  cases st with
  | running p =>
      cases h
      refine ⟨rfl, ?_, rfl, rfl⟩
      rintro ⟨rest, hruns, -⟩
      exact ⟨rest, hruns, trivial⟩
  | finished | joined => cases h

def RunEvent.isTask : RunEvent κ → Bool
  | .answer .. | .finish _ | .panic _ => true
  | _ => false

/-- What an event of a task does: a running task is replaced, and returns its permit
unless it is still running. -/
structure TaskStep (state : WorkerState (Program I)) (s s' : WorkerRun I) (t t' : SpawnedTask I) : Prop where
  running : t.isRunning = true
  replaces : Replaces s.tasks s'.tasks t t'
  item : t'.item = t.item
  processes : t.Processes state → t'.Processes state
  phase : s'.phase = s.phase
  cancelled : s'.cancelled = s.cancelled
  received : s'.received = s.received
  permits : s'.permits + (if t'.isRunning then 1 else 0) = s.permits + (if t.isRunning then 1 else 0)

theorem task_next (h : s.next state reply e = some s') (he : e.isTask = true) : ∃ t t', TaskStep state s s' t t' := by
  cases e with
  | cancel | poll | pollDequeue | pollSleep => cases he
  | answer k c =>
      obtain ⟨t', ht', rfl⟩ := Option.map_eq_some_iff.mp h
      obtain ⟨t, hk, ht⟩ := Option.bind_eq_some_iff.mp ht'
      obtain ⟨hitem, hprocesses, hrunning, hrunning'⟩ := processes_answer ht
      exact ⟨t, t', hrunning, replaces_set hk, hitem, hprocesses, rfl, rfl, rfl, by rw [hrunning, hrunning']⟩
  | finish k =>
      obtain ⟨t', ht', rfl⟩ := Option.map_eq_some_iff.mp h
      obtain ⟨t, hk, ht⟩ := Option.bind_eq_some_iff.mp ht'
      obtain ⟨hitem, hprocesses, hrunning, hrunning'⟩ := processes_finish ht
      exact ⟨t, t', hrunning, replaces_set hk, hitem, hprocesses, rfl, rfl, rfl, by simp [hrunning, hrunning']⟩
  | panic k =>
      obtain ⟨t', ht', rfl⟩ := Option.map_eq_some_iff.mp h
      obtain ⟨t, hk, ht⟩ := Option.bind_eq_some_iff.mp ht'
      obtain ⟨hitem, hprocesses, hrunning, hrunning'⟩ := processes_panic ht
      exact ⟨t, t', hrunning, replaces_set hk, hitem, hprocesses, rfl, rfl, rfl, by simp [hrunning, hrunning']⟩

theorem TaskStep.sound (h : TaskStep state s s' t t') (hs : s.Sound state concurrency) : s'.Sound state concurrency := by
  refine h.replaces.sound hs h.item h.processes h.phase h.cancelled h.received (fun hr => ?_) h.permits
  obtain ⟨l, r, hts, -⟩ := h.replaces
  have hjoined := hs.returned hr t (hts ▸ List.mem_append_right l List.mem_cons_self)
  have hrunning := h.running
  obtain ⟨item, calls, st⟩ := t
  cases st with
  | running => cases hjoined
  | finished | joined => cases hrunning

theorem sound_next (hs : s.Sound state concurrency) (h : s.next state reply e = some s') :
    s'.Sound state concurrency := by
  cases e with
  | cancel =>
      cases h
      exact ⟨hs.permits, hs.received, hs.processes, hs.returned, fun _ => rfl⟩
  | poll => exact sound_poll hs h
  | pollDequeue answer =>
      obtain ⟨phase, permits, cancelled, tasks, received⟩ := s
      cases phase with
      | dequeuing checked =>
          cases checked with
          | false => cases answer <;> cases h
          | true =>
              rcases answer with _ | e | item
              · cases h
                exact hs.move rfl rfl rfl rfl (by simp) (by simp [Observed])
              · cases h
                exact hs.move rfl rfl rfl rfl (by simp) (by simp [Observed])
              · cases h
                refine ⟨hs.permits, ?_, hs.processes, nofun, by simp [Observed]⟩
                have hreceived := hs.received
                simp only [inHand, List.append_nil] at hreceived ⊢
                rw [hreceived]
      | _ => cases answer <;> cases h
  | pollSleep elapsed =>
      obtain ⟨phase, permits, cancelled, tasks, received⟩ := s
      cases phase with
      | sleeping checked =>
          cases checked with
          | false => cases h
          | true =>
              cases h
              cases elapsed <;> exact hs.move rfl rfl rfl rfl (by simp) (by simp [Observed])
      | _ => cases h
  | answer | finish | panic =>
      obtain ⟨t, t', hstep⟩ := task_next h rfl
      exact hstep.sound hs

theorem sound_run (hs : s.Sound state concurrency) (h : s.run state reply es = some s') : s'.Sound state concurrency := by
  induction es generalizing s with
  | nil => cases h; exact hs
  | cons e es ih =>
      obtain ⟨t, ht, h⟩ := Option.bind_eq_some_iff.mp h
      exact ih (sound_next hs ht) h

theorem sound_start (h : start concurrency = some s) : s.Sound state concurrency := by
  unfold start at h
  split at h <;> cases h
  exact ⟨rfl, rfl, nofun, nofun, by simp [Observed]⟩

theorem observed_next (ho : s.Observed) (h : s.next state reply e = some s') :
    s'.Observed ∧ s'.received = s.received ∧ s'.tasks.map SpawnedTask.item = s.tasks.map SpawnedTask.item := by
  cases e with
  | cancel =>
      cases h
      exact ⟨ho, rfl, rfl⟩
  | poll =>
      obtain ⟨phase, permits, cancelled, tasks, received⟩ := s
      rcases ho with rfl | rfl
      · simp only [next, poll] at h
        split at h
        · cases h
          obtain ⟨t, ht, hreplaces⟩ := replaces_joinNext ‹_›
          exact ⟨.inl rfl, rfl, hreplaces.items join_item⟩
        · split at h <;> cases h
          · exact ⟨.inr rfl, rfl, rfl⟩
          · exact ⟨.inl rfl, rfl, rfl⟩
      · cases h
  | pollDequeue answer =>
      obtain ⟨phase, permits, cancelled, tasks, received⟩ := s
      rcases ho with rfl | rfl <;> cases answer <;> cases h
  | pollSleep elapsed =>
      obtain ⟨phase, permits, cancelled, tasks, received⟩ := s
      rcases ho with rfl | rfl <;> cases h
  | answer | finish | panic =>
      obtain ⟨t, t', hstep⟩ := task_next h rfl
      exact ⟨by rw [Observed, hstep.phase]; exact ho, hstep.received, hstep.replaces.items hstep.item⟩

theorem observed_run (ho : s.Observed) (h : s.run state reply es = some s') :
    s'.received = s.received ∧ s'.tasks.map SpawnedTask.item = s.tasks.map SpawnedTask.item := by
  induction es generalizing s with
  | nil => cases h; exact ⟨rfl, rfl⟩
  | cons e es ih =>
      obtain ⟨t, ht, h⟩ := Option.bind_eq_some_iff.mp h
      obtain ⟨ho', hreceived, htasks⟩ := observed_next ho ht
      obtain ⟨hreceived', htasks'⟩ := ih ho' h
      exact ⟨hreceived'.trans hreceived, htasks'.trans htasks⟩

def RunEvent.IsOwn : RunEvent κ → Prop
  | .poll | .pollDequeue none | .pollSleep true => True
  | _ => False

/-- The loop gets there by itself. -/
def Leads (state : WorkerState (Program I)) (reply : κ → (op : I.Op) → Option (I.Reply op)) (s s' : WorkerRun I) : Prop :=
  ∃ es, (∀ e ∈ es, RunEvent.IsOwn e) ∧ s.run state reply es = some s'

theorem Leads.refl : Leads state reply s s := ⟨[], nofun, rfl⟩

theorem Leads.head {u : WorkerRun I} (he : e.IsOwn) (h : s.next state reply e = some u) (hl : Leads state reply u s') :
    Leads state reply s s' := by
  obtain ⟨es, hes, hr⟩ := hl
  exact ⟨e :: es, List.forall_mem_cons.mpr ⟨he, hes⟩, by rw [run, h]; exact hr⟩

theorem Leads.trans {u : WorkerRun I} (h : Leads state reply s u) (h' : Leads state reply u s') : Leads state reply s s' := by
  obtain ⟨es, hes, hr⟩ := h
  induction es generalizing s with
  | nil => cases hr; exact h'
  | cons e es ih =>
      obtain ⟨v, hv, hr⟩ := Option.bind_eq_some_iff.mp hr
      exact .head (hes e List.mem_cons_self) hv (ih (fun e he => hes e (List.mem_cons_of_mem _ he)) hr)

theorem Leads.poll {u : WorkerRun I} (h : s.poll state = some u) (hl : Leads state reply u s') : Leads state reply s s' :=
  .head (e := .poll) trivial h hl

theorem count_finished_joinNext (h : joinNext ts = some ts') :
    ts'.countP SpawnedTask.isFinished + 1 = ts.countP SpawnedTask.isFinished := by
  obtain ⟨t, ht, l, r, rfl, rfl⟩ := replaces_joinNext h
  have hjoined : t.join.isFinished = false := by
    obtain ⟨item, calls, st⟩ := t
    cases st with
    | finished => rfl
    | running | joined => cases ht
  simp only [List.countP_append, List.countP_cons, ht, hjoined, if_true, Bool.false_eq_true, if_false]
  omega

theorem leads_of_joinNext (state : WorkerState (Program I)) (reply : κ → (op : I.Op) → Option (I.Reply op))
    (s : WorkerRun I) (hphase : s.phase = .reaping ∨ s.phase = .draining) :
    ∃ ts', joinNext ts' = none ∧ Leads state reply s { s with tasks := ts' } := by
  obtain ⟨phase, permits, cancelled, ts, received⟩ := s
  dsimp only at hphase
  generalize hn : ts.countP SpawnedTask.isFinished = n
  induction n generalizing ts with
  | zero =>
      refine ⟨ts, ?_, .refl⟩
      cases hjoin : joinNext ts with
      | none => rfl
      | some ts' => exact absurd (count_finished_joinNext hjoin) (by omega)
  | succ n ih =>
      cases hjoin : joinNext ts with
      | none => exact ⟨ts, hjoin, .refl⟩
      | some ts' =>
          have hcount := count_finished_joinNext hjoin
          obtain ⟨ts'', hnone, hl⟩ := ih ts' (by omega)
          refine ⟨ts'', hnone, .poll ?_ hl⟩
          rcases hphase with rfl | rfl <;> simp only [poll, hjoin]

theorem isFinished_of_joinNext (h : joinNext ts = none) : ∀ t ∈ ts, t.isFinished = false := by
  induction ts with
  | nil => nofun
  | cons t ts ih =>
      simp only [joinNext] at h
      split at h
      · cases h
      · rename_i hfinished
        exact List.forall_mem_cons.mpr ⟨by simpa using hfinished, ih (Option.map_eq_none_iff.mp h)⟩

theorem leads_of_draining (hphase : s.phase = .draining) : ∃ s', Leads state reply s s' ∧
    (s'.phase = .returned ∨ s'.phase = .draining ∧ 0 < s'.running) := by
  obtain ⟨ts, hnone, hl⟩ := leads_of_joinNext state reply s (.inr hphase)
  obtain ⟨phase, permits, cancelled, tasks, received⟩ := s
  obtain rfl : phase = .draining := hphase
  by_cases hjoined : ts.all SpawnedTask.isJoined = true
  · refine ⟨⟨.returned, permits, cancelled, ts, received⟩, hl.trans (.poll ?_ .refl), .inl rfl⟩
    simp only [poll, hnone, hjoined, if_true]
  · refine ⟨_, hl, .inr ⟨rfl, List.countP_pos_iff.mpr ?_⟩⟩
    obtain ⟨t, ht, hnot⟩ : ∃ t ∈ ts, t.isJoined = false := by simpa using hjoined
    have hfinished := isFinished_of_joinNext hnone t ht
    refine ⟨t, ht, ?_⟩
    obtain ⟨item, calls, st⟩ := t
    cases st with
    | running => rfl
    | finished => cases hfinished
    | joined => cases hnot

theorem leads_of_acquiring (reply : κ → (op : I.Op) → Option (I.Reply op)) {permits : Nat} {received : List DequeuedEmail}
    (hs : WorkerRun.Sound state concurrency ⟨.acquiring false, permits, false, ts, received⟩) :
    ∃ s', Leads state reply ⟨.acquiring false, permits, false, ts, received⟩ s' ∧
      (s'.phase = .dequeuing true ∨ s'.phase = .acquiring false ∧ s'.running = concurrency) := by
  by_cases hpermits : 0 < permits
  · refine ⟨⟨.dequeuing true, permits - 1, false, ts, received⟩, ?_, .inl rfl⟩
    exact .poll rfl (.poll (if_pos hpermits) (.poll rfl .refl))
  · refine ⟨_, .refl, .inr ⟨rfl, ?_⟩⟩
    have hsum := hs.permits
    simp only [held] at hsum
    omega

theorem Leads.sound (h : Leads state reply s s') (hs : s.Sound state concurrency) : s'.Sound state concurrency := by
  obtain ⟨es, -, hr⟩ := h
  exact sound_run hs hr

/-- Unless the token is cancelled, the loop gets to its next poll of the queue by
itself, or it waits for a permit and all are with running tasks. -/
theorem leads_open (hs : s.Sound state concurrency) (hopen : s.cancelled = false) :
    ∃ s', Leads state reply s s' ∧
      (s'.phase = .dequeuing true ∨ s'.phase = .acquiring false ∧ s'.running = concurrency) := by
  have hacquiring {u : WorkerRun I} (hl : Leads state reply s u) (hphase : u.phase = .acquiring false)
      (hopen : u.cancelled = false) : ∃ s', Leads state reply s s' ∧
        (s'.phase = .dequeuing true ∨ s'.phase = .acquiring false ∧ s'.running = concurrency) := by
    have hu := hl.sound hs
    obtain ⟨phase, permits, cancelled, tasks, received⟩ := u
    obtain rfl : phase = .acquiring false := hphase
    obtain rfl : cancelled = false := hopen
    obtain ⟨s', hl', hs'⟩ := leads_of_acquiring reply hu
    exact ⟨s', hl.trans hl', hs'⟩
  obtain ⟨phase, permits, cancelled, tasks, received⟩ := s
  obtain rfl : cancelled = false := hopen
  have hreaping {ts : List (SpawnedTask I)}
      (hl : Leads state reply ⟨phase, permits, false, tasks, received⟩ ⟨.reaping, permits, false, ts, received⟩) :
      ∃ s', Leads state reply ⟨phase, permits, false, tasks, received⟩ s' ∧
        (s'.phase = .dequeuing true ∨ s'.phase = .acquiring false ∧ s'.running = concurrency) := by
    obtain ⟨ts', hnone, hl'⟩ := leads_of_joinNext state reply ⟨.reaping, permits, false, ts, received⟩ (.inl rfl)
    refine hacquiring (u := ⟨.acquiring false, permits, false, ts', received⟩) (hl.trans (hl'.trans (.poll ?_ .refl))) rfl rfl
    simp only [poll, hnone]
  cases phase with
  | acquiring checked =>
      cases checked with
      | false => exact hacquiring .refl rfl rfl
      | true =>
          by_cases hpermits : 0 < permits
          · exact ⟨⟨.dequeuing true, permits - 1, false, tasks, received⟩, .poll (if_pos hpermits) (.poll rfl .refl), .inl rfl⟩
          · exact hacquiring (.poll (if_neg hpermits) .refl) rfl rfl
  | dequeuing checked =>
      cases checked with
      | false => exact ⟨⟨.dequeuing true, permits, false, tasks, received⟩, .poll rfl .refl, .inl rfl⟩
      | true => exact ⟨_, .refl, .inl rfl⟩
  | dequeued result =>
      cases result with
      | ok item => exact hreaping (.poll rfl .refl)
      | error e =>
          exact hacquiring (.poll rfl (.poll rfl (.head (e := .pollSleep true) trivial rfl .refl))) rfl rfl
  | reaping => exact hreaping .refl
  | sleeping checked =>
      cases checked with
      | false => exact hacquiring (.poll rfl (.head (e := .pollSleep true) trivial rfl .refl)) rfl rfl
      | true => exact hacquiring (.head (e := .pollSleep true) trivial rfl .refl) rfl rfl
  | draining => exact nomatch hs.observed (.inl rfl)
  | returned => exact nomatch hs.observed (.inr rfl)

theorem leads_cancelled (hcancelled : s.cancelled = true) : ∃ s', Leads state reply s s' ∧
    (s'.phase = .returned ∨ s'.phase = .draining ∧ 0 < s'.running) := by
  have hdraining {u : WorkerRun I} (hl : Leads state reply s u) (hphase : u.phase = .draining) :
      ∃ s', Leads state reply s s' ∧ (s'.phase = .returned ∨ s'.phase = .draining ∧ 0 < s'.running) := by
    obtain ⟨s', hl', hs'⟩ := leads_of_draining hphase
    exact ⟨s', hl.trans hl', hs'⟩
  obtain ⟨phase, permits, cancelled, tasks, received⟩ := s
  obtain rfl : cancelled = true := hcancelled
  have hreaping {ts : List (SpawnedTask I)}
      (hl : Leads state reply ⟨phase, permits, true, tasks, received⟩ ⟨.reaping, permits, true, ts, received⟩) :
      ∃ s', Leads state reply ⟨phase, permits, true, tasks, received⟩ s' ∧
        (s'.phase = .returned ∨ s'.phase = .draining ∧ 0 < s'.running) := by
    obtain ⟨ts', hnone, hl'⟩ := leads_of_joinNext state reply ⟨.reaping, permits, true, ts, received⟩ (.inl rfl)
    refine hdraining (hl.trans (hl'.trans (.poll (u := ⟨.acquiring false, permits, true, ts', received⟩) ?_ (.poll rfl .refl)))) rfl
    simp only [poll, hnone]
  cases phase with
  | acquiring checked =>
      cases checked with
      | false => exact hdraining (.poll rfl .refl) rfl
      | true =>
          by_cases hpermits : 0 < permits
          · exact hdraining (.poll (if_pos hpermits) (.poll rfl .refl)) rfl
          · exact hdraining (.poll (if_neg hpermits) (.poll rfl .refl)) rfl
  | dequeuing checked =>
      cases checked with
      | false => exact hdraining (.poll rfl .refl) rfl
      | true => exact hdraining (.head (e := .pollDequeue none) trivial rfl (.poll rfl .refl)) rfl
  | dequeued result =>
      cases result with
      | ok item => exact hreaping (.poll rfl .refl)
      | error e => exact hdraining (.poll rfl (.poll rfl .refl)) rfl
  | reaping => exact hreaping .refl
  | sleeping checked =>
      cases checked with
      | false => exact hdraining (.poll rfl .refl) rfl
      | true => exact hdraining (.head (e := .pollSleep true) trivial rfl (.poll rfl .refl)) rfl
  | draining => exact hdraining .refl rfl
  | returned => exact ⟨_, .refl, .inl rfl⟩

/-- In every run of the loop no more tasks run than it may, each item it dequeued is
in the hands of exactly one task, nothing is dequeued once the cancellation is seen,
no permit is lost and the loop is never stuck, and it returns when all tasks have. -/
theorem worker_drains (state : WorkerState (Program I)) (reply : κ → (op : I.Op) → Option (I.Reply op))
    (hc : 1 ≤ concurrency) {first : WorkerRun I} (hstart : start concurrency = some first)
    (h : first.run state reply es = some s) :
    s.running ≤ concurrency ∧
    (s.received = s.tasks.map SpawnedTask.item ++ s.inHand ∧ ∀ t ∈ s.tasks, t.Processes state) ∧
    (s.Observed → s.inHand = [] ∧ ∀ es' s', s.run state reply es' = some s' →
      s'.received = s.received ∧ s'.tasks.map SpawnedTask.item = s.tasks.map SpawnedTask.item) ∧
    s.permits + s.held + s.running = concurrency ∧
    (s.cancelled = false → ∃ s', Leads state reply s s' ∧
      (s'.phase = .dequeuing true ∨ s'.phase = .acquiring false ∧ s'.running = concurrency ∧ 0 < s'.running)) ∧
    (s.cancelled = true → ∃ s', Leads state reply s s' ∧
      (s'.phase = .returned ∨ s'.phase = .draining ∧ 0 < s'.running)) ∧
    (s.phase = .returned → ∀ t ∈ s.tasks, t.isJoined = true) := by
  have hs := sound_run (sound_start hstart) h
  refine ⟨?_, ⟨hs.received, hs.processes⟩, fun ho => ⟨?_, fun es' s' h' => observed_run ho h'⟩, hs.permits, fun hopen => ?_,
    leads_cancelled, hs.returned⟩
  · have hsum := hs.permits
    omega
  · rcases ho with ho | ho <;> simp only [inHand, ho]
  · obtain ⟨s', hl, hs'⟩ := leads_open hs hopen
    exact ⟨s', hl, hs'.imp_right fun ⟨hphase, hrunning⟩ => ⟨hphase, hrunning, by omega⟩⟩

def smoothly : Unit → (op : Effect) → Option op.Reply
  | _, .newUuid => some 1
  | _, .insertEvent .. => some (.ok ())
  | _, .process _ => some (.ok ⟨"smtp"⟩)
  | _, .deleteEntry _ => some (.ok ())
  | _, .setAttachments .. => some (.ok ())
  | _, _ => none

def dequeuedLetter : DequeuedEmail :=
  ⟨⟨1⟩, ⟨none, none, none, "from@example.com", [], .plain ⟨some "dear all", none, .inl rfl⟩, .new, []⟩, 1, 1⟩

/-- One email is sent while the loop waits for its permit, a dequeue fails, and the
token is cancelled before the sleep. -/
def drained : List (RunEvent Unit) :=
  [.poll, .poll, .poll, .pollDequeue (some (.ok dequeuedLetter)), .poll, .poll, .poll, .poll,
    .answer 0 (), .answer 0 (), .answer 0 (), .answer 0 (), .answer 0 (), .answer 0 (), .answer 0 (), .finish 0,
    .poll, .poll, .poll, .pollDequeue (some (.error (.storage "claiming next queue entry"))), .poll, .cancel, .poll,
    .poll, .poll]

def sqliteWorker : WorkerState Prog := Adapters.worker ⟨.sqlite, .sqlite, .fromSecs 3600⟩

theorem worker_drains_one : ∃ first s, start 1 = some first ∧ first.run sqliteWorker smoothly drained = some s ∧
    s.received = s.tasks.map SpawnedTask.item ++ s.inHand ∧ s.permits + s.held + s.running = 1 ∧
      s.received.length = 1 ∧ ∀ t ∈ s.tasks, t.isJoined = true := by
  have hrun : ∃ first s, start 1 = some first ∧ first.run sqliteWorker smoothly drained = some s ∧
      s.phase = .returned ∧ s.received.length = 1 := ⟨_, _, rfl, rfl, rfl, rfl⟩
  obtain ⟨first, s, hstart, h, hreturned, hone⟩ := hrun
  obtain ⟨-, ⟨hreceived, -⟩, -, hpermits, -, -, hjoined⟩ := worker_drains sqliteWorker smoothly (by decide) hstart h
  exact ⟨first, s, hstart, h, hreceived, hpermits, hone, hjoined hreturned⟩

end Catapulte
