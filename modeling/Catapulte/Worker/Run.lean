import Catapulte.Async.Program
import Catapulte.Worker.ProcessOne

namespace Catapulte

open Async

def maxPermits : Nat := 2 ^ 61 - 1

inductive TaskState (I : Interface)
  | running (rest : Program I Unit)
  | finished (panicked : Bool)
  | joined (panicked : Bool)

/-- A task of the `JoinSet`, which holds a permit as long as it is running. The calls
it has made are kept in order. -/
structure SpawnedTask (I : Interface) where
  item : DequeuedEmail
  calls : List ((op : I.Op) × I.Reply op)
  state : TaskState I

/-- Where `run` stands. A select polls the token first, and is `checked` when it has
found it not cancelled and polls its other branch next. -/
inductive RunPhase
  | acquiring (checked : Bool)
  | dequeuing (checked : Bool)
  | dequeued (result : Except EmailQueueError DequeuedEmail)
  | reaping
  | sleeping (checked : Bool)
  | draining
  | returned

structure WorkerRun (I : Interface) where
  phase : RunPhase
  permits : Nat
  cancelled : Bool
  tasks : List (SpawnedTask I)
  /-- The items of the dequeues that completed with `Ok`, in order. -/
  received : List DequeuedEmail

/-- `poll` is a step of the loop that the state alone decides. The dequeue and the
sleep are polled with what becomes of them, `none` being `Pending`. -/
inductive RunEvent (κ : Type)
  | cancel
  | poll
  | pollDequeue (answer : Option (Except EmailQueueError DequeuedEmail))
  | pollSleep (elapsed : Bool)
  | answer (k : Nat) (c : κ)
  | finish (k : Nat)
  | panic (k : Nat)

variable {I : Interface} {κ : Type}

namespace SpawnedTask

def isRunning (t : SpawnedTask I) : Bool :=
  match t.state with
  | .running _ => true
  | _ => false

def isFinished (t : SpawnedTask I) : Bool :=
  match t.state with
  | .finished _ => true
  | _ => false

def isJoined (t : SpawnedTask I) : Bool :=
  match t.state with
  | .joined _ => true
  | _ => false

def join (t : SpawnedTask I) : SpawnedTask I :=
  match t.state with
  | .finished panicked => { t with state := .joined panicked }
  | _ => t

def answer (reply : κ → (op : I.Op) → Option (I.Reply op)) (c : κ) (t : SpawnedTask I) : Option (SpawnedTask I) :=
  match t.state with
  | .running (.await op next) => (reply c op).map fun r => ⟨t.item, t.calls ++ [⟨op, r⟩], .running (next r)⟩
  | _ => none

def finish (t : SpawnedTask I) : Option (SpawnedTask I) :=
  match t.state with
  | .running (.done ()) => some { t with state := .finished false }
  | _ => none

def panic (t : SpawnedTask I) : Option (SpawnedTask I) :=
  match t.state with
  | .running _ => some { t with state := .finished true }
  | _ => none

end SpawnedTask

namespace WorkerRun

variable (state : WorkerState (Program I)) (reply : κ → (op : I.Op) → Option (I.Reply op))

/-- `Semaphore::new` panics when there are too many permits. -/
def start (concurrency : Nat) : Option (WorkerRun I) :=
  if concurrency ≤ maxPermits then some ⟨.acquiring false, concurrency, false, [], []⟩ else none

/-- `try_join_next`, and `join_next` when there is a task to join. -/
def joinNext : List (SpawnedTask I) → Option (List (SpawnedTask I))
  | [] => none
  | t :: ts => if t.isFinished then some (t.join :: ts) else (joinNext ts).map (t :: ·)

def poll (s : WorkerRun I) : Option (WorkerRun I) :=
  match s.phase with
  | .acquiring false => some { s with phase := if s.cancelled then .draining else .acquiring true }
  | .acquiring true =>
      if 0 < s.permits then some { s with phase := .dequeuing false, permits := s.permits - 1 }
      else some { s with phase := .acquiring false }
  | .dequeuing false =>
      if s.cancelled then some { s with phase := .draining, permits := s.permits + 1 }
      else some { s with phase := .dequeuing true }
  | .dequeued (.ok item) =>
      some { s with phase := .reaping, tasks := s.tasks ++ [⟨item, [], .running (state.processOne item)⟩] }
  | .dequeued (.error _) => some { s with phase := .sleeping false, permits := s.permits + 1 }
  | .reaping =>
      match joinNext s.tasks with
      | some tasks => some { s with tasks }
      | none => some { s with phase := .acquiring false }
  | .sleeping false => some { s with phase := if s.cancelled then .draining else .sleeping true }
  | .draining =>
      match joinNext s.tasks with
      | some tasks => some { s with tasks }
      | none => if s.tasks.all SpawnedTask.isJoined then some { s with phase := .returned } else some s
  | .dequeuing true | .sleeping true | .returned => none

def next (s : WorkerRun I) : RunEvent κ → Option (WorkerRun I)
  | .cancel => some { s with cancelled := true }
  | .poll => s.poll state
  | .pollDequeue answer =>
      match s.phase, answer with
      | .dequeuing true, none => some { s with phase := .dequeuing false }
      | .dequeuing true, some (.ok item) => some { s with phase := .dequeued (.ok item), received := s.received ++ [item] }
      | .dequeuing true, some (.error e) => some { s with phase := .dequeued (.error e) }
      | _, _ => none
  | .pollSleep elapsed =>
      match s.phase with
      | .sleeping true => some { s with phase := if elapsed then .acquiring false else .sleeping false }
      | _ => none
  | .answer k c =>
      (s.tasks[k]?.bind (·.answer reply c)).map fun t => { s with tasks := s.tasks.set k t }
  | .finish k =>
      (s.tasks[k]?.bind SpawnedTask.finish).map fun t => { s with permits := s.permits + 1, tasks := s.tasks.set k t }
  | .panic k =>
      (s.tasks[k]?.bind SpawnedTask.panic).map fun t => { s with permits := s.permits + 1, tasks := s.tasks.set k t }

def run (s : WorkerRun I) : List (RunEvent κ) → Option (WorkerRun I)
  | [] => some s
  | e :: es => (s.next state reply e).bind fun s' => s'.run es

end WorkerRun

end Catapulte
