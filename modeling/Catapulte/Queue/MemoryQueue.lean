import Mathlib.Logic.Function.Basic
import Catapulte.Async.Crew
import Catapulte.Domain.Port

namespace Catapulte.Atomic

open Async

/-- An item of the queue. `serial` numbers the `enqueue` it comes from: the code
has no such field, and no step reads it. -/
structure Item where
  serial : Nat
  id : EmailId
  envelope : Envelope
  attempt : UInt32

/-- A `ready_count` below zero stands for one that has wrapped. `closed` means
that the receiver is gone: it lives in the queue, and goes with its last clone. -/
structure MemoryQueue where
  channel : List Item
  pending : List (UInt64 × Item)
  nextToken : UInt64
  readyCount : Int
  closed : Bool

def MemoryQueue.new : MemoryQueue := ⟨[], [], 0, 0, false⟩

/-- `n` as `k` bytes, the lowest first. -/
def leBytes : Nat → Nat → List UInt8
  | 0, _ => []
  | k + 1, n => UInt8.ofNat n :: leBytes k (n / 256)

def ofLeBytes : List UInt8 → Nat
  | [] => 0
  | b :: bytes => b.toNat + 256 * ofLeBytes bytes

def toLeBytes (token : UInt64) : List UInt8 := leBytes 8 token.toNat

def fromLeBytes (bytes : List UInt8) : Option UInt64 :=
  if bytes.length = 8 then some (UInt64.ofNat (ofLeBytes bytes)) else none

theorem length_leBytes (k n : Nat) : (leBytes k n).length = k := by
  induction k generalizing n with
  | zero => rfl
  | succ k ih => simp [leBytes, ih]

theorem ofLeBytes_leBytes (k n : Nat) : ofLeBytes (leBytes k n) = n % 256 ^ k := by
  induction k generalizing n with
  | zero => simp [leBytes, ofLeBytes, Nat.mod_one]
  | succ k ih =>
      rw [leBytes, ofLeBytes, ih, Nat.pow_succ', Nat.mod_mul]
      simp

theorem leBytes_ofLeBytes (bytes : List UInt8) : leBytes bytes.length (ofLeBytes bytes) = bytes := by
  induction bytes with
  | nil => rfl
  | cons b bytes ih =>
      have hb := b.toNat_lt
      have hdiv : (b.toNat + 256 * ofLeBytes bytes) / 256 = ofLeBytes bytes := by omega
      have hmod : UInt8.ofNat (b.toNat + 256 * ofLeBytes bytes) = b := by
        apply UInt8.toNat_inj.mp
        simp only [UInt8.toNat_ofNat']
        omega
      rw [List.length_cons, leBytes, ofLeBytes, hdiv, hmod, ih]

theorem ofLeBytes_lt (bytes : List UInt8) : ofLeBytes bytes < 256 ^ bytes.length := by
  induction bytes with
  | nil => simp [ofLeBytes]
  | cons b bytes ih =>
      have hb := b.toNat_lt
      rw [ofLeBytes, List.length_cons, Nat.pow_succ]
      omega

@[simp] theorem fromLeBytes_toLeBytes (token : UInt64) : fromLeBytes (toLeBytes token) = some token := by
  have h : token.toNat < 256 ^ 8 := token.toNat_lt
  rw [fromLeBytes, toLeBytes, if_pos (length_leBytes ..), ofLeBytes_leBytes, Nat.mod_eq_of_lt h,
    UInt64.ofNat_toNat]

theorem toLeBytes_of_fromLeBytes {bytes : List UInt8} {token : UInt64} (h : fromLeBytes bytes = some token) :
    toLeBytes token = bytes := by
  unfold fromLeBytes at h
  split at h <;> cases h
  rename_i hlen
  have hlt : ofLeBytes bytes < 2 ^ 64 := by simpa [hlen] using ofLeBytes_lt bytes
  rw [toLeBytes, UInt64.toNat_ofNat', Nat.mod_eq_of_lt hlt, ← hlen, leBytes_ofLeBytes]

theorem toLeBytes_injective : Function.Injective toLeBytes := by
  intro a b h
  have hf := congrArg fromLeBytes h
  simpa using hf

structure Delivery where
  item : Item
  tokenId : UInt64

def Delivery.token (d : Delivery) : List UInt8 := toLeBytes d.tokenId

/-- A call or a requeue task, by the atomic step it is about to take. -/
inductive Task
  | enqueue (serial : Nat) (id : EmailId) (envelope : Envelope)
  | sending (item : Item)
  | undoing (e : Option EmailQueueError)
  | enqueued (serial : Nat)
  | dequeue
  | received (item : Item)
  | uncounted (item : Item)
  | inserting (token : UInt64) (item : Item)
  | delivered (d : Delivery)
  | ack (token : List UInt8)
  | acked (token : UInt64) (entry : Option Item)
  | nack (token : List UInt8) (delay : Duration)
  | spawning (token : UInt64) (item : Item) (delay : Duration)
  | nacked (token : UInt64) (entry : Option Item)
  | asleep (item : Item) (delay : Duration)
  | resending (item : Item)
  | failed (e : EmailQueueError)

namespace MemoryQueue

def get (q : MemoryQueue) (token : UInt64) : Option Item :=
  (q.pending.find? fun p => p.1 = token).map Prod.snd

def remove (q : MemoryQueue) (token : UInt64) : MemoryQueue :=
  { q with pending := q.pending.filter fun p => p.1 ≠ token }

def insert (q : MemoryQueue) (token : UInt64) (item : Item) : MemoryQueue :=
  { q with pending := (token, item) :: q.pending.filter fun p => p.1 ≠ token }

def closedError : EmailQueueError := .storage "memory queue channel closed"

/-- The next atomic step of a call of `enqueue`, `dequeue`, `ack` or `nack`, or
of the task that `nack` spawns. The mutex around the receiver only puts waiting
`dequeue`s in an order, which is left open. -/
def step (q : MemoryQueue) : Task → Option (MemoryQueue × List Task)
  -- enqueue
  | .enqueue serial id envelope =>
      some ({ q with readyCount := q.readyCount + 1 }, [.sending ⟨serial, id, envelope, 1⟩])
  | .sending item =>
      if q.closed then some (q, [.undoing (some closedError)])
      else some ({ q with channel := q.channel ++ [item] }, [.enqueued item.serial])
  | .undoing e => some ({ q with readyCount := q.readyCount - 1 }, e.toList.map .failed)
  -- dequeue
  | .dequeue =>
      match q.channel with
      | item :: channel => some ({ q with channel }, [.received item])
      | [] => if q.closed then some (q, [.failed closedError]) else none
  | .received item => some ({ q with readyCount := q.readyCount - 1 }, [.uncounted item])
  | .uncounted item => some ({ q with nextToken := q.nextToken + 1 }, [.inserting q.nextToken item])
  | .inserting token item => some (q.insert token item, [.delivered ⟨item, token⟩])
  -- ack
  | .ack bytes =>
      match fromLeBytes bytes with
      | none => some (q, [.failed (.storage "invalid ack token length")])
      | some token => some (q.remove token, [.acked token (q.get token)])
  -- nack
  | .nack bytes delay =>
      match fromLeBytes bytes with
      | none => some (q, [.failed (.storage "invalid nack token length")])
      | some token =>
          match q.get token with
          | none => some (q.remove token, [.nacked token none])
          | some item => some (q.remove token, [.spawning token item delay])
  | .spawning token item delay => some (q, [.nacked token (some item), .asleep item delay])
  -- the requeue task, whose sleep may end at any time
  | .asleep item _ => some ({ q with readyCount := q.readyCount + 1 }, [.resending item])
  | .resending item =>
      if q.closed then some (q, [.undoing none])
      else some ({ q with channel := q.channel ++ [{ item with attempt := item.attempt + 1 }] }, [])
  | .enqueued _ | .delivered _ | .acked .. | .nacked .. | .failed _ => none

end MemoryQueue

/-- The task does not hold the queue: it is a requeue task, or it has returned. -/
def Task.detached : Task → Bool
  | .asleep .. | .resending _ | .undoing none => true
  | .enqueued _ | .delivered _ | .acked .. | .nacked .. | .failed _ => true
  | _ => false

inductive Request
  | enqueue (id : EmailId) (envelope : Envelope)
  | dequeue
  | ack (token : List UInt8)
  | nack (token : List UInt8) (delay : Duration)

def Request.task (serial : Nat) : Request → Task
  | enqueue id envelope => .enqueue serial id envelope
  | dequeue => .dequeue
  | ack token => .ack token
  | nack token delay => .nack token delay

/-- Any number of calls on the clones of one queue. Only a waiting `dequeue` can
be cancelled, since no other step is awaited. The last clone is dropped when no
call holds the queue any more. -/
@[reducible] def rules : Crew.Rules MemoryQueue Task Request Unit Unit where
  enter := Request.task
  step q t _ := q.step t
  cancels t := t matches .dequeue
  drift q ts _ := if ts.all Task.detached then some { q with channel := [], pending := [], closed := true } else none

abbrev State := Crew MemoryQueue Task

def State.new : State := ⟨.new, [], 0⟩

end Catapulte.Atomic
