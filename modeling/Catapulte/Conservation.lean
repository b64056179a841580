import Mathlib.Data.List.Count
import Mathlib.Data.List.Nodup
import Mathlib.Data.List.Perm.Basic
import Catapulte.Queue.MemoryQueue

namespace Catapulte.Atomic

open Async

variable {q q' : MemoryQueue} {s s' : State} {t : Task} {ts : List Task}

inductive Atom (q : MemoryQueue) : Task → MemoryQueue → List Task → Prop
  | count {serial id envelope} : Atom q (.enqueue serial id envelope)
      { q with readyCount := q.readyCount + 1 } [.sending ⟨serial, id, envelope, 1⟩]
  | send {item} (ho : q.closed = false) : Atom q (.sending item)
      { q with channel := q.channel ++ [item] } [.enqueued item.serial]
  | refuse {item} (hc : q.closed = true) : Atom q (.sending item) q [.undoing (some MemoryQueue.closedError)]
  | undo {e} : Atom q (.undoing e) { q with readyCount := q.readyCount - 1 } (e.toList.map .failed)
  | recv {item channel} (hc : q.channel = item :: channel) :
      Atom q .dequeue { q with channel } [.received item]
  | recvClosed (hc : q.closed = true) : Atom q .dequeue q [.failed MemoryQueue.closedError]
  | uncount {item} : Atom q (.received item) { q with readyCount := q.readyCount - 1 } [.uncounted item]
  | number {item} : Atom q (.uncounted item)
      { q with nextToken := q.nextToken + 1 } [.inserting q.nextToken item]
  | insert {token item} : Atom q (.inserting token item) (q.insert token item) [.delivered ⟨item, token⟩]
  | badAck {bytes} (hb : fromLeBytes bytes = none) : Atom q (.ack bytes) q
      [.failed (.storage "invalid ack token length")]
  | ack {bytes token} (hb : fromLeBytes bytes = some token) : Atom q (.ack bytes) (q.remove token)
      [.acked token (q.get token)]
  | badNack {bytes delay} (hb : fromLeBytes bytes = none) : Atom q (.nack bytes delay) q
      [.failed (.storage "invalid nack token length")]
  | nackNone {bytes delay token} (hb : fromLeBytes bytes = some token) (hg : q.get token = none) :
      Atom q (.nack bytes delay) (q.remove token) [.nacked token none]
  | nackSome {bytes delay token item} (hb : fromLeBytes bytes = some token)
      (hg : q.get token = some item) :
      Atom q (.nack bytes delay) (q.remove token) [.spawning token item delay]
  | spawn {token item delay} : Atom q (.spawning token item delay) q
      [.nacked token (some item), .asleep item delay]
  | wake {item delay} : Atom q (.asleep item delay)
      { q with readyCount := q.readyCount + 1 } [.resending item]
  | resend {item} (ho : q.closed = false) : Atom q (.resending item)
      { q with channel := q.channel ++ [{ item with attempt := item.attempt + 1 }] } []
  | lose {item} (hc : q.closed = true) : Atom q (.resending item) q [.undoing none]

theorem atom_of_step (h : q.step t = some (q', ts)) : Atom q t q' ts := by
  cases t with
  | enqueue => cases h; exact .count
  | sending item =>
      simp only [MemoryQueue.step] at h
      split at h <;> cases h
      · exact .refuse ‹_›
      · exact .send (by simpa using ‹¬ q.closed = true›)
  | undoing => cases h; exact .undo
  | dequeue =>
      simp only [MemoryQueue.step] at h
      split at h
      · cases h; exact .recv ‹_›
      · split at h <;> cases h
        exact .recvClosed ‹_›
  | received => cases h; exact .uncount
  | uncounted => cases h; exact .number
  | inserting => cases h; exact .insert
  | ack bytes =>
      simp only [MemoryQueue.step] at h
      split at h <;> cases h
      · exact .badAck ‹_›
      · exact .ack ‹_›
  | nack bytes delay =>
      simp only [MemoryQueue.step] at h
      split at h
      · cases h; exact .badNack ‹_›
      · split at h <;> cases h
        · exact .nackNone ‹_› ‹_›
        · exact .nackSome ‹_› ‹_›
  | spawning => cases h; exact .spawn
  | asleep => cases h; exact .wake
  | resending item =>
      simp only [MemoryQueue.step] at h
      split at h <;> cases h
      · exact .lose ‹_›
      · exact .resend (by simpa using ‹¬ q.closed = true›)
  | enqueued | delivered | acked | nacked | failed => cases h

namespace Task

/-- A `dequeue` that has received an item and not yet put it in flight. -/
def inDequeue : Task → Option Item
  | received item | uncounted item | inserting _ item => some item
  | _ => none

/-- A `nack` that has taken an item out of the flight, or its requeue task. -/
def inRequeue : Task → Option Item
  | spawning _ item _ | asleep item _ | resending item => some item
  | _ => none

def inAck : Task → Option Item
  | acked _ entry => entry
  | _ => none

/-- The item that a call of `nack` took. -/
def nackedItem : Task → Option Item
  | spawning _ item _ => some item
  | nacked _ entry => entry
  | _ => none

def enqueuedSerial : Task → Option Nat
  | enqueued serial => some serial
  | _ => none

def tokenId : Task → Option UInt64
  | inserting token _ => some token
  | delivered d => some d.tokenId
  | _ => none

def delivery : Task → Option Delivery
  | delivered d => some d
  | _ => none

/-- The token with which a call of `ack` or `nack` took an item. -/
def spentToken : Task → Option UInt64
  | acked token (some _) | spawning token .. | nacked token (some _) => some token
  | _ => none

/-- An enqueue, a dequeue or a requeue between its two steps. -/
def between : Task → Bool
  | sending _ | undoing _ | received _ | resending _ => true
  | _ => false

/-- A call of `ack` or `nack` that has returned and took nothing. -/
def idle : Task → Bool
  | acked _ none | nacked _ none | failed _ => true
  | _ => false

end Task

/-- The serial numbers of the items that `f` finds in the tasks. -/
def serials (f : Task → Option Item) (ts : List Task) : List Nat := (ts.filterMap f).map Item.serial

namespace State

/-- The channel, the flight, the requeue tasks and the acknowledged items. -/
def settled (s : State) : List Nat :=
  s.shared.channel.map Item.serial ++ s.shared.pending.map (fun p => p.2.serial) ++
    serials Task.inRequeue s.tasks ++ serials Task.inAck s.tasks

/-- The same, with the items that a `dequeue` has in hand. -/
def places (s : State) : List Nat := s.settled ++ serials Task.inDequeue s.tasks

def enqueued (s : State) : List Nat := s.tasks.filterMap Task.enqueuedSerial

def nacks (s : State) (serial : Nat) : Nat := (serials Task.nackedItem s.tasks).count serial

def deliveries (s : State) : List Delivery := s.tasks.filterMap Task.delivery

def tokens (s : State) : List UInt64 := s.tasks.filterMap Task.tokenId

def spent (s : State) : List UInt64 := s.tasks.filterMap Task.spentToken

def between (s : State) : Nat := s.tasks.countP Task.between

end State

variable {token : UInt64} {item : Item} {l r : List Task} {n : Nat}

namespace MemoryQueue

theorem mem_of_get (h : q.get token = some item) : (token, item) ∈ q.pending := by
  obtain ⟨⟨token', item'⟩, hf, rfl⟩ := Option.map_eq_some_iff.mp h
  have ht : token' = token := by simpa using List.find?_some hf
  exact ht ▸ List.mem_of_find?_eq_some hf

theorem remove_of_get_none (h : q.get token = none) : q.remove token = q := by
  have hall : ∀ p ∈ q.pending, p.1 ≠ token := by simpa [get] using h
  have hf : q.pending.filter (fun p => p.1 ≠ token) = q.pending :=
    List.filter_eq_self.mpr fun p hp => by simpa using hall p hp
  rw [remove, hf]

theorem pending_perm (hk : (q.pending.map Prod.fst).Nodup) (h : q.get token = some item) :
    q.pending.Perm ((token, item) :: (q.remove token).pending) := by
  have hmem := mem_of_get h
  obtain ⟨l, r, hq⟩ := List.append_of_mem hmem
  have hrest : ∀ p ∈ l ++ r, p.1 ≠ token := by
    intro p hp hpt
    rw [hq, List.map_append, List.map_cons] at hk
    have hd := List.nodup_middle.mp hk
    rw [List.nodup_cons, ← List.map_append] at hd
    have hm := List.mem_map_of_mem (f := Prod.fst) hp
    rw [hpt] at hm
    exact hd.1 hm
  have hf : (q.remove token).pending = l ++ r := by
    have hself : (l ++ r).filter (fun p : UInt64 × Item => p.1 ≠ token) = l ++ r :=
      List.filter_eq_self.mpr fun p hp => by simpa using hrest p hp
    rw [List.filter_append] at hself
    simp only [remove, hq, List.filter_append, List.filter_cons]
    simpa using hself
  rw [hf, hq]
  exact List.perm_middle

theorem insert_of_fresh (h : ∀ p ∈ q.pending, p.1 ≠ token) (item : Item) :
    q.insert token item = { q with pending := (token, item) :: q.pending } := by
  have hf : q.pending.filter (fun p => p.1 ≠ token) = q.pending :=
    List.filter_eq_self.mpr fun p hp => by simpa using h p hp
  rw [insert, hf]

end MemoryQueue

structure Tokens (s : State) : Prop where
  next : s.shared.nextToken = UInt64.ofNat s.tokens.length
  below : ∀ token ∈ s.tokens, token.toNat < s.tokens.length
  nodup : s.tokens.Nodup
  keys : (s.shared.pending.map Prod.fst).Nodup
  flight : ∀ p ∈ s.shared.pending, ⟨p.2, p.1⟩ ∈ s.deliveries ∧ p.1 ∉ s.spent
  spent : ∀ token ∈ s.spent, ∃ d ∈ s.deliveries, d.tokenId = token

def Unwrapped (s : State) : Prop := s.tokens.length ≤ 2 ^ 64

theorem Tokens.congr (h : Tokens s) (hnext : s'.shared.nextToken = s.shared.nextToken)
    (hpending : s'.shared.pending = s.shared.pending) (htokens : s'.tokens = s.tokens)
    (hdeliveries : s'.deliveries = s.deliveries) (hspent : s'.spent = s.spent) : Tokens s' where
  next := by rw [hnext, htokens, h.next]
  below := by rw [htokens]; exact h.below
  nodup := by rw [htokens]; exact h.nodup
  keys := by rw [hpending]; exact h.keys
  flight := by rw [hpending, hdeliveries, hspent]; exact h.flight
  spent := by rw [hdeliveries, hspent]; exact h.spent

theorem delivered_ne (h : (l ++ Task.inserting token item :: r).filterMap Task.tokenId |>.Nodup) :
    ∀ d ∈ (l ++ r).filterMap Task.delivery, d.tokenId ≠ token := by
  intro d hd ht
  have hcons : (Task.inserting token item :: r).filterMap Task.tokenId =
      token :: r.filterMap Task.tokenId := rfl
  rw [List.filterMap_append, hcons] at h
  have hn := (List.nodup_cons.mp (List.nodup_middle.mp h)).1
  rw [← List.filterMap_append] at hn
  obtain ⟨t, htm, htd⟩ := List.mem_filterMap.mp hd
  refine hn (List.mem_filterMap.mpr ⟨t, htm, ?_⟩)
  cases t <;> cases htd
  exact congrArg some ht

theorem Tokens.new : Tokens State.new :=
  ⟨rfl, by simp [State.new, State.tokens], by simp [State.new, State.tokens], by simp [State.new, MemoryQueue.new],
    by simp [State.new, MemoryQueue.new], by simp [State.new, State.spent]⟩

theorem Tokens.draw (h : Tokens ⟨q, l ++ .uncounted item :: r, n⟩)
    (hu : Unwrapped ⟨q, l ++ [.inserting q.nextToken item] ++ r, n⟩) :
    Tokens ⟨{ q with nextToken := q.nextToken + 1 }, l ++ [.inserting q.nextToken item] ++ r, n⟩ := by
  have htokens : (l ++ [Task.inserting q.nextToken item] ++ r).filterMap Task.tokenId =
      l.filterMap Task.tokenId ++ q.nextToken :: r.filterMap Task.tokenId := by
    simp [Task.tokenId]
  have hold : (l ++ .uncounted item :: r).filterMap Task.tokenId =
      l.filterMap Task.tokenId ++ r.filterMap Task.tokenId := by
    simp [List.filterMap_cons, Task.tokenId]
  have hnext := h.next
  have hbelow := h.below
  have hnodup := h.nodup
  simp only [State.tokens, Unwrapped, hold, htokens] at hnext hbelow hnodup hu
  simp only [List.length_append, List.length_cons] at hnext hbelow hu
  have hval : q.nextToken.toNat = (l.filterMap Task.tokenId).length + (r.filterMap Task.tokenId).length := by
    rw [hnext, UInt64.toNat_ofNat', Nat.mod_eq_of_lt (by omega)]
  refine ⟨?_, ?_, ?_, h.keys, ?_, ?_⟩
  · simp only [State.tokens, htokens, List.length_append, List.length_cons]
    rw [hnext, ← UInt64.ofNat_one, ← UInt64.ofNat_add, Nat.add_assoc]
  · intro token ht
    simp only [State.tokens, htokens, List.length_append, List.length_cons] at ht ⊢
    rw [List.mem_append, List.mem_cons] at ht
    rcases ht with ht | rfl | ht
    · have := hbelow token (List.mem_append_left _ ht)
      omega
    · omega
    · have := hbelow token (List.mem_append_right _ ht)
      omega
  · simp only [State.tokens, htokens]
    refine List.nodup_middle.mpr (List.nodup_cons.mpr ⟨fun hm => ?_, hnodup⟩)
    have := hbelow _ hm
    omega
  · intro p hp
    have := h.flight p hp
    simpa [State.deliveries, State.spent, List.filterMap_cons, Task.delivery, Task.spentToken] using this
  · intro token ht
    have := h.spent token
    simp only [State.deliveries, State.spent, List.filterMap_append, List.filterMap_cons, Task.delivery,
      Task.spentToken, List.filterMap_nil, List.append_nil] at this ht ⊢
    exact this ht

theorem Tokens.insert (h : Tokens ⟨q, l ++ .inserting token item :: r, n⟩) :
    (∀ p ∈ q.pending, p.1 ≠ token) ∧ Tokens ⟨q.insert token item, l ++ [.delivered ⟨item, token⟩] ++ r, n⟩ := by
  have hne := delivered_ne h.nodup
  have hdel : ∀ d, d ∈ (l ++ Task.inserting token item :: r).filterMap Task.delivery ↔
      d ∈ (l ++ r).filterMap Task.delivery := by
    intro d
    simp [List.filterMap_cons, Task.delivery]
  have hfresh : ∀ p ∈ q.pending, p.1 ≠ token := fun p hp => hne _ ((hdel _).mp (h.flight p hp).1)
  have hspent : ∀ d ∈ (l ++ Task.inserting token item :: r).filterMap Task.spentToken, d ≠ token := by
    intro token' ht
    obtain ⟨d, hd, rfl⟩ := h.spent token' ht
    exact hne d ((hdel d).mp hd)
  refine ⟨hfresh, ?_⟩
  rw [MemoryQueue.insert_of_fresh hfresh]
  have htokens : State.tokens ⟨{ q with pending := (token, item) :: q.pending },
      l ++ [.delivered ⟨item, token⟩] ++ r, n⟩ = State.tokens ⟨q, l ++ .inserting token item :: r, n⟩ := by
    simp [State.tokens, Task.tokenId]
  have hdel' : ∀ d, d ∈ (l ++ [Task.delivered ⟨item, token⟩] ++ r).filterMap Task.delivery ↔
      d = ⟨item, token⟩ ∨ d ∈ (l ++ r).filterMap Task.delivery := by
    intro d
    simp only [List.filterMap_append, List.filterMap_cons, Task.delivery, List.filterMap_nil, List.mem_append,
      List.mem_singleton]
    tauto
  have hspent' : (l ++ [Task.delivered ⟨item, token⟩] ++ r).filterMap Task.spentToken =
      (l ++ Task.inserting token item :: r).filterMap Task.spentToken := by
    simp [List.filterMap_cons, Task.spentToken]
  refine ⟨?_, ?_, ?_, ?_, ?_, ?_⟩
  · rw [htokens]; exact h.next
  · rw [htokens]; exact h.below
  · rw [htokens]; exact h.nodup
  · refine List.nodup_cons.mpr ⟨fun hm => ?_, h.keys⟩
    obtain ⟨p, hp, hpt⟩ := List.mem_map.mp hm
    exact hfresh p hp hpt
  · intro p hp
    simp only [State.deliveries, State.spent, hspent', hdel']
    rcases List.mem_cons.mp hp with rfl | hp
    · exact ⟨.inl rfl, fun hm => hspent _ hm rfl⟩
    · exact ⟨.inr ((hdel _).mp (h.flight p hp).1), (h.flight p hp).2⟩
  · intro token' ht
    simp only [State.spent, hspent'] at ht
    obtain ⟨d, hd, rfl⟩ := h.spent token' ht
    exact ⟨d, (hdel' d).mpr (.inr ((hdel d).mp hd)), rfl⟩

theorem Tokens.take {t' : Task} (h : Tokens ⟨q, l ++ t :: r, n⟩) (hg : q.get token = some item)
    (ht : t.tokenId = none) (hd : t.delivery = none) (hs : t.spentToken = none)
    (ht' : t'.tokenId = none) (hd' : t'.delivery = none) (hs' : t'.spentToken = some token) :
    Tokens ⟨q.remove token, l ++ [t'] ++ r, n⟩ := by
  have htokens : State.tokens ⟨q.remove token, l ++ [t'] ++ r, n⟩ = State.tokens ⟨q, l ++ t :: r, n⟩ := by
    simp [State.tokens, ht, ht']
  have hdel : State.deliveries ⟨q.remove token, l ++ [t'] ++ r, n⟩ =
      State.deliveries ⟨q, l ++ t :: r, n⟩ := by
    simp [State.deliveries, hd, hd']
  have hspent : ∀ x, x ∈ State.spent ⟨q.remove token, l ++ [t'] ++ r, n⟩ ↔
      x = token ∨ x ∈ State.spent ⟨q, l ++ t :: r, n⟩ := by
    intro x
    simp only [State.spent, List.filterMap_append, List.filterMap_cons, hs, hs', List.filterMap_nil,
      List.mem_append, List.mem_singleton]
    tauto
  have hmem : ∀ p ∈ (q.remove token).pending, p ∈ q.pending ∧ p.1 ≠ token := fun p hp => by
    simpa [MemoryQueue.remove] using hp
  refine ⟨?_, ?_, ?_, ?_, ?_, ?_⟩
  · rw [htokens]; exact h.next
  · rw [htokens]; exact h.below
  · rw [htokens]; exact h.nodup
  · exact h.keys.sublist (List.filter_sublist.map _)
  · intro p hp
    obtain ⟨hp, hne⟩ := hmem p hp
    rw [hdel, hspent]
    exact ⟨(h.flight p hp).1, fun hx => hx.elim hne (h.flight p hp).2⟩
  · intro x hx
    rw [hdel]
    rcases (hspent x).mp hx with rfl | hx
    · exact ⟨⟨item, x⟩, (h.flight _ (MemoryQueue.mem_of_get hg)).1, rfl⟩
    · exact h.spent x hx

theorem tokens_length_le (h : Crew.Step rules s s') : s.tokens.length ≤ s'.tokens.length := by
  cases h with
  | arrive => simp [State.tokens]
  | @step w w' l t r ts n c h =>
      cases atom_of_step h <;> simp [State.tokens, List.filterMap_cons, Task.tokenId]
  | @cancel w l t r n h => cases t <;> cases h; simp [State.tokens, List.filterMap_cons, Task.tokenId]
  | drift => exact Nat.le_refl _

theorem Tokens.frame (h : Tokens ⟨q, l ++ t :: r, n⟩) (hnext : q'.nextToken = q.nextToken)
    (hpending : q'.pending = q.pending) (htokens : ts.filterMap Task.tokenId = [t].filterMap Task.tokenId)
    (hdeliveries : ts.filterMap Task.delivery = [t].filterMap Task.delivery)
    (hspent : ts.filterMap Task.spentToken = [t].filterMap Task.spentToken) :
    Tokens ⟨q', l ++ ts ++ r, n⟩ := by
  have hsplit : l ++ t :: r = l ++ [t] ++ r := by simp
  refine h.congr hnext hpending ?_ ?_ ?_
  · simp only [State.tokens, hsplit, List.filterMap_append, htokens]
  · simp only [State.deliveries, hsplit, List.filterMap_append, hdeliveries]
  · simp only [State.spent, hsplit, List.filterMap_append, hspent]

theorem tokens_step (h : Unwrapped s → Tokens s) (hs : Crew.Step rules s s') (hu : Unwrapped s') :
    Tokens s' := by
  have h := h (Nat.le_trans (tokens_length_le hs) hu)
  cases hs with
  | @arrive w ts n request =>
      cases request <;>
        exact h.congr rfl rfl (by simp [State.tokens, List.filterMap_cons, Request.task, Task.tokenId])
          (by simp [State.deliveries, List.filterMap_cons, Request.task, Task.delivery])
          (by simp [State.spent, List.filterMap_cons, Request.task, Task.spentToken])
  | @step w w' l t r ts n c hs =>
      cases atom_of_step hs with
      | number => exact h.draw hu
      | insert => exact h.insert.2
      | @ack bytes token hb =>
          cases hg : w.get token with
          | none => exact h.frame rfl (by rw [MemoryQueue.remove_of_get_none hg]) rfl rfl rfl
          | some item => exact h.take hg rfl rfl rfl rfl rfl rfl
      | nackNone hb hg => exact h.frame rfl (by rw [MemoryQueue.remove_of_get_none hg]) rfl rfl rfl
      | nackSome hb hg => exact h.take hg rfl rfl rfl rfl rfl rfl
      | @undo e => cases e <;> exact h.frame rfl rfl rfl rfl rfl
      | _ => exact h.frame rfl rfl rfl rfl rfl
  | @cancel w l t r n hc =>
      cases t <;> cases hc
      exact h.congr rfl rfl (by simp [State.tokens, List.filterMap_cons, Task.tokenId])
        (by simp [State.deliveries, List.filterMap_cons, Task.delivery])
        (by simp [State.spent, List.filterMap_cons, Task.spentToken])
  | @drift w w' ts n e hd =>
      simp only [Option.ite_none_right_eq_some, Option.some.injEq] at hd
      obtain ⟨-, rfl⟩ := hd
      exact ⟨h.next, h.below, h.nodup, List.nodup_nil, nofun, h.spent⟩

/-- Until the receiver is gone, `ready_count` is what the channel holds and what
is between two steps. -/
structure Counted (s : State) : Prop where
  le : (s.shared.channel.length + s.between : Nat) ≤ s.shared.readyCount
  eq : s.shared.closed = false → s.shared.readyCount = (s.shared.channel.length + s.between : Nat)

/-- What `ready_count` is above the items that the channel and the tasks account for. -/
def balance (q : MemoryQueue) (ts : List Task) : Int :=
  q.readyCount - (q.channel.length + ts.countP Task.between : Nat)

theorem counted_iff : Counted s ↔ 0 ≤ balance s.shared s.tasks ∧
    (s.shared.closed = false → balance s.shared s.tasks = 0) := by
  constructor
  · intro h
    refine ⟨Int.sub_nonneg.mpr h.le, fun ho => Int.sub_eq_zero.mpr (h.eq ho)⟩
  · intro h
    exact ⟨Int.sub_nonneg.mp h.1, fun ho => Int.sub_eq_zero.mp (h.2 ho)⟩

theorem Counted.swap (h : Counted ⟨q, l ++ t :: r, n⟩) (hclosed : q'.closed = q.closed)
    (hb : balance q' ts = balance q [t]) : Counted ⟨q', l ++ ts ++ r, n⟩ := by
  have hsplit : l ++ t :: r = l ++ [t] ++ r := by simp
  have heq : balance q' (l ++ ts ++ r) = balance q (l ++ t :: r) := by
    simp only [balance, hsplit, List.countP_append] at hb ⊢
    omega
  rw [counted_iff] at h ⊢
  simp only [heq, hclosed]
  exact h

theorem counted_step (h : Counted s) (hs : Crew.Step rules s s') : Counted s' := by
  cases hs with
  | @arrive w ts n request =>
      have hb : balance w (ts ++ [request.task n]) = balance w ts := by
        cases request <;> simp [balance, Request.task, Task.between]
      rw [counted_iff] at h ⊢
      simp only [hb]
      exact h
  | @step w w' l t r ts n c hs =>
      cases atom_of_step hs with
      | recv hc => exact h.swap rfl (by simp [balance, hc, Task.between])
      | @undo e => cases e <;> exact h.swap rfl (by simp [balance, Task.between]; omega)
      | insert | badAck | ack | badNack | nackNone | nackSome | spawn | recvClosed | number | refuse | lose =>
          exact h.swap rfl rfl
      | send | resend => exact h.swap rfl (by simp [balance, Task.between])
      | count | wake | uncount =>
          refine h.swap rfl ?_
          simp only [balance, List.countP_cons, List.countP_nil, Task.between]
          grind
  | @cancel w l t r n hc =>
      cases t <;> cases hc
      have hsplit : l ++ r = l ++ [] ++ r := by simp
      rw [hsplit]
      exact h.swap rfl rfl
  | @drift w w' ts n e hd =>
      simp only [Option.ite_none_right_eq_some, Option.some.injEq] at hd
      obtain ⟨-, rfl⟩ := hd
      have hle := h.le
      simp only [State.between] at hle
      refine ⟨?_, fun h => by cases h⟩
      simp only [State.between, List.length_nil]
      omega

/-- The `enqueue` with this serial number is under way or has returned `Ok`. -/
def Task.arising : Task → Option Nat
  | enqueue serial .. | enqueued serial => some serial
  | sending item => some item.serial
  | _ => none

def share (q : MemoryQueue) (ts : List Task) (serial : Nat) : Nat :=
  (q.channel.map Item.serial).count serial + (q.pending.map fun p => p.2.serial).count serial +
    (serials Task.inRequeue ts).count serial + (serials Task.inAck ts).count serial +
    (serials Task.inDequeue ts).count serial

theorem count_places (s : State) (serial : Nat) :
    s.places.count serial = share s.shared s.tasks serial := by
  simp only [State.places, State.settled, share, List.count_append]

/-- An item that was enqueued is in exactly one place, until the receiver is gone. -/
structure Conserved (s : State) : Prop where
  arising : ∀ serial, (s.tasks.filterMap Task.arising).count serial ≤ if serial < s.arrived then 1 else 0
  le : ∀ serial, share s.shared s.tasks serial ≤ s.enqueued.count serial
  eq : s.shared.closed = false → ∀ serial, share s.shared s.tasks serial = s.enqueued.count serial

theorem Conserved.swap (h : Conserved ⟨q, l ++ t :: r, n⟩) (hclosed : q'.closed = q.closed)
    (harising : ∀ serial, (ts.filterMap Task.arising).count serial ≤ ([t].filterMap Task.arising).count serial)
    (hshare : ∀ serial, share q' ts serial + ([t].filterMap Task.enqueuedSerial).count serial =
      share q [t] serial + (ts.filterMap Task.enqueuedSerial).count serial) :
    Conserved ⟨q', l ++ ts ++ r, n⟩ := by
  have hsplit : l ++ t :: r = l ++ [t] ++ r := by simp
  obtain ⟨har, hle, heq⟩ := h
  simp only [hsplit, State.enqueued, share, serials, List.filterMap_append, List.map_append,
    List.count_append] at har hle heq hshare
  refine ⟨fun serial => ?_, fun serial => ?_, fun ho serial => ?_⟩
  · have h₁ := har serial
    have h₂ := harising serial
    simp only [List.filterMap_append, List.count_append]
    omega
  · have h₁ := hle serial
    have h₂ := hshare serial
    simp only [State.enqueued, share, serials, List.filterMap_append, List.map_append, List.count_append]
    omega
  · have h₁ := heq (hclosed ▸ ho) serial
    have h₂ := hshare serial
    simp only [State.enqueued, share, serials, List.filterMap_append, List.map_append, List.count_append]
    omega

theorem Conserved.lose (h : Conserved ⟨q, l ++ t :: r, n⟩) (hclosed : q.closed = true)
    (harising : ∀ serial, (ts.filterMap Task.arising).count serial ≤ ([t].filterMap Task.arising).count serial)
    (hshare : ∀ serial, share q ts serial ≤ share q [t] serial)
    (henq : ts.filterMap Task.enqueuedSerial = [t].filterMap Task.enqueuedSerial) :
    Conserved ⟨q, l ++ ts ++ r, n⟩ := by
  have hsplit : l ++ t :: r = l ++ [t] ++ r := by simp
  obtain ⟨har, hle, -⟩ := h
  simp only [hsplit, State.enqueued, share, serials, List.filterMap_append, List.map_append,
    List.count_append] at har hle hshare
  refine ⟨fun serial => ?_, fun serial => ?_, fun ho => by rw [hclosed] at ho; cases ho⟩
  · have h₁ := har serial
    have h₂ := harising serial
    simp only [List.filterMap_append, List.count_append]
    omega
  · have h₁ := hle serial
    have h₂ := hshare serial
    simp only [State.enqueued, share, serials, List.filterMap_append, List.map_append, List.count_append, henq]
    omega

theorem count_pending (hk : (q.pending.map Prod.fst).Nodup) (h : q.get token = some item) (serial : Nat) :
    (q.pending.map fun p => p.2.serial).count serial =
      ((q.remove token).pending.map fun p => p.2.serial).count serial + [item.serial].count serial := by
  have hperm := (MemoryQueue.pending_perm hk h).map fun p => p.2.serial
  rw [hperm.count_eq, List.map_cons, ← List.singleton_append, List.count_append, Nat.add_comm]

theorem count_arising_arrive (request : Request) {serial : Nat}
    (h : (ts.filterMap Task.arising).count serial ≤ if serial < n then 1 else 0) :
    ((ts ++ [request.task n]).filterMap Task.arising).count serial ≤ if serial < n + 1 then 1 else 0 := by
  have hnew : ([request.task n].filterMap Task.arising).count serial ≤ if n = serial then 1 else 0 := by
    cases request with
    | enqueue id envelope => exact Nat.le_of_eq (by simp [Request.task, Task.arising, List.count_singleton])
    | dequeue | ack | nack => exact Nat.zero_le _
  rw [List.filterMap_append, List.count_append]
  rcases Nat.lt_trichotomy serial n with hlt | rfl | hgt
  · rw [if_pos hlt] at h
    rw [if_neg (by omega)] at hnew
    rw [if_pos (by omega)]
    omega
  · rw [if_neg (by omega)] at h
    rw [if_pos rfl] at hnew
    rw [if_pos (by omega)]
    omega
  · rw [if_neg (by omega)] at h hnew
    rw [if_neg (by omega)]
    omega

theorem Conserved.arrive (request : Request) (h : Conserved ⟨q, ts, n⟩) :
    Conserved ⟨q, ts ++ [request.task n], n + 1⟩ := by
  have hsame : ∀ {f : Task → Option Item}, f (request.task n) = none →
      serials f (ts ++ [request.task n]) = serials f ts := by
    intro f hf
    simp [serials, hf]
  have henq : State.enqueued ⟨q, ts ++ [request.task n], n + 1⟩ = State.enqueued ⟨q, ts, n⟩ := by
    cases request <;> simp [State.enqueued, List.filterMap_cons, Request.task, Task.enqueuedSerial]
  have hshare : share q (ts ++ [request.task n]) = share q ts := by
    funext serial
    simp only [share]
    rw [hsame (f := Task.inRequeue) (by cases request <;> rfl), hsame (f := Task.inAck) (by cases request <;> rfl),
      hsame (f := Task.inDequeue) (by cases request <;> rfl)]
  refine ⟨fun serial => ?_, fun serial => ?_, fun ho serial => ?_⟩
  · exact count_arising_arrive request (h.arising serial)
  · rw [henq, hshare]
    exact h.le serial
  · rw [henq, hshare]
    exact h.eq ho serial

theorem conserved_step (h : Conserved s) (hk : Tokens s) (hs : Crew.Step rules s s') : Conserved s' := by
  cases hs with
  | arrive request => exact h.arrive request
  | @step w w' l t r ts n c hs =>
      cases atom_of_step hs with
      | @recv item channel hc =>
          refine h.swap rfl (fun _ => Nat.le_refl _) fun serial => ?_
          simp [share, serials, hc, Task.inDequeue, Task.inAck, Task.inRequeue, Task.enqueuedSerial,
            List.filterMap_cons, List.count_cons]
          omega
      | @undo e => cases e <;> exact h.swap rfl (fun _ => Nat.le_refl _) fun _ => rfl
      | @insert token item =>
          refine h.swap rfl (fun _ => Nat.le_refl _) fun serial => ?_
          rw [MemoryQueue.insert_of_fresh hk.insert.1]
          simp [share, serials, Task.inDequeue, Task.inAck, Task.inRequeue, Task.enqueuedSerial,
            List.filterMap_cons, List.count_cons]
          omega
      | @ack bytes token hb =>
          cases hg : w.get token with
          | none =>
              rw [MemoryQueue.remove_of_get_none hg]
              exact h.swap rfl (fun _ => Nat.le_refl _) fun _ => rfl
          | some item =>
              refine h.swap rfl (fun _ => Nat.le_refl _) fun serial => ?_
              have hp := count_pending hk.keys hg serial
              simp only [share]
              rw [hp]
              simp [serials, Task.inDequeue, Task.inAck, Task.inRequeue, Task.enqueuedSerial,
                List.filterMap_cons, List.count_cons, MemoryQueue.remove]
              omega
      | @nackNone _ _ _ hb hg =>
          rw [MemoryQueue.remove_of_get_none hg]
          exact h.swap rfl (fun _ => Nat.le_refl _) fun _ => rfl
      | @nackSome bytes delay token item hb hg =>
          refine h.swap rfl (fun _ => Nat.le_refl _) fun serial => ?_
          have hp := count_pending hk.keys hg serial
          simp only [share]
          rw [hp]
          simp [serials, Task.inDequeue, Task.inAck, Task.inRequeue, Task.enqueuedSerial,
            List.filterMap_cons, List.count_cons, MemoryQueue.remove]
          omega
      | @send item ho =>
          refine h.swap rfl (fun _ => Nat.le_refl _) fun serial => ?_
          simp [share, serials, Task.inDequeue, Task.inAck, Task.inRequeue, Task.enqueuedSerial,
            List.filterMap_cons, List.count_cons]
          omega
      | @resend item ho =>
          refine h.swap rfl (fun _ => Nat.le_refl _) fun serial => ?_
          simp [share, serials, Task.inDequeue, Task.inAck, Task.inRequeue, Task.enqueuedSerial,
            List.filterMap_cons, List.count_cons]
          omega
      | refuse => exact h.swap rfl (fun _ => Nat.zero_le _) fun _ => rfl
      | lose hc => exact h.lose hc (fun _ => Nat.le_refl _) (fun _ => Nat.le_add_right _ _) rfl
      | _ => exact h.swap rfl (fun _ => Nat.le_refl _) fun _ => rfl
  | @cancel w l t r n hc =>
      cases t <;> cases hc
      have hsplit : l ++ r = l ++ [] ++ r := by simp
      rw [hsplit]
      exact h.swap rfl (fun _ => Nat.le_refl _) fun _ => rfl
  | @drift w w' ts n e hd =>
      simp only [Option.ite_none_right_eq_some, Option.some.injEq] at hd
      obtain ⟨-, rfl⟩ := hd
      refine ⟨h.arising, fun serial => ?_, nofun⟩
      have hle := h.le serial
      simp only [share, State.enqueued, List.map_nil, List.count_nil] at hle ⊢
      omega

theorem count_enqueued_le (ts : List Task) (serial : Nat) :
    (ts.filterMap Task.enqueuedSerial).count serial ≤ (ts.filterMap Task.arising).count serial := by
  induction ts with
  | nil => exact Nat.le_refl _
  | cons t ts ih =>
      cases t with
      | enqueued serial' => simpa [List.filterMap_cons, Task.enqueuedSerial, Task.arising, List.count_cons] using ih
      | enqueue | sending =>
          simp only [List.filterMap_cons, Task.enqueuedSerial, Task.arising, List.count_cons]
          omega
      | _ => exact ih

theorem Conserved.enqueued_le (h : Conserved s) (serial : Nat) : s.enqueued.count serial ≤ 1 := by
  refine Nat.le_trans (count_enqueued_le _ _) (Nat.le_trans (h.arising serial) ?_)
  split <;> omega

def Task.upcoming : Task → Option Item
  | received item | uncounted item | inserting _ item => some item
  | spawning _ item _ | asleep item _ | resending item => some { item with attempt := item.attempt + 1 }
  | _ => none

def held (q : MemoryQueue) (ts : List Task) : List Item :=
  q.channel ++ q.pending.map Prod.snd ++ ts.filterMap Task.upcoming

structure Attempts (s : State) : Prop where
  held : ∀ item ∈ held s.shared s.tasks, item.attempt = UInt32.ofNat (1 + s.nacks item.serial)
  sending : ∀ item, .sending item ∈ s.tasks → item.attempt = 1
  fresh : ∀ serial, s.enqueued.count serial = 0 → s.nacks serial = 0

theorem mem_held_append {l ts r : List Task} : item ∈ held q (l ++ ts ++ r) ↔
    item ∈ held q ts ∨ item ∈ (l ++ r).filterMap Task.upcoming := by
  simp only [held, List.filterMap_append, List.mem_append]
  tauto

theorem share_pos (h : item ∈ held q ts) : 0 < share q ts item.serial := by
  simp only [held, List.mem_append, List.mem_map, List.mem_filterMap] at h
  rcases h with (h | ⟨p, hp, rfl⟩) | ⟨t, ht, hu⟩
  · have := List.count_pos_iff.mpr (List.mem_map_of_mem (f := Item.serial) h)
    simp only [share]
    omega
  · have := List.count_pos_iff.mpr (List.mem_map_of_mem (f := fun p : UInt64 × Item => p.2.serial) hp)
    simp only [share]
    omega
  · have hmem : item.serial ∈ serials Task.inDequeue ts ∨ item.serial ∈ serials Task.inRequeue ts := by
      simp only [serials, List.mem_map, List.mem_filterMap]
      cases t <;> cases hu
      all_goals first
        | exact .inl ⟨_, ⟨_, ht, rfl⟩, rfl⟩
        | exact .inr ⟨_, ⟨_, ht, rfl⟩, rfl⟩
    rw [← List.count_pos_iff, ← List.count_pos_iff] at hmem
    simp only [share]
    omega

theorem Attempts.swap (h : Attempts ⟨q, l ++ t :: r, n⟩)
    (hheld : ∀ item ∈ Atomic.held q' ts, item ∈ Atomic.held q [t])
    (hsending : ∀ item, .sending item ∈ ts → item.attempt = 1)
    (henq : ∀ serial, ([t].filterMap Task.enqueuedSerial).count serial ≤
      (ts.filterMap Task.enqueuedSerial).count serial)
    (hnacked : ts.filterMap Task.nackedItem = [t].filterMap Task.nackedItem) :
    Attempts ⟨q', l ++ ts ++ r, n⟩ := by
  have hsplit : l ++ t :: r = l ++ [t] ++ r := by simp
  have hnacks : State.nacks ⟨q', l ++ ts ++ r, n⟩ = State.nacks ⟨q, l ++ t :: r, n⟩ := by
    funext serial
    simp only [State.nacks, serials, hsplit, List.filterMap_append, hnacked]
  refine ⟨fun item hi => ?_, fun item hi => ?_, fun serial hz => ?_⟩
  · rw [hnacks]
    refine h.held item ?_
    simp only [hsplit, mem_held_append] at hi ⊢
    exact hi.imp_left (hheld item)
  · simp only [List.append_assoc, List.mem_append] at hi
    rcases hi with hi | hi | hi
    · exact h.sending item (List.mem_append_left _ hi)
    · exact hsending item hi
    · exact h.sending item (List.mem_append_right _ (List.mem_cons_of_mem _ hi))
  · rw [hnacks]
    refine h.fresh serial ?_
    have he := henq serial
    simp only [State.enqueued, hsplit, List.filterMap_append, List.count_append] at hz ⊢
    omega

theorem Attempts.nack {delay : Duration} {bytes : List UInt8}
    (h : Attempts ⟨q, l ++ .nack bytes delay :: r, n⟩) (hg : q.get token = some item)
    (hc : Conserved ⟨q.remove token, l ++ [.spawning token item delay] ++ r, n⟩) :
    Attempts ⟨q.remove token, l ++ [.spawning token item delay] ++ r, n⟩ := by
  have hsplit : l ++ Task.nack bytes delay :: r = l ++ [.nack bytes delay] ++ r := by simp
  have hnacks : ∀ serial, State.nacks ⟨q.remove token, l ++ [.spawning token item delay] ++ r, n⟩ serial =
      State.nacks ⟨q, l ++ .nack bytes delay :: r, n⟩ serial + if item.serial = serial then 1 else 0 := by
    intro serial
    simp only [State.nacks, serials, hsplit, List.filterMap_append, List.map_append, List.count_append]
    simp [List.filterMap_cons, Task.nackedItem, List.count_singleton]
    omega
  have hitem : item.attempt = UInt32.ofNat
      (1 + State.nacks ⟨q, l ++ .nack bytes delay :: r, n⟩ item.serial) := by
    refine h.held item ?_
    simp only [Atomic.held, List.mem_append]
    exact .inl (.inr (List.mem_map_of_mem (f := Prod.snd) (MemoryQueue.mem_of_get hg)))
  refine ⟨fun x hx => ?_, fun x hx => ?_, fun serial hz => ?_⟩
  · have hx' : x = { item with attempt := item.attempt + 1 } ∨ x ∈ Atomic.held (q.remove token) (l ++ r) := by
      simp only [Atomic.held, List.filterMap_append, List.mem_append] at hx ⊢
      simp only [Task.upcoming, List.filterMap_cons, List.filterMap_nil, List.mem_singleton] at hx
      tauto
    rcases hx' with rfl | hx'
    · rw [hnacks, if_pos rfl]
      change item.attempt + 1 = _
      rw [hitem, ← Nat.add_assoc, UInt32.ofNat_add (_ + _)]
      rfl
    · have hne : item.serial ≠ x.serial := by
        intro heq
        have hpos := share_pos hx'
        have hle := Nat.le_trans (hc.le x.serial) (hc.enqueued_le x.serial)
        simp only [share, serials, List.filterMap_append, List.map_append, List.count_append] at hle hpos
        simp only [List.filterMap_cons, List.filterMap_nil, Task.inRequeue, Task.inAck, Task.inDequeue,
          List.map_cons, List.map_nil, heq, List.count_cons_self, List.count_nil] at hle hpos
        omega
      rw [hnacks, if_neg hne, Nat.add_zero]
      refine h.held x ?_
      simp only [Atomic.held, List.filterMap_append, List.mem_append, List.mem_map] at hx' ⊢
      simp only [MemoryQueue.remove, List.mem_filter] at hx'
      rcases hx' with (hx' | ⟨p, hp, rfl⟩) | hx' | hx'
      · exact .inl (.inl hx')
      · exact .inl (.inr ⟨p, hp.1, rfl⟩)
      · exact .inr (.inl hx')
      · exact .inr (.inr hx')
  · simp only [List.append_assoc, List.mem_append, List.mem_singleton] at hx
    rcases hx with hx | hx | hx
    · exact h.sending x (List.mem_append_left _ hx)
    · cases hx
    · exact h.sending x (List.mem_append_right _ (List.mem_cons_of_mem _ hx))
  · have hne : item.serial ≠ serial := by
      rintro rfl
      have hle := hc.le item.serial
      rw [hz] at hle
      simp [share, serials, List.filterMap_cons, Task.inRequeue] at hle
    have hold : State.enqueued ⟨q, l ++ .nack bytes delay :: r, n⟩ =
        State.enqueued ⟨q.remove token, l ++ [.spawning token item delay] ++ r, n⟩ := by
      simp [State.enqueued, List.filterMap_cons, Task.enqueuedSerial]
    rw [hnacks, if_neg hne, Nat.add_zero]
    exact h.fresh serial (by rw [hold]; exact hz)

theorem Attempts.send (h : Attempts ⟨q, l ++ .sending item :: r, n⟩)
    (hc : Conserved ⟨q, l ++ .sending item :: r, n⟩) :
    Attempts ⟨{ q with channel := q.channel ++ [item] }, l ++ [.enqueued item.serial] ++ r, n⟩ := by
  have hsplit : l ++ Task.sending item :: r = l ++ [.sending item] ++ r := by simp
  have hnacks : State.nacks ⟨{ q with channel := q.channel ++ [item] }, l ++ [.enqueued item.serial] ++ r, n⟩ =
      State.nacks ⟨q, l ++ .sending item :: r, n⟩ := by
    funext serial
    simp only [State.nacks, serials, hsplit, List.filterMap_append]
    rfl
  have hnone : State.nacks ⟨q, l ++ .sending item :: r, n⟩ item.serial = 0 := by
    refine h.fresh item.serial ?_
    have har := hc.arising item.serial
    have hl := count_enqueued_le l item.serial
    have hr := count_enqueued_le r item.serial
    simp only [hsplit, State.enqueued, List.filterMap_append, List.count_append] at har ⊢
    simp [List.filterMap_cons, Task.arising, Task.enqueuedSerial] at har ⊢
    split at har <;> omega
  refine ⟨fun x hx => ?_, fun x hx => ?_, fun serial hz => ?_⟩
  · rw [hnacks]
    have hx' : x = item ∨ x ∈ Atomic.held q (l ++ .sending item :: r) := by
      simp only [Atomic.held, hsplit, List.filterMap_append, List.mem_append, List.mem_singleton] at hx ⊢
      simp only [Task.upcoming, List.filterMap_cons, List.filterMap_nil] at hx ⊢
      tauto
    rcases hx' with rfl | hx'
    · rw [hnone, h.sending x (by simp)]
      rfl
    · exact h.held x hx'
  · simp only [List.append_assoc, List.mem_append, List.mem_singleton] at hx
    rcases hx with hx | hx | hx
    · exact h.sending x (List.mem_append_left _ hx)
    · cases hx
    · exact h.sending x (List.mem_append_right _ (List.mem_cons_of_mem _ hx))
  · rw [hnacks]
    refine h.fresh serial ?_
    simp only [State.enqueued, hsplit, List.filterMap_append, List.count_append] at hz ⊢
    simp only [Task.enqueuedSerial, List.filterMap_cons, List.filterMap_nil, List.count_nil] at hz ⊢
    omega

theorem Attempts.arrive (request : Request) (h : Attempts ⟨q, ts, n⟩) :
    Attempts ⟨q, ts ++ [request.task n], n + 1⟩ := by
  have hsame : ∀ {β : Type} {f : Task → Option β}, f (request.task n) = none →
      (ts ++ [request.task n]).filterMap f = ts.filterMap f := by
    intro β f hf
    simp [hf]
  have hnacks : State.nacks ⟨q, ts ++ [request.task n], n + 1⟩ = State.nacks ⟨q, ts, n⟩ := by
    funext serial
    simp only [State.nacks, serials]
    rw [hsame (f := Task.nackedItem) (by cases request <;> rfl)]
  refine ⟨fun item hi => ?_, fun item hi => ?_, fun serial hz => ?_⟩
  · rw [hnacks]
    simp only [Atomic.held] at hi
    rw [hsame (f := Task.upcoming) (by cases request <;> rfl)] at hi
    exact h.held item hi
  · rcases List.mem_append.mp hi with hi | hi
    · exact h.sending item hi
    · cases request <;> simp [Request.task] at hi
  · rw [hnacks]
    simp only [State.enqueued] at hz
    rw [hsame (f := Task.enqueuedSerial) (by cases request <;> rfl)] at hz
    exact h.fresh serial hz

theorem attempts_step (h : Attempts s) (hk : Tokens s) (hc : Conserved s) (hc' : Conserved s')
    (hs : Crew.Step rules s s') : Attempts s' := by
  cases hs with
  | arrive request => exact h.arrive request
  | @step w w' l t r ts n c hs =>
      cases atom_of_step hs with
      | @count serial id envelope =>
          refine h.swap (fun _ hi => hi) (fun item hi => ?_) (fun _ => Nat.le_refl _) rfl
          cases List.mem_singleton.mp hi
          rfl
      | send => exact h.send hc
      | @recv item channel hch =>
          refine h.swap (fun x hx => ?_) (fun _ hi => by simp at hi) (fun _ => Nat.le_refl _) rfl
          simp only [held, hch, Task.upcoming, List.filterMap_cons, List.filterMap_nil, List.mem_append,
            List.mem_cons] at hx ⊢
          tauto
      | @undo e =>
          cases e <;> exact h.swap (fun _ hi => hi) (fun _ hi => by simp at hi) (fun _ => Nat.le_refl _) rfl
      | @insert token item =>
          refine h.swap (fun x hx => ?_) (fun _ hi => by simp at hi) (fun _ => Nat.le_refl _) rfl
          rw [MemoryQueue.insert_of_fresh hk.insert.1] at hx
          simp only [held, Task.upcoming, List.filterMap_cons, List.filterMap_nil, List.mem_append,
            List.map_cons, List.mem_cons] at hx ⊢
          tauto
      | @ack bytes token hb =>
          refine h.swap (fun x hx => ?_) (fun _ hi => by simp at hi) (fun _ => Nat.le_refl _) ?_
          · refine List.mem_append_left _ ?_
            have hsub : (w.remove token).pending.map Prod.snd ⊆ w.pending.map Prod.snd :=
              (List.filter_sublist.map _).subset
            simp only [held, Task.upcoming, List.filterMap_cons, List.filterMap_nil, List.append_nil,
              List.mem_append] at hx ⊢
            exact hx.imp_right fun hx => hsub hx
          · rfl
      | nackNone hb hg =>
          rw [MemoryQueue.remove_of_get_none hg]
          exact h.swap (fun _ hi => hi) (fun _ hi => by simp at hi) (fun _ => Nat.le_refl _) rfl
      | nackSome hb hg => exact h.nack hg hc'
      | @resend item ho =>
          refine h.swap (fun x hx => ?_) (fun _ hi => by simp at hi) (fun _ => Nat.le_refl _) rfl
          simp only [held, Task.upcoming, List.filterMap_cons, List.filterMap_nil, List.mem_append,
            List.mem_singleton] at hx ⊢
          tauto
      | lose =>
          refine h.swap (fun x hx => ?_) (fun _ hi => by simp at hi) (fun _ => Nat.le_refl _) rfl
          exact List.mem_append_left _ (by simpa [held, Task.upcoming, List.filterMap_cons] using hx)
      | _ => exact h.swap (fun _ hi => hi) (fun _ hi => by simp at hi) (fun _ => Nat.le_refl _) rfl
  | @cancel w l t r n hcancel =>
      cases t <;> cases hcancel
      have hsplit : l ++ r = l ++ [] ++ r := by simp
      rw [hsplit]
      exact h.swap (fun _ hi => hi) (fun _ hi => by cases hi) (fun _ => Nat.le_refl _) rfl
  | @drift w w' ts n e hd =>
      simp only [Option.ite_none_right_eq_some, Option.some.injEq] at hd
      obtain ⟨-, rfl⟩ := hd
      exact ⟨fun item hi => h.held item (List.mem_append_right _ hi), h.sending, h.fresh⟩

structure Sound (s : State) : Prop where
  tokens : Tokens s
  conserved : Conserved s
  attempts : Attempts s

def Reachable (s : State) : Prop := ∃ as, State.new.run rules as = some s

theorem sound_of_reachable (hr : Reachable s) (hu : Unwrapped s) : Sound s := by
  obtain ⟨as, hr⟩ := hr
  refine Crew.run_invariant (J := fun s => Unwrapped s → Sound s) (fun h hs hu => ?_) (fun _ => ?_) hr hu
  · have hold := h (Nat.le_trans (tokens_length_le hs) hu)
    have hc := conserved_step hold.conserved hold.tokens hs
    exact ⟨tokens_step (fun _ => hold.tokens) hs hu, hc,
      attempts_step hold.attempts hold.tokens hold.conserved hc hs⟩
  · exact ⟨.new, ⟨by simp [State.new], fun _ => Nat.le_refl _, fun _ _ => rfl⟩, ⟨nofun, nofun, fun _ _ => rfl⟩⟩

theorem counted_of_reachable (hr : Reachable s) : Counted s := by
  obtain ⟨as, hr⟩ := hr
  exact Crew.run_invariant counted_step ⟨Int.le_refl _, fun _ => rfl⟩ hr

theorem get_eq_none (h : Tokens s) {bytes : List UInt8} (hb : fromLeBytes bytes = some token)
    (hused : ∀ d ∈ s.deliveries, d.token = bytes → d.tokenId ∈ s.spent) : s.shared.get token = none := by
  cases hg : s.shared.get token with
  | none => rfl
  | some item =>
      obtain ⟨hd, hns⟩ := h.flight _ (MemoryQueue.mem_of_get hg)
      exact absurd (hused _ hd (toLeBytes_of_fromLeBytes hb)) hns

theorem ack_unknown (h : Tokens s) {bytes : List UInt8}
    (hused : ∀ d ∈ s.deliveries, d.token = bytes → d.tokenId ∈ s.spent) :
    ∃ t, t.idle ∧ s.shared.step (.ack bytes) = some (s.shared, [t]) := by
  cases hb : fromLeBytes bytes with
  | none => exact ⟨.failed (.storage "invalid ack token length"), rfl, by simp only [MemoryQueue.step, hb]⟩
  | some token =>
      have hg := get_eq_none h hb hused
      exact ⟨.acked token none, rfl, by
        simp only [MemoryQueue.step, hb, hg, MemoryQueue.remove_of_get_none hg]⟩

theorem nack_unknown (h : Tokens s) {bytes : List UInt8} (delay : Duration)
    (hused : ∀ d ∈ s.deliveries, d.token = bytes → d.tokenId ∈ s.spent) :
    ∃ t, t.idle ∧ s.shared.step (.nack bytes delay) = some (s.shared, [t]) := by
  cases hb : fromLeBytes bytes with
  | none => exact ⟨.failed (.storage "invalid nack token length"), rfl, by simp only [MemoryQueue.step, hb]⟩
  | some token =>
      have hg := get_eq_none h hb hused
      exact ⟨.nacked token none, rfl, by
        simp only [MemoryQueue.step, hb, hg, MemoryQueue.remove_of_get_none hg]⟩

theorem delivered_tokens_nodup (h : Tokens s) : (s.deliveries.map Delivery.token).Nodup := by
  have hn := h.nodup
  simp only [State.tokens, List.Nodup, List.pairwise_filterMap] at hn
  simp only [State.deliveries, List.Nodup, List.pairwise_map, List.pairwise_filterMap]
  refine hn.imp fun {t u} htu d hd d' hd' heq => ?_
  have heq := toLeBytes_injective heq
  cases t <;> cases hd
  cases u <;> cases hd'
  exact htu _ rfl _ rfl heq

/-- While a clone of the queue lives, every item that was enqueued is in exactly
one place. A delivery is at the attempt after the item's nacks, all deliveries have
tokens of their own, and `ready_count` counts the channel. -/
theorem memory_queue_conserves (hr : Reachable s) (hd : s.tokens.length < 2 ^ 64) :
    (s.shared.closed = false → ∀ serial ∈ s.enqueued, s.places.count serial = 1) ∧
    (∀ token item, .inserting token item ∈ s.tasks →
      item.attempt.toNat = (1 + s.nacks item.serial) % 2 ^ 32) ∧
    (s.deliveries.map Delivery.token).Nodup ∧
    (∀ bytes, (∀ d ∈ s.deliveries, d.token = bytes → d.tokenId ∈ s.spent) → ∀ delay,
      (∃ t, t.idle ∧ s.shared.step (.ack bytes) = some (s.shared, [t])) ∧
      ∃ t, t.idle ∧ s.shared.step (.nack bytes delay) = some (s.shared, [t])) ∧
    0 ≤ s.shared.readyCount ∧ s.shared.channel.length ≤ s.shared.readyCount ∧
    (s.shared.closed = false → (∀ t ∈ s.tasks, ¬ t.between) →
      s.shared.readyCount = s.shared.channel.length) := by
  have hsound := sound_of_reachable hr (Nat.le_of_lt hd)
  have hcount := counted_of_reachable hr
  refine ⟨fun ho serial hserial => ?_, fun token item hi => ?_, delivered_tokens_nodup hsound.tokens,
    fun bytes hused delay => ⟨ack_unknown hsound.tokens hused, nack_unknown hsound.tokens delay hused⟩,
    ?_, ?_, fun ho hquiet => ?_⟩
  · have hle := hsound.conserved.enqueued_le serial
    have hpos := List.count_pos_iff.mpr hserial
    rw [count_places, hsound.conserved.eq ho]
    omega
  · have hmem : item ∈ held s.shared s.tasks :=
      List.mem_append_right _ (List.mem_filterMap.mpr ⟨_, hi, rfl⟩)
    rw [hsound.attempts.held item hmem, UInt32.toNat_ofNat']
  · have := hcount.le
    omega
  · have := hcount.le
    omega
  · have hz : s.between = 0 := List.countP_eq_zero.mpr hquiet
    have := hcount.eq ho
    omega

def oneItem : Envelope :=
  ⟨none, none, none, "a@example.com", [(.to, "b@example.com")], .plain ⟨some "once", none, .inl rfl⟩, .new, []⟩

def redelivery : List (Crew.Action Request Unit Unit) :=
  [.arrive (.enqueue ⟨1⟩ oneItem), .step 0 (), .step 0 (),
    .arrive .dequeue, .step 1 (), .step 1 (), .step 1 (), .step 1 (),
    .arrive (.nack (toLeBytes 0) ⟨0⟩), .step 2 (), .step 2 (), .step 3 (), .step 3 (),
    .arrive .dequeue, .step 3 (), .step 3 (), .step 3 ()]

theorem nacked_item_redelivered : ∃ s item, Reachable s ∧ .inserting 1 item ∈ s.tasks ∧
    s.nacks item.serial = 1 ∧ item.attempt.toNat = 2 := by
  have hrun : State.new.run rules redelivery = some ⟨⟨[], [], 2, 0, false⟩,
      [.enqueued 0, .delivered ⟨⟨0, ⟨1⟩, oneItem, 1⟩, 0⟩, .nacked 0 (some ⟨0, ⟨1⟩, oneItem, 1⟩),
        .inserting 1 ⟨0, ⟨1⟩, oneItem, 2⟩], 4⟩ := rfl
  obtain ⟨-, hattempt, -⟩ := memory_queue_conserves ⟨redelivery, hrun⟩ (by decide)
  exact ⟨_, ⟨0, ⟨1⟩, oneItem, 2⟩, ⟨redelivery, hrun⟩, by simp, rfl, hattempt 1 _ (by simp)⟩

/-- An item that a `dequeue` has received, but not yet put in flight, is in none of the
channel, the flight, a requeue task and the acknowledged items. -/
theorem received_item_nowhere : ∃ s, Reachable s ∧ s.shared.closed = false ∧ 0 ∈ s.enqueued ∧
    s.tokens.length < 2 ^ 64 ∧ s.settled.count 0 = 0 := by
  refine ⟨_, ⟨[.arrive (.enqueue ⟨1⟩ oneItem), .step 0 (), .step 0 (), .arrive .dequeue, .step 1 ()], rfl⟩,
    rfl, ?_, ?_, ?_⟩ <;> decide

end Catapulte.Atomic
