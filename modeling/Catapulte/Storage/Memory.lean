import Mathlib.Data.List.Count
import Mathlib.Data.List.Perm.Basic
import Catapulte.Storage.Tables

namespace Catapulte

namespace MemoryQueue

variable {q q' : MemoryQueue} {id : EmailId} {token : AckToken}

/-- All items: those in the channel, those handed out and those that wait for
their requeue. -/
def items (q : MemoryQueue) : List QueueItem :=
  q.channel ++ q.pending.map Prod.snd ++ q.sleeping.map Prod.snd

def count (q : MemoryQueue) (id : EmailId) : Nat := (q.items.map QueueItem.id).count id

theorem count_eq (q : MemoryQueue) (id : EmailId) : q.count id =
    (q.channel.map QueueItem.id).count id + (q.pending.map fun p => p.2.id).count id +
      (q.sleeping.map fun p => p.2.id).count id := by
  simp only [count, items, List.map_append, List.map_map, List.count_append]
  rfl

theorem count_send (q : MemoryQueue) (id' : EmailId) (envelope : Envelope) (id : EmailId) :
    (q.send id' envelope).count id = q.count id + if id' = id then 1 else 0 := by
  simp only [count_eq, send, List.map_append, List.map_cons, List.map_nil, List.count_append,
    List.count_singleton, beq_iff_eq]
  omega

theorem count_remove_le (q : MemoryQueue) (token : AckToken) (id : EmailId) :
    (q.remove token).count id ≤ q.count id := by
  have hle : ((q.remove token).pending.map fun p => p.2.id).count id ≤
      (q.pending.map fun p => p.2.id).count id := (List.filter_sublist.map _).count_le id
  simp only [count_eq]
  exact Nat.add_le_add_right (Nat.add_le_add_left hle _) _

theorem recv_eq_some {d : DequeuedEmail} (h : q.recv = some (q', d)) : ∃ item channel,
    q.channel = item :: channel ∧ d = ⟨item.id, item.envelope, item.attempt, q.nextToken⟩ ∧
      q' = { q with
        channel, pending := q.pending ++ [(q.nextToken, item)], nextToken := q.nextToken + 1 } := by
  unfold recv at h
  split at h
  · cases h
  · rename_i item channel hc
    cases h
    exact ⟨item, channel, hc, rfl, rfl⟩

theorem count_recv {d : DequeuedEmail} (h : q.recv = some (q', d)) (id : EmailId) :
    q'.count id = q.count id := by
  obtain ⟨item, channel, hc, -, rfl⟩ := recv_eq_some h
  simp only [count_eq, hc, List.map_append, List.map_cons, List.map_nil, List.count_append,
    List.count_cons, List.count_nil, beq_iff_eq]
  omega

theorem count_requeue_le (q : MemoryQueue) (token : AckToken) (wake : Nat) (id : EmailId) :
    (q.requeue token wake).count id ≤ q.count id := by
  unfold requeue
  split
  · exact Nat.le_refl _
  · rename_i token' item hfind
    have hsplit := List.countP_eq_countP_filter_add q.pending (fun p => p.2.id == id)
      fun p => decide (p.1 ≠ token)
    have hpos : item.id = id → 0 < ((q.pending.filter fun p => !decide (p.1 ≠ token)).countP
        fun p => p.2.id == id) := by
      intro hid
      have htok := List.find?_some hfind
      refine List.countP_pos_iff.mpr ⟨(token', item), ?_, by simpa using hid⟩
      rw [List.mem_filter]
      exact ⟨List.mem_of_find?_eq_some hfind, by simpa using htok⟩
    simp only [count_eq, remove, List.map_append, List.map_cons, List.map_nil, List.count,
      List.countP_map, Function.comp_def, List.countP_append, List.countP_cons, List.countP_nil,
      beq_iff_eq] at hsplit hpos ⊢
    split
    · have := hpos ‹_›
      omega
    · omega

theorem wakeUp_eq_some {now k : Nat} (h : q.wakeUp now k = some q') :
    ∃ wake item, q.sleeping[k]? = some (wake, item) ∧ wake ≤ now ∧ q' = { q with
      channel := q.channel ++ [{ item with attempt := item.attempt + 1 }]
      sleeping := q.sleeping.eraseIdx k } := by
  unfold wakeUp at h
  split at h
  · split at h <;> cases h
    exact ⟨_, _, ‹_›, ‹_›, rfl⟩
  · cases h

theorem count_wakeUp {now k : Nat} (h : q.wakeUp now k = some q') (id : EmailId) :
    q'.count id = q.count id := by
  obtain ⟨wake, item, hk, -, rfl⟩ := wakeUp_eq_some h
  obtain ⟨hlt, hget⟩ := List.getElem?_eq_some_iff.mp hk
  have hperm := (List.getElem_cons_eraseIdx_perm hlt).map fun p => p.2.id
  rw [hget] at hperm
  have hcount := hperm.count_eq id
  simp only [List.map_cons, List.count_cons, beq_iff_eq] at hcount
  simp only [count_eq, List.map_append, List.map_cons, List.map_nil, List.count_append,
    List.count_singleton, beq_iff_eq]
  omega

structure HeldUnder (q : MemoryQueue) (token : AckToken) (id : EmailId) : Prop where
  channel : ∀ item ∈ q.channel, item.id ≠ id
  sleeping : ∀ p ∈ q.sleeping, p.2.id ≠ id
  pending : ∀ p ∈ q.pending, p.2.id = id → p.1 = token

theorem recv_heldUnder {d : DequeuedEmail} (h : q.recv = some (q', d)) (hc : q.count d.id ≤ 1) :
    q'.HeldUnder d.token d.id := by
  obtain ⟨item, channel, hch, rfl, rfl⟩ := recv_eq_some h
  simp only [count_eq, hch, List.map_cons, List.count_cons, beq_self_eq_true, if_true] at hc
  have hzero : ∀ {α : Type} {l : List α} {f : α → EmailId}, (l.map f).count item.id = 0 →
      ∀ x ∈ l, f x ≠ item.id := by
    intro α l f hl x hx hid
    exact List.count_eq_zero.mp hl (hid ▸ List.mem_map_of_mem hx)
  have hchannel := hzero (l := channel) (f := QueueItem.id) (by omega)
  have hsleeping := hzero (l := q.sleeping) (f := fun p : Nat × QueueItem => p.2.id) (by omega)
  have hpending := hzero (l := q.pending) (f := fun p : Nat × QueueItem => p.2.id) (by omega)
  refine ⟨hchannel, hsleeping, fun p hp hid => ?_⟩
  simp only [List.mem_append, List.mem_singleton] at hp
  rcases hp with hp | rfl
  · exact absurd hid (hpending p hp)
  · rfl

theorem HeldUnder.count_remove (h : q.HeldUnder token id) : (q.remove token).count id = 0 := by
  rw [count_eq, Nat.add_eq_zero_iff, Nat.add_eq_zero_iff]
  simp only [List.count_eq_zero, List.mem_map, not_exists, not_and, remove, List.mem_filter,
    decide_eq_true_eq]
  exact ⟨⟨fun x hx => h.channel x hx, fun p hp hid => hp.2 (h.pending p hp.1 hid)⟩,
    fun p hp => h.sleeping p hp⟩

theorem HeldUnder.send (h : q.HeldUnder token id) {id' : EmailId} (hne : id' ≠ id) (envelope : Envelope) :
    (q.send id' envelope).HeldUnder token id := by
  refine ⟨fun item hi => ?_, h.sleeping, h.pending⟩
  simp only [MemoryQueue.send, List.mem_append, List.mem_singleton] at hi
  rcases hi with hi | rfl
  · exact h.channel item hi
  · exact hne

theorem HeldUnder.remove (h : q.HeldUnder token id) (token' : AckToken) :
    (q.remove token').HeldUnder token id :=
  ⟨h.channel, h.sleeping, fun p hp => h.pending p (List.mem_filter.mp hp).1⟩

theorem HeldUnder.recv (h : q.HeldUnder token id) {d : DequeuedEmail} (hr : q.recv = some (q', d)) :
    q'.HeldUnder token id := by
  obtain ⟨item, channel, hch, -, rfl⟩ := recv_eq_some hr
  refine ⟨fun x hx => h.channel x (hch ▸ List.mem_cons_of_mem _ hx), h.sleeping, fun p hp hid => ?_⟩
  simp only [List.mem_append, List.mem_singleton] at hp
  rcases hp with hp | rfl
  · exact h.pending p hp hid
  · exact absurd hid (h.channel item (hch ▸ List.mem_cons_self))

theorem HeldUnder.requeue (h : q.HeldUnder token id) {token' : AckToken} (hne : token' ≠ token)
    (wake : Nat) : (q.requeue token' wake).HeldUnder token id := by
  unfold MemoryQueue.requeue
  split
  · exact h
  · rename_i t item hfind
    have ht : t = token' := by simpa using List.find?_some hfind
    refine ⟨h.channel, fun p hp => ?_, (h.remove token').pending⟩
    simp only [List.mem_append, List.mem_singleton] at hp
    rcases hp with hp | rfl
    · exact h.sleeping p hp
    · intro hid
      exact hne (ht.symm.trans (h.pending _ (List.mem_of_find?_eq_some hfind) hid))

theorem HeldUnder.wakeUp (h : q.HeldUnder token id) {now k : Nat} (hw : q.wakeUp now k = some q') :
    q'.HeldUnder token id := by
  obtain ⟨wake, item, hk, -, rfl⟩ := wakeUp_eq_some hw
  refine ⟨fun x hx => ?_, fun p hp => h.sleeping p (List.mem_of_mem_eraseIdx hp), h.pending⟩
  simp only [List.mem_append, List.mem_singleton] at hx
  rcases hx with hx | rfl
  · exact h.channel x hx
  · exact h.sleeping _ (List.mem_of_getElem? hk)

theorem mem_items {item : QueueItem} : item ∈ q.items ↔
    item ∈ q.channel ∨ (∃ p ∈ q.pending, p.2 = item) ∨ ∃ p ∈ q.sleeping, p.2 = item := by
  simp only [items, List.mem_append, List.mem_map, or_assoc]

theorem mem_items_wakeUp {now k : Nat} (h : q.wakeUp now k = some q') {item' : QueueItem} (hi : item' ∈ q'.items) :
    ∃ item ∈ q.items, item.id = item'.id ∧ item.envelope = item'.envelope := by
  obtain ⟨wake, item, hk, -, rfl⟩ := wakeUp_eq_some h
  simp only [mem_items, List.mem_append, List.mem_singleton] at hi
  rcases hi with (hi | rfl) | hi | ⟨p, hp, rfl⟩
  · exact ⟨item', mem_items.mpr (.inl hi), rfl, rfl⟩
  · exact ⟨item, mem_items.mpr (.inr (.inr ⟨_, List.mem_of_getElem? hk, rfl⟩)), rfl, rfl⟩
  · exact ⟨item', mem_items.mpr (.inr (.inl hi)), rfl, rfl⟩
  · exact ⟨p.2, mem_items.mpr (.inr (.inr ⟨p, List.mem_of_mem_eraseIdx hp, rfl⟩)), rfl, rfl⟩

theorem mem_items_requeue {wake : Nat} {item : QueueItem} (hi : item ∈ (q.requeue token wake).items) :
    item ∈ q.items := by
  unfold requeue at hi
  split at hi
  · exact hi
  · rename_i t x hfind
    simp only [mem_items, remove, List.mem_append, List.mem_singleton, List.mem_filter] at hi
    rcases hi with hi | ⟨p, hp, rfl⟩ | ⟨p, hp | rfl, rfl⟩
    · exact mem_items.mpr (.inl hi)
    · exact mem_items.mpr (.inr (.inl ⟨p, hp.1, rfl⟩))
    · exact mem_items.mpr (.inr (.inr ⟨p, hp, rfl⟩))
    · exact mem_items.mpr (.inr (.inl ⟨_, List.mem_of_find?_eq_some hfind, rfl⟩))

/-- The tokens of the items handed out are distinct, and all were issued before. -/
structure TokensFresh (q : MemoryQueue) : Prop where
  nodup : (q.pending.map Prod.fst).Nodup
  issued : ∀ p ∈ q.pending, p.1 < q.nextToken

theorem tokensFresh_remove (h : q.TokensFresh) (token : AckToken) : (q.remove token).TokensFresh where
  nodup := (List.filter_sublist.map _).nodup h.nodup
  issued p hp := h.issued p (List.mem_filter.mp hp).1

theorem tokensFresh_recv (h : q.TokensFresh) {d : DequeuedEmail} (hr : q.recv = some (q', d)) : q'.TokensFresh := by
  obtain ⟨item, channel, -, -, rfl⟩ := recv_eq_some hr
  constructor
  · rw [List.map_append, List.map_cons, List.map_nil]
    refine List.nodup_append.mpr ⟨h.nodup, List.nodup_singleton _, fun x hx y hy hxy => ?_⟩
    obtain ⟨p, hp, rfl⟩ := List.mem_map.mp hx
    have hlt := h.issued p hp
    have hy := List.mem_singleton.mp hy
    omega
  · intro p hp
    rcases List.mem_append.mp hp with hp | hp
    · exact Nat.lt_succ_of_lt (h.issued p hp)
    · rw [List.mem_singleton.mp hp]
      exact Nat.lt_succ_self _

theorem tokensFresh_requeue (h : q.TokensFresh) (wake : Nat) : (q.requeue token wake).TokensFresh := by
  unfold requeue
  split
  · exact h
  · have hr := tokensFresh_remove h token
    exact ⟨hr.nodup, hr.issued⟩

theorem filter_token {pending : List (AckToken × QueueItem)} {p : AckToken × QueueItem} (h : (pending.map Prod.fst).Nodup)
    (hp : p ∈ pending) : pending.filter (fun x => x.1 = p.1) = [p] := by
  induction pending with
  | nil => cases hp
  | cons x pending ih =>
      obtain ⟨hx, hn⟩ := List.nodup_cons.mp h
      rcases List.mem_cons.mp hp with rfl | hp
      · have hnone : pending.filter (fun x => x.1 = p.1) = [] := by
          refine List.filter_eq_nil_iff.mpr fun y hy heq => hx ?_
          exact of_decide_eq_true heq ▸ List.mem_map_of_mem hy
        simp [hnone]
      · have hne : ¬ x.1 = p.1 := fun heq => hx (heq ▸ List.mem_map_of_mem hp)
        simp [hne, ih hn hp]

theorem count_requeue (h : q.TokensFresh) (wake : Nat) : q.count id ≤ (q.requeue token wake).count id := by
  unfold requeue
  split
  · exact Nat.le_refl _
  · rename_i token' item hfind
    have htok : token' = token := by simpa using List.find?_some hfind
    subst htok
    have hone := filter_token h.nodup (List.mem_of_find?_eq_some hfind)
    have hsplit := List.countP_eq_countP_filter_add q.pending (fun p => p.2.id == id) fun p => decide (p.1 = token')
    rw [hone] at hsplit
    simp only [count_eq, remove, List.map_append, List.map_cons, List.map_nil, List.count, List.countP_map,
      Function.comp_def, List.countP_append, List.countP_cons, List.countP_nil, ne_eq, decide_not] at hsplit ⊢
    omega

end MemoryQueue

variable {w w' : World} {op : Effect} {r : op.Reply}

inductive MemoryWrite (w : World) : (op : Effect) → op.Reply → MemoryQueue → Prop
  | send {id envelope} : MemoryWrite w (.send id envelope) (.ok ()) (w.memory.send id envelope)
  | recv {memory item} (h : w.memory.recv = some (memory, item)) :
      MemoryWrite w .recv (.ok (some item)) memory
  | removePending {token} : MemoryWrite w (.removePending token) (.ok ()) (w.memory.remove token)
  | requeuePending {token delay} : MemoryWrite w (.requeuePending token delay) (.ok ())
      (w.memory.requeue token (w.now + delay.nanos))

@[simp] theorem claimInTransaction_memory (e : QueueEntry) (claimUntil : Int) :
    (w.claimInTransaction e claimUntil).1.memory = w.memory := by
  unfold World.claimInTransaction
  split <;> rfl

theorem Performs.memory (h : Performs w op w' r) :
    w'.memory = w.memory ∨ MemoryWrite w op r w'.memory := by
  cases h with
  | send => exact .inr .send
  | recv h => exact .inr (.recv h)
  | removePending => exact .inr .removePending
  | requeuePending => exact .inr .requeuePending
  | insertOrIgnore h | insertOnConflict h =>
      cases h with
      | inserted _ _ hs => rcases hs.cases with rfl | rfl <;> exact .inl rfl
      | _ => exact .inl rfl
  | claimTransaction _ _ h =>
      rcases h.cases with rfl | rfl
      · exact .inl rfl
      · exact .inl (claimInTransaction_memory _ _)
  | deleteEmail _ h | setAttachments _ h | insertEvent _ h | insertEntry _ _ h | claimNext _ _ h | deleteEntry h
  | leaseEntry h | putBlob _ _ h | deleteBlob h =>
      rcases h.cases with rfl | rfl <;> exact .inl rfl
  | _ => exact .inl rfl

theorem MemoryWrite.count_le {memory : MemoryQueue} (h : MemoryWrite w op r memory) (id : EmailId) :
    memory.count id ≤ w.memory.count id ∨
      (∃ envelope, op = .send id envelope) ∧ memory.count id = w.memory.count id + 1 := by
  cases h with
  | @send id' envelope =>
      rw [MemoryQueue.count_send]
      split
      · subst id'
        exact .inr ⟨⟨envelope, rfl⟩, rfl⟩
      · exact .inl (Nat.le_refl _)
  | recv h => exact .inl (Nat.le_of_eq (MemoryQueue.count_recv h id))
  | removePending => exact .inl (MemoryQueue.count_remove_le _ _ _)
  | requeuePending => exact .inl (MemoryQueue.count_requeue_le _ _ _ _)

theorem MemoryWrite.tokensFresh {memory : MemoryQueue} (h : MemoryWrite w op r memory) (ht : w.memory.TokensFresh) :
    memory.TokensFresh := by
  cases h with
  | send => exact ⟨ht.nodup, ht.issued⟩
  | recv hr => exact MemoryQueue.tokensFresh_recv ht hr
  | removePending => exact MemoryQueue.tokensFresh_remove ht _
  | requeuePending => exact MemoryQueue.tokensFresh_requeue ht _

theorem MemoryWrite.count_kept {memory : MemoryQueue} (h : MemoryWrite w op r memory) (ht : w.memory.TokensFresh)
    {id : EmailId} (hpos : 0 < w.memory.count id) : 0 < memory.count id ∨
      ∃ token, op = .removePending token ∧ ∃ p ∈ w.memory.pending, p.1 = token ∧ p.2.id = id := by
  cases h with
  | send => exact .inl (by rw [MemoryQueue.count_send]; omega)
  | recv hr => exact .inl (by rwa [MemoryQueue.count_recv hr])
  | requeuePending => exact .inl (Nat.lt_of_lt_of_le hpos (MemoryQueue.count_requeue ht _))
  | @removePending token =>
      by_cases hitem : ∃ p ∈ w.memory.pending, p.1 = token ∧ p.2.id = id
      · exact .inr ⟨token, rfl, hitem⟩
      · left
        obtain ⟨item, hmem, hid⟩ := List.mem_map.mp (List.count_pos_iff.mp hpos)
        refine List.count_pos_iff.mpr (List.mem_map.mpr ⟨item, ?_, hid⟩)
        simp only [MemoryQueue.mem_items, MemoryQueue.remove, List.mem_filter] at hmem ⊢
        refine hmem.imp_right fun h => h.imp_left fun ⟨p, hp, hpi⟩ => ⟨p, ⟨hp, decide_eq_true fun htok => ?_⟩, hpi⟩
        exact hitem ⟨p, hp, htok, hpi ▸ hid⟩

theorem MemoryWrite.item_of {memory : MemoryQueue} (h : MemoryWrite w op r memory) {item : QueueItem}
    (hi : item ∈ memory.items) : item ∈ w.memory.items ∨ op = .send item.id item.envelope := by
  cases h with
  | send =>
      simp only [MemoryQueue.mem_items, MemoryQueue.send, List.mem_append, List.mem_singleton] at hi
      rcases hi with (hi | rfl) | hi
      · exact .inl (MemoryQueue.mem_items.mpr (.inl hi))
      · exact .inr rfl
      · exact .inl (MemoryQueue.mem_items.mpr (.inr hi))
  | recv h =>
      obtain ⟨x, channel, hch, -, rfl⟩ := MemoryQueue.recv_eq_some h
      refine .inl (MemoryQueue.mem_items.mpr ?_)
      simp only [MemoryQueue.mem_items, List.mem_append, List.mem_singleton] at hi
      rcases hi with hi | ⟨p, hp | rfl, rfl⟩ | hi
      · exact .inl (hch ▸ List.mem_cons_of_mem _ hi)
      · exact .inr (.inl ⟨p, hp, rfl⟩)
      · exact .inl (hch ▸ List.mem_cons_self)
      · exact .inr (.inr hi)
  | removePending =>
      simp only [MemoryQueue.mem_items, MemoryQueue.remove, List.mem_filter] at hi
      exact .inl (MemoryQueue.mem_items.mpr (hi.imp_right fun h => h.imp_left fun ⟨p, hp, hitem⟩ => ⟨p, hp.1, hitem⟩))
  | requeuePending => exact .inl (MemoryQueue.mem_items_requeue hi)

end Catapulte
