import Catapulte.Custody
import Catapulte.Deeds

namespace Catapulte

open Async

variable {ι : Type} {a : Adapters} {jobs : ι → Job} {w w' : World} {s s' : System ι} {act : Act ι}
  {calls : List (ι × Call Sys World)} {i j : ι} {id : EmailId} {op : Effect} {r : op.Reply} {heard : Bool}
  {item : DequeuedEmail} {n : Nat}

namespace MemoryQueue

variable {q q' : MemoryQueue} {token : AckToken}

/-- After `n` deliveries of the email its next one is the attempt `n + 1`. -/
structure Delivered (q : MemoryQueue) (id : EmailId) (n : Nat) : Prop where
  channel : ∀ item ∈ q.channel, item.id = id → item.attempt = n + 1
  pending : ∀ p ∈ q.pending, p.2.id = id → p.2.attempt = n
  sleeping : ∀ p ∈ q.sleeping, p.2.id = id → p.2.attempt = n

theorem Delivered.send (h : q.Delivered id n) {id' : EmailId} (hne : id' ≠ id) (envelope : Envelope) :
    (q.send id' envelope).Delivered id n := by
  refine ⟨fun item hi hid => ?_, h.pending, h.sleeping⟩
  simp only [MemoryQueue.send, List.mem_append, List.mem_singleton] at hi
  rcases hi with hi | rfl
  · exact h.channel item hi hid
  · exact absurd hid hne

theorem delivered_send (hc : q.count id = 0) (envelope : Envelope) : (q.send id envelope).Delivered id 0 := by
  have hzero : ∀ item ∈ q.items, item.id ≠ id := fun item hi hid =>
    List.count_eq_zero.mp hc (hid ▸ List.mem_map_of_mem hi)
  simp only [items, List.mem_append, List.mem_map] at hzero
  refine ⟨fun item hi hid => ?_, fun p hp hid => ?_, fun p hp hid => ?_⟩
  · simp only [MemoryQueue.send, List.mem_append, List.mem_singleton] at hi
    rcases hi with hi | rfl
    · exact absurd hid (hzero item (.inl (.inl hi)))
    · rfl
  · exact absurd hid (hzero p.2 (.inl (.inr ⟨p, hp, rfl⟩)))
  · exact absurd hid (hzero p.2 (.inr ⟨p, hp, rfl⟩))

theorem Delivered.remove (h : q.Delivered id n) (token : AckToken) : (q.remove token).Delivered id n :=
  ⟨h.channel, fun p hp => h.pending p (List.mem_filter.mp hp).1, h.sleeping⟩

theorem Delivered.requeue (h : q.Delivered id n) (token : AckToken) (wake : Nat) : (q.requeue token wake).Delivered id n := by
  unfold MemoryQueue.requeue
  split
  · exact h
  · rename_i t item hfind
    refine ⟨h.channel, (h.remove token).pending, fun p hp hid => ?_⟩
    simp only [List.mem_append, List.mem_singleton] at hp
    rcases hp with hp | rfl
    · exact h.sleeping p hp hid
    · exact h.pending (t, item) (List.mem_of_find?_eq_some hfind) hid

theorem Delivered.wakeUp (h : q.Delivered id n) {now k : Nat} (hw : q.wakeUp now k = some q') : q'.Delivered id n := by
  obtain ⟨wake, item, hk, -, rfl⟩ := wakeUp_eq_some hw
  refine ⟨fun x hx hid => ?_, h.pending, fun p hp => h.sleeping p (List.mem_of_mem_eraseIdx hp)⟩
  simp only [List.mem_append, List.mem_singleton] at hx
  rcases hx with hx | rfl
  · exact h.channel x hx hid
  · exact congrArg (· + 1) (h.sleeping _ (List.mem_of_getElem? hk) hid)

theorem Delivered.recv_other (h : q.Delivered id n) (hr : q.recv = some (q', item)) (hne : item.id ≠ id) : q'.Delivered id n := by
  obtain ⟨x, channel, hch, rfl, rfl⟩ := recv_eq_some hr
  refine ⟨fun y hy => h.channel y (hch ▸ List.mem_cons_of_mem _ hy), fun p hp hid => ?_, h.sleeping⟩
  simp only [List.mem_append, List.mem_singleton] at hp
  rcases hp with hp | rfl
  · exact h.pending p hp hid
  · exact absurd hid hne

theorem Delivered.recv (h : q.Delivered item.id n) (hc : q.count item.id ≤ 1) (hr : q.recv = some (q', item)) :
    item.attempt = n + 1 ∧ q'.Delivered item.id (n + 1) := by
  have hheld := recv_heldUnder hr hc
  obtain ⟨x, channel, hch, rfl, rfl⟩ := recv_eq_some hr
  have hpending : (q.pending.map fun p => p.2.id).count x.id = 0 := by
    simp only [count_eq, hch, List.map_cons, List.count_cons, beq_self_eq_true, if_true] at hc
    omega
  have hattempt : x.attempt = n + 1 := h.channel x (hch ▸ List.mem_cons_self) rfl
  refine ⟨hattempt, ⟨fun y hy hid => absurd hid (hheld.channel y hy), fun p hp hid => ?_,
    fun p hp hid => absurd hid (hheld.sleeping p hp)⟩⟩
  simp only [List.mem_append, List.mem_singleton] at hp
  rcases hp with hp | rfl
  · refine absurd ?_ (List.count_eq_zero.mp hpending)
    have hid : p.2.id = x.id := hid
    rw [← hid]
    exact List.mem_map_of_mem hp
  · exact hattempt

end MemoryQueue

def handler (id : EmailId) (x : ι × Call Sys World) : Option (ι × DequeuedEmail) :=
  (got x.2).bind fun item => if item.id = id then some (x.1, item) else none

/-- The turns that received the email, each with its item, in their order. -/
def handlers (id : EmailId) (calls : List (ι × Call Sys World)) : List (ι × DequeuedEmail) := calls.filterMap (handler id)

/-- The event that a worker publishes. -/
def workerEvent : Call Sys World → Option LifecycleEvent
  | ⟨_, .insertEvent _ event, _, _⟩ => if event.eventType = "queued" then none else some event
  | _ => none

/-- What the workers published for the email. -/
def published (id : EmailId) (calls : List (ι × Call Sys World)) : List LifecycleEvent :=
  (calls.filterMap fun x => workerEvent x.2).filter fun event => event.emailId = id

def Deed.event : Deed → Option LifecycleEvent
  | publish event => some event
  | _ => none

def Deed.acks : Deed → Bool
  | ack _ ok => ok
  | _ => false

def Ended (s : System ι) (i : ι) : Prop := ∃ r, s.task i = some (.done r)

/-- An attempt is handed out when the handling of the attempt before it has ended. -/
def InOrder (s : System ι) (act : Act ι) : Prop :=
  ∀ x ∈ Pool.landed machine s act, ∀ item ∈ got x.2, ∀ y ∈ s.calls, ∀ item' ∈ got y.2, item'.id = item.id →
    item'.attempt + 1 = item.attempt → Ended s y.1

instance (s : System ι) (i : ι) : Decidable (Ended s i) :=
  match h : s.task i with
  | some (.done r) => isTrue ⟨r, h⟩
  | some (.await ..) => isFalse fun ⟨_, h'⟩ => by rw [h] at h'; cases h'
  | none => isFalse fun ⟨_, h'⟩ => by rw [h] at h'; cases h'

instance (s : System ι) (act : Act ι) : Decidable (InOrder s act) := inferInstanceAs (Decidable (∀ x ∈ _, _))

section Runs

variable [DecidableEq ι]

def Retried (s : System ι) (h : ι × DequeuedEmail) : Prop :=
  Ended s h.1 ∧ ∃ e, isTerminal e h.2.attempt = false ∧ deeds h.1 s.calls = h.2.deeds (.retrying e)

/-- How the deliveries of an email follow each other. -/
structure Lineage (s : System ι) (id : EmailId) : Prop where
  numbered : (handlers id s.calls).map (fun h => h.2.attempt) = List.range' 1 (handlers id s.calls).length
  waiting : s.world.memory.Delivered id (handlers id s.calls).length
  offered : handlers id s.calls ≠ [] → Seen (Offered id) s.calls
  earlier : ∀ init last, handlers id s.calls = init ++ [last] → ∀ h ∈ init, Retried s h
  events : published id s.calls = (handlers id s.calls).flatMap fun h => (deeds h.1 s.calls).filterMap Deed.event
  acked : ∀ h ∈ handlers id s.calls, (deeds h.1 s.calls).any Deed.acks = true → ¬ s.world.Outstanding id

theorem mem_handlers {h : ι × DequeuedEmail} (hh : h ∈ handlers id calls) : h.2 ∈ gots h.1 calls ∧ h.2.id = id := by
  obtain ⟨x, hx, hg⟩ := List.mem_filterMap.mp hh
  obtain ⟨item, hitem, hg⟩ := Option.bind_eq_some_iff.mp hg
  split at hg
  · cases hg
    exact ⟨List.mem_filterMap.mpr ⟨x, hx, by rw [if_pos rfl, hitem]⟩, ‹_›⟩
  · cases hg

omit [DecidableEq ι] in
theorem handlers_snoc {x : ι × Call Sys World} : handlers id (calls ++ [x]) = handlers id calls ++ (handler id x).toList := by
  rw [handlers, List.filterMap_append, List.filterMap_cons, handlers]
  cases handler id x <;> rfl

omit [DecidableEq ι] in
theorem published_snoc {x : ι × Call Sys World} : published id (calls ++ [x]) =
    published id calls ++ (workerEvent x.2).toList.filter fun event => event.emailId = id := by
  rw [published, List.filterMap_append, List.filter_append, List.filterMap_cons, published]
  cases workerEvent x.2 <;> rfl

theorem Lineage.idle (h : Lineage s id) (hs : Pool.Step machine s act s') (hcalls : s'.calls = s.calls)
    (hwait : s'.world.memory.Delivered id (handlers id s.calls).length)
    (hout : s'.world.Outstanding id → s.world.Outstanding id) : Lineage s' id := by
  refine ⟨hcalls ▸ h.numbered, hcalls ▸ hwait, hcalls ▸ h.offered, fun init last hinit x hx => ?_, hcalls ▸ h.events, ?_⟩
  · obtain ⟨⟨r, hdone⟩, hdeeds⟩ := h.earlier init last (hcalls ▸ hinit) x hx
    exact ⟨⟨r, Pool.done_step hs hdone⟩, hcalls ▸ hdeeds⟩
  · intro x hx hack hout'
    rw [hcalls] at hx hack
    exact h.acked x hx hack (hout hout')

theorem DeedsAt.gots_cases {st : TurnStage} (h : DeedsAt i calls st) : gots i calls = [] ∨ ∃ item, gots i calls = [item] := by
  cases st with
  | polling => exact .inl h.1
  | sending item | sendingDrawn item | executing item | clearing item => exact .inr ⟨item, h.1⟩
  | acking item => exact .inr ⟨item, h.2.2.1⟩
  | nacking item | closing item | closingDrawn item => exact .inr ⟨item, h.2.1⟩
  | cleaning item =>
      obtain ⟨-, -, hgots, -⟩ := h
      exact .inr ⟨item, hgots⟩
  | ended =>
      rcases h with h | ⟨item, -, -, hgots, -⟩
      · exact .inl h.1
      · exact .inr ⟨item, hgots⟩
  | claiming | reading | orphaned | leasing => exact h.elim

def lineages (a : Adapters) (jobs : ι → Job) : Outlines ι :=
  outline a jobs (fun w calls => Custody a jobs w calls ∧ Protocol jobs w calls)
    fun i st w calls => CustodyTask a jobs i st w calls ∧ ProtocolTask i st w calls

theorem lineages_custody (h : (lineages a jobs).Holds s) : (custody a jobs).Holds s :=
  ⟨h.1.1, fun i p hp => (h.2 i p hp).imp fun _ ht => ⟨ht.1, ht.2.1⟩⟩

theorem lineages_protocol (h : (lineages a jobs).Holds s) : (protocol a jobs).Holds s :=
  ⟨h.1.2, fun i p hp => (h.2 i p hp).imp fun _ ht => ⟨ht.1, ht.2.2⟩⟩

theorem lineages_start (hv : Vacant jobs w) : (lineages a jobs).Holds (System.start a w jobs) := by
  refine outline_start ⟨(custody_start hv).1, (protocol_start (a := a) (w := w)).1⟩ fun i => ?_
  cases jobs i with
  | turn => exact ⟨trivial, rfl, rfl⟩
  | submit | sweep => exact ⟨trivial, trivial⟩

theorem lineages_keeps (hd : DistinctIds jobs) (hq : a.queue = .memory) (hacc : (acceptance a jobs).Holds s)
    (h : (lineages a jobs).Holds s) : (lineages a jobs).Keeps machine s act := by
  have hc : (custody a jobs).Keeps machine s act := custody_keeps hd hacc (lineages_custody h)
  have hp : (protocol a jobs).Keeps machine s act := protocol_keeps hq (lineages_protocol h)
  exact {
    shared := fun hl hm ht => ⟨hc.shared hl hm ht.1, hp.shared hl hm ht.2⟩
    own := fun hl hm ht => ⟨hc.own hl hm ht.1, hp.own hl hm ht.2⟩
    other := fun hl hm ht _ _ _ hji hj hf htj => ⟨hc.other hl hm ht.1 hji hj hf htj.1, hp.other hl hm ht.2 hji hj hf htj.2⟩
    drift := fun hdr => ⟨⟨(hc.drift hdr).1, (hp.drift hdr).1⟩, fun ht => ⟨(hc.drift hdr).2 ht.1, (hp.drift hdr).2 ht.2⟩⟩ }

theorem gots_of_mem (h : Protocol jobs w calls) (hm : item ∈ gots i calls) : jobs i = .turn ∧ gots i calls = [item] := by
  rcases h i with ⟨hi, st, hst⟩ | ⟨-, hnone⟩
  · refine ⟨hi, ?_⟩
    rcases hst.gots_cases with hnone | ⟨item', hone⟩
    · rw [hnone] at hm
      cases hm
    · rw [hone] at hm
      rw [hone, List.mem_singleton.mp hm]
  · rw [hnone] at hm
    cases hm

theorem deeds_of_ended (h : (protocol a jobs).Holds s) (he : Ended s i) (hm : item ∈ gots i s.calls) :
    ∃ outcome, outcome.Fits item.attempt ∧ deeds i s.calls = item.deeds outcome := by
  obtain ⟨hturn, hone⟩ := gots_of_mem (w := s.world) h.1 hm
  obtain ⟨r, hr⟩ := he
  obtain ⟨st, hends, hat⟩ := h.2 i _ hr
  have hends : JobEnds (jobs i) st r := hends
  rw [hturn] at hends
  cases hends with
  | turn =>
      rcases hat with ⟨hnone, -⟩ | ⟨item', outcome, hfits, hgots, hdeeds⟩
      · rw [hnone] at hone
        cases hone
      · rw [hone] at hgots
        cases hgots
        exact ⟨outcome, hfits, hdeeds⟩

omit [DecidableEq ι] in
theorem not_ended_of_running (h : Running s i) : ¬ Ended s i := by
  rintro ⟨r, hr⟩
  obtain ⟨op, next, ht⟩ := h
  rw [hr] at ht
  cases ht

theorem Lineage.last_of_running (h : Lineage s id) (hr : Running s i) (hm : (i, item) ∈ handlers id s.calls) :
    ∃ init, handlers id s.calls = init ++ [(i, item)] := by
  rcases List.eq_nil_or_concat (handlers id s.calls) with hnil | ⟨init, last, hlast⟩
  · rw [hnil] at hm
    cases hm
  · rw [List.concat_eq_append] at hlast
    rw [hlast] at hm
    rcases List.mem_append.mp hm with hm | hm
    · exact absurd (h.earlier init last hlast _ hm).1 (not_ended_of_running hr)
    · rw [← List.mem_singleton.mp hm] at hlast
      exact ⟨init, hlast⟩

theorem Retried.snoc {h : ι × DequeuedEmail} {c : Call Sys World} (hh : Retried s h) (hs : Pool.Step machine s act s')
    (hcalls : s'.calls = s.calls ++ [(i, c)]) (hr : Running s i) : Retried s' h := by
  obtain ⟨⟨r, hdone⟩, e, hterm, hdeeds⟩ := hh
  have hne : h.1 ≠ i := fun heq => not_ended_of_running hr (heq ▸ ⟨r, hdone⟩)
  refine ⟨⟨r, Pool.done_step hs hdone⟩, e, hterm, ?_⟩
  rw [hcalls, deeds, ownOf_snoc_of_ne deedOf hne]
  exact hdeeds

theorem Deed.acks_deeds {outcome : Outcome} (h : ∀ e, outcome ≠ .retrying e) : (item.deeds outcome).any Deed.acks = true := by
  cases outcome with
  | sent senderName => simp [DequeuedEmail.deeds, DequeuedEmail.settling, Deed.acks]
  | failed e => simp [DequeuedEmail.deeds, DequeuedEmail.settling, Deed.acks]
  | retrying e => exact absurd rfl (h e)

omit [DecidableEq ι] in
theorem handler_of_got {c : Call Sys World} (hg : got c = some item) : handler item.id (i, c) = some (i, item) := by
  rw [handler, hg, Option.bind_some, if_pos rfl]

theorem outstanding_of_recv {memory : MemoryQueue} (h : w.memory.recv = some (memory, item)) : w.Outstanding item.id := by
  obtain ⟨x, channel, hch, rfl, -⟩ := MemoryQueue.recv_eq_some h
  refine .inr ?_
  simp only [MemoryQueue.count_eq, hch, List.map_cons, List.count_cons, beq_self_eq_true, if_true]
  omega

theorem Lineage.retried (h : Lineage s id) (hl : (lineages a jobs).Holds s) (hout : s.world.Outstanding id)
    (hlast : ∀ x ∈ handlers id s.calls, x.2.attempt = (handlers id s.calls).length → Ended s x.1) :
    ∀ x ∈ handlers id s.calls, Retried s x := by
  intro x hx
  rcases List.eq_nil_or_concat (handlers id s.calls) with hnil | ⟨init, last, hconcat⟩
  · rw [hnil] at hx
    cases hx
  rw [List.concat_eq_append] at hconcat
  rcases List.mem_append.mp (hconcat ▸ hx) with hmem | hmem
  · exact h.earlier init last hconcat x hmem
  · obtain rfl := List.mem_singleton.mp hmem
    have hattempt : x.2.attempt = (handlers id s.calls).length := by
      have hnum := congrArg List.getLast? h.numbered
      rw [hconcat, List.map_append, List.map_singleton, List.getLast?_concat, List.length_append, List.length_singleton,
        List.range'_1_concat, List.getLast?_concat, Option.some.injEq] at hnum
      rw [hconcat, List.length_append, List.length_singleton]
      omega
    have hended := hlast x hx hattempt
    obtain ⟨outcome, hfits, hdeeds⟩ := deeds_of_ended (lineages_protocol hl) hended (mem_handlers hx).1
    cases outcome with
    | sent | failed =>
        refine absurd hout (h.acked x hx ?_)
        rw [hdeeds]
        exact Deed.acks_deeds nofun
    | retrying e => exact ⟨hended, e, hfits, hdeeds⟩

theorem Lineage.received (h : Lineage s item.id) (hl : (lineages a jobs).Holds s) (ho : Own jobs item.id)
    (hq : a.queue = .memory) (hord : InOrder s act) (hs : Pool.Step machine s act s') {c : Call Sys World}
    (hcalls : s'.calls = s.calls ++ [(i, c)]) (hg : got c = some item) : Lineage s' item.id := by
  have hlands := Pool.step_lands hs hcalls
  obtain ⟨hbefore, hp, st, st', hm, -, htask⟩ := landing hl hs hcalls
  have hlanded : Pool.landed machine s act = some (i, c) := by
    rw [Pool.landed_of_lands c.heard hlands, ← hbefore]
  have hnew : handlers item.id s'.calls = handlers item.id s.calls ++ [(i, item)] := by
    rw [hcalls, handlers_snoc, handler_of_got hg]
    rfl
  have hpublished : published item.id s'.calls = published item.id s.calls := by
    rw [hcalls, published_snoc]
    obtain ⟨before, op, r, heard⟩ := c
    cases op with
    | recv => exact List.append_nil _
    | _ => cases hg
  obtain ⟨before, op, r, heard⟩ := c
  cases op with
  | recv =>
      cases r with
      | error => cases hg
      | ok received =>
      obtain rfl : received = some item := hg
      obtain ⟨memory, hrecv, hworld⟩ : ∃ memory, s.world.memory.recv = some (memory, item) ∧
          s'.world = { s.world with memory } := by
        generalize s'.world = w' at hp
        cases hp with
        | recv hrecv => exact ⟨_, hrecv, rfl⟩
      have hsingle := hl.1.1.single ho
      rw [hq] at hsingle
      obtain ⟨hattempt, hwaiting⟩ := h.waiting.recv hsingle.2 hrecv
      have hout := outstanding_of_recv hrecv
      have hretried : ∀ x ∈ handlers item.id s.calls, Retried s x := by
        refine h.retried hl hout fun x hx hlen => ?_
        obtain ⟨y, hy, hyx⟩ := List.mem_filterMap.mp hx
        obtain ⟨item', hgot, hyx⟩ := Option.bind_eq_some_iff.mp hyx
        split at hyx
        · cases hyx
          exact hord _ hlanded item rfl y hy item' hgot ‹_› (by rw [hlen, hattempt])
        · cases hyx
      have hrunning : Running s i := lands_running hlands
      have hfresh : deeds i s'.calls = [] := by
        have hmoves : JobMoves a (jobs i) st .recv (.ok (some item)) st' := hm
        clear hm
        generalize jobs i = job at hmoves
        cases hmoves with
        | submit hm => cases hm
        | sweep hm => cases hm
        | turn hm =>
            cases hm with
            | received =>
                rw [hcalls]
                exact deeds_snoc htask.2 rfl
      have hdeeds : ∀ x ∈ handlers item.id s.calls, deeds x.1 s'.calls = deeds x.1 s.calls := by
        intro x hx
        have hne : x.1 ≠ i := fun heq => not_ended_of_running hrunning (heq ▸ (hretried x hx).1)
        rw [hcalls, deeds, ownOf_snoc_of_ne deedOf hne, deeds]
      refine ⟨?_, ?_, fun _ => ?_, fun init last hinit x hx => ?_, ?_, fun x hx hack => ?_⟩
      · rw [hnew, List.map_append, h.numbered, List.length_append, List.length_singleton, List.range'_1_concat,
          List.map_singleton, hattempt, Nat.add_comm 1]
      · rw [hnew, List.length_append, List.length_singleton, hworld]
        exact hwaiting
      · rw [hcalls]
        exact (hl.1.1.origin ho hout).append _
      · rw [hnew] at hinit
        obtain ⟨rfl, -⟩ := List.append_inj' hinit rfl
        exact (hretried x hx).snoc hs hcalls hrunning
      · rw [hpublished, hnew, h.events, List.flatMap_append, List.flatMap_singleton, hfresh, List.filterMap_nil,
          List.append_nil]
        exact List.flatMap_congr fun x hx => by rw [hdeeds x hx]
      · rw [hnew] at hx
        rcases List.mem_append.mp hx with hx | hx
        · rw [hdeeds x hx] at hack
          exact absurd hout (h.acked x hx hack)
        · rw [List.mem_singleton.mp hx, hfresh] at hack
          cases hack
  | _ => cases hg

omit [DecidableEq ι] in
theorem handler_none {c : Call Sys World} (h : handler id (i, c) = none) (hg : got c = some item) : item.id ≠ id := by
  rintro rfl
  rw [handler_of_got hg] at h
  cases h

theorem mem_handlers_of_gots (hm : item ∈ gots i calls) : (i, item) ∈ handlers item.id calls := by
  obtain ⟨x, hx, hg⟩ := List.mem_filterMap.mp hm
  split at hg
  · rename_i hi
    subst hi
    exact List.mem_filterMap.mpr ⟨x, hx, handler_of_got hg⟩
  · cases hg

theorem Lineage.waiting_other (h : Lineage s id) (hl : (lineages a jobs).Holds s) (ho : Own jobs id)
    (hfresh : op.Enqueues id → ¬ Seen (Offered id) s.calls) (hp : Performs s.world op w' r)
    (hnone : handler id (i, (⟨s.world, op, r, heard⟩ : Call Sys World)) = none) :
    w'.memory.Delivered id (handlers id s.calls).length := by
  rcases hp.memory with hm | hm
  · rw [hm]
    exact h.waiting
  · generalize w'.memory = memory at hm
    cases hm with
    | @send id' envelope =>
        by_cases hid : id' = id
        · subst hid
          have hseen := hfresh rfl
          have hzero : handlers id' s.calls = [] := by
            by_contra hne
            exact hseen (h.offered hne)
          have hout : ¬ s.world.Outstanding id' := fun hout => hseen (hl.1.1.origin ho hout)
          rw [hzero]
          exact MemoryQueue.delivered_send (Nat.eq_zero_of_not_pos fun hpos => hout (.inr hpos)) envelope
        · exact h.waiting.send hid envelope
    | recv hr => exact h.waiting.recv_other hr (handler_none hnone rfl)
    | removePending => exact h.waiting.remove _
    | requeuePending => exact h.waiting.requeue _ _

theorem publishes_moves {job : Job} {st st' : Stage} {uuid : Nat} {event : LifecycleEvent}
    {r : (Effect.insertEvent uuid event).Reply} (hm : JobMoves a job st (.insertEvent uuid event) r st')
    (ht : ProtocolTask i st w calls) : (event.eventType = "queued" ∧ job ≠ .turn) ∨
      (event.eventType ≠ "queued" ∧ ∃ item, event.emailId = item.id ∧ gots i calls = [item]) := by
  cases hm with
  | submit hm =>
      cases hm
      exact .inl ⟨rfl, nofun⟩
  | sweep hm => cases hm
  | turn hm =>
      cases hm with
      | @sendingPublished item => exact .inr ⟨(by decide : "sending" ≠ "queued"), item, rfl, ht.1⟩
      | @closed item outcome =>
          refine .inr ⟨?_, item, by cases outcome <;> rfl, ht.2.1⟩
          cases outcome with
          | sent => exact (by decide : "delivery.succeeded" ≠ "queued")
          | failed => exact (by decide : "delivery.failed" ≠ "queued")
          | retrying => exact (by decide : "retrying" ≠ "queued")

theorem deeds_other {x : ι × DequeuedEmail} (hne : x.1 ≠ i) (c : Call Sys World) :
    deeds x.1 (calls ++ [(i, c)]) = deeds x.1 calls := ownOf_snoc_of_ne deedOf hne

theorem Lineage.events_other (h : Lineage s id) (hl : (lineages a jobs).Holds s) (hr : Running s i) {st st' : Stage}
    (hm : JobMoves a (jobs i) st op r st') (ht : ProtocolTask i st s.world s.calls) :
    published id (s.calls ++ [(i, ⟨s.world, op, r, heard⟩)]) = (handlers id s.calls).flatMap fun x =>
      (deeds x.1 (s.calls ++ [(i, ⟨s.world, op, r, heard⟩)])).filterMap Deed.event := by
  rw [published_snoc, h.events]
  have hquiet (hw : workerEvent (⟨s.world, op, r, heard⟩ : Call Sys World) = none)
      (hd : (deedOf (⟨s.world, op, r, heard⟩ : Call Sys World)).toList.filterMap Deed.event = []) :
      ((handlers id s.calls).flatMap fun x => (deeds x.1 s.calls).filterMap Deed.event) ++
        (workerEvent (⟨s.world, op, r, heard⟩ : Call Sys World)).toList.filter (fun event => event.emailId = id) =
      (handlers id s.calls).flatMap fun x =>
        (deeds x.1 (s.calls ++ [(i, ⟨s.world, op, r, heard⟩)])).filterMap Deed.event := by
    rw [hw, Option.toList_none, List.filter_nil, List.append_nil]
    refine List.flatMap_congr fun x _ => ?_
    by_cases hx : x.1 = i
    · rw [hx, deeds, deeds, ownOf_snoc, List.filterMap_append, hd, List.append_nil]
    · rw [deeds_other hx]
  cases op with
  | insertEvent uuid event =>
      -- The other deliveries of the email do nothing.
      have hothers {l : List (ι × DequeuedEmail)} (hl : ∀ x ∈ l, x.1 ≠ i) (c : Call Sys World) :
          (l.flatMap fun x => (deeds x.1 (s.calls ++ [(i, c)])).filterMap Deed.event) =
            l.flatMap fun x => (deeds x.1 s.calls).filterMap Deed.event :=
        List.flatMap_congr fun x hx => by rw [deeds_other (hl x hx)]
      rcases publishes_moves hm ht with ⟨hqueued, hjob⟩ | ⟨hqueued, item, hid, hgots⟩
      · rw [workerEvent, if_pos hqueued, Option.toList_none, List.filter_nil, List.append_nil]
        refine (hothers (fun x hx hxi => ?_) _).symm
        exact hjob (hxi ▸ (gots_of_mem (w := s.world) hl.1.2 (mem_handlers hx).1).1)
      · rw [workerEvent, if_neg hqueued, Option.toList_some]
        by_cases hown : item.id = id
        · have hmem : (i, item) ∈ handlers id s.calls :=
            hown ▸ mem_handlers_of_gots (hgots ▸ List.mem_singleton_self item)
          obtain ⟨init, hinit⟩ := h.last_of_running hr hmem
          have hne : ∀ x ∈ init, x.1 ≠ i := fun x hx hxi =>
            not_ended_of_running hr (hxi ▸ (h.earlier init _ hinit x hx).1)
          rw [hinit, List.flatMap_append, List.flatMap_append, hothers hne, List.flatMap_singleton, List.flatMap_singleton,
            List.append_assoc, List.filter_cons_of_pos (by rw [hid, hown]; exact decide_eq_true rfl), List.filter_nil,
            deeds, deeds, ownOf_snoc, List.filterMap_append]
          rfl
        · rw [List.filter_cons_of_neg (by rw [hid]; simpa using hown), List.filter_nil, List.append_nil]
          refine (hothers (fun x hx hxi => ?_) _).symm
          obtain ⟨hgot, hxid⟩ := mem_handlers hx
          rw [hxi, hgots] at hgot
          exact hown (List.mem_singleton.mp hgot ▸ hxid)
  | _ => exact hquiet rfl rfl

omit [DecidableEq ι] in
theorem acks_moves {job : Job} {st st' : Stage} (hq : a.queue = .memory) (hm : JobMoves a job st op r st')
    (hp : Performs w op w' r) (hc : CustodyTask a jobs i st w calls)
    (hd : (deedOf (⟨w, op, r, heard⟩ : Call Sys World)).toList.any Deed.acks = true) :
    ∃ item, (∃ outcome, st = .turn (.acking item outcome)) ∧ (Own jobs item.id → ¬ w'.Outstanding item.id) := by
  cases op with
  | removePending token =>
      cases hm with
      | submit hm => cases hm
      | sweep hm => cases hm
      | turn hm =>
          cases hm with
          | @removed item outcome =>
              cases hp with
              | removePending => exact ⟨item, ⟨outcome, rfl⟩, fun ho => removed_not_outstanding (hq ▸ (hc.2 ho).2)⟩
          | removeFailed => cases hd
  | insertEvent | process | requeuePending | setAttachments | deleteBlob => cases hd
  | _ => cases hd

theorem Lineage.acked_other (h : Lineage s id) (ho : Own jobs id) (hq : a.queue = .memory)
    (hfresh : op.Enqueues id → ¬ Seen (Offered id) s.calls) {st st' : Stage} (hp : Performs s.world op w' r)
    (hm : JobMoves a (jobs i) st op r st') (hc : CustodyTask a jobs i st s.world s.calls)
    (ht : ProtocolTask i st s.world s.calls) {x : ι × DequeuedEmail} (hx : x ∈ handlers id s.calls)
    (hack : (deeds x.1 (s.calls ++ [(i, ⟨s.world, op, r, heard⟩)])).any Deed.acks = true) : ¬ w'.Outstanding id := by
  have hkeep (hack : (deeds x.1 s.calls).any Deed.acks = true) : ¬ w'.Outstanding id := by
    have hop : ¬ op.Enqueues id := fun hop => hfresh hop (h.offered (List.ne_nil_of_mem hx))
    exact fun hout => h.acked x hx hack (hp.outstanding hop hout)
  by_cases hxi : x.1 = i
  · rw [hxi, deeds, ownOf_snoc, List.any_append, Bool.or_eq_true] at hack
    rcases hack with hack | hack
    · exact hkeep (hxi ▸ hack)
    · obtain ⟨item, ⟨outcome, rfl⟩, hnot⟩ := acks_moves hq hm hp hc hack
      obtain ⟨-, -, hgots, -⟩ := ht
      obtain ⟨hgot, hxid⟩ := mem_handlers hx
      rw [hxi, hgots] at hgot
      obtain rfl : item.id = id := by rw [← hxid, List.mem_singleton.mp hgot]
      exact hnot ho
  · rw [deeds_other hxi] at hack
    exact hkeep hack

theorem Lineage.other (h : Lineage s id) (hl : (lineages a jobs).Holds s) (hacc : (acceptance a jobs).Holds s)
    (hd : DistinctIds jobs) (ho : Own jobs id) (hq : a.queue = .memory) (hs : Pool.Step machine s act s') {c : Call Sys World}
    (hcalls : s'.calls = s.calls ++ [(i, c)]) (hnone : handler id (i, c) = none) : Lineage s' id := by
  have hlands := Pool.step_lands hs hcalls
  obtain ⟨hbefore, hp, st, st', hm, hc, ht⟩ := landing hl hs hcalls
  obtain ⟨before, op, r, heard⟩ := c
  obtain rfl : before = s.world := hbefore
  have hrunning : Running s i := lands_running hlands
  have hfresh : op.Enqueues id → ¬ Seen (Offered id) s.calls := fresh_enqueue hd hacc hlands
  have hsame : handlers id s'.calls = handlers id s.calls := by
    rw [hcalls, handlers_snoc, hnone]
    exact List.append_nil _
  constructor
  · rw [hsame]
    exact h.numbered
  · rw [hsame]
    exact h.waiting_other hl ho hfresh hp hnone
  · rw [hsame, hcalls]
    exact fun hne => (h.offered hne).append _
  · rw [hsame]
    exact fun init last hinit x hx => (h.earlier init last hinit x hx).snoc hs hcalls hrunning
  · rw [hsame, hcalls]
    exact h.events_other hl hrunning hm ht
  · rw [hsame, hcalls]
    exact fun x hx hack => h.acked_other ho hq hfresh hp hm hc ht hx hack

theorem lineage_start (hv : Vacant jobs w) (ho : Own jobs id) : Lineage (System.start a w jobs) id := by
  have hcount : w.memory.count id = 0 := Nat.eq_zero_of_not_pos fun hpos => hv.outstanding ho (.inr hpos)
  have hzero : ∀ item ∈ w.memory.items, item.id ≠ id := fun item hi hid =>
    List.count_eq_zero.mp hcount (hid ▸ List.mem_map_of_mem hi)
  simp only [MemoryQueue.items, List.mem_append, List.mem_map] at hzero
  refine ⟨rfl, ⟨?_, ?_, ?_⟩, fun h => absurd rfl h, fun init last hinit => ?_, rfl, fun x hx => (by cases hx)⟩
  · exact fun item hi hid => absurd hid (hzero item (.inl (.inl hi)))
  · exact fun p hp hid => absurd hid (hzero p.2 (.inl (.inr ⟨p, hp, rfl⟩)))
  · exact fun p hp hid => absurd hid (hzero p.2 (.inr ⟨p, hp, rfl⟩))
  · cases init <;> cases hinit

theorem Lineage.step (h : Lineage s id) (hl : (lineages a jobs).Holds s) (hacc : (acceptance a jobs).Holds s)
    (hd : DistinctIds jobs) (ho : Own jobs id) (hq : a.queue = .memory) (hord : InOrder s act)
    (hs : Pool.Step machine s act s') : Lineage s' id := by
  rcases Pool.step_calls hs with hcalls | ⟨⟨i, c⟩, hcalls⟩
  · cases hs with
    | drop ht => exact h.idle (.drop ht) rfl h.waiting fun hout => hout
    | @drift e w hdrift =>
        have hdr := drifts hdrift
        refine h.idle (.drift hdrift) rfl ?_ hdr.outstanding_iff.mp
        cases hdr with
        | tick => exact h.waiting
        | wake hw => exact h.waiting.wakeUp hw
    | answer | lose => simp at hcalls
  · cases hg : handler id (i, c) with
    | none => exact h.other hl hacc hd ho hq hs hcalls hg
    | some x =>
        obtain ⟨item, hgot, hx⟩ := Option.bind_eq_some_iff.mp hg
        split at hx
        · subst id
          exact h.received hl ho hq hord hs hcalls hgot
        · cases hx

end Runs

end Catapulte
