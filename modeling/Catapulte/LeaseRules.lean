import Catapulte.Discipline
import Catapulte.Pending

namespace Catapulte

open Async

variable {ι : Type} {calls : ι → QueueCall ι} {past : QueuePast ι} {s s' t : QueuePool ι} {act : QueueAct ι}
  {x : QueuePool ι × QueueAct ι} {w : World} {backend : StorageAdapter} {i : ι} {e : QueueEntry}

/-- The claim took the entry at a reading of the clock at which its lease was over, and
no other eligible entry was enqueued before it. -/
structure ClaimsOldest (past : QueuePast ι) (t : QueuePool ι) (claim : Claim ι) : Prop where
  entry : claim.entry ∈ t.world.queue
  read : ReadClock past claim.caller claim.now
  unleased : ∀ u, claim.entry.claimedUntil = some u → u < claim.now ∧ u < t.world.nowMs
  oldest : ∀ e ∈ t.world.queue, e.eligible claim.now = true → claim.entry.enqueuedAt ≤ e.enqueuedAt

def AckedOrOrphaned (calls : ι → QueueCall ι) (past : QueuePast ι) (t : QueuePool ι) (act : QueueAct ι) (e : QueueEntry) : Prop :=
  ∃ i op c, statementOf (t, act) = some (i, op, c) ∧
    ((∃ delivery, calls i = .ack delivery e.id ∧ op = .deleteEntry e.id) ∨
      calls i = .tryDequeue ∧ (t.world.findEmail e.emailId = none ∨ FoundMissing past i e.emailId))

/-- What holds in a state of a queue after this past. -/
structure LeaseRules [DecidableEq ι] (backend : StorageAdapter) (calls : ι → QueueCall ι) (past : QueuePast ι)
    (t : QueuePool ι) : Prop where
  claims : ∀ act claim, claimOf (t, act) = some claim → ClaimsOldest past t claim
  attempts : ∀ i item, returned t i = some item → ClaimedAs past i ⟨item.token, item.id, item.attempt⟩
  removes : ∀ act t', t.next queueMachine act = some t' → ∀ e ∈ t.world.queue, (∀ e' ∈ t'.world.queue, e'.id ≠ e.id) →
    AckedOrOrphaned calls past t act e
  delays : ∀ x ∈ past, ∀ i token claimedUntil, nackOf x = some (i, token, claimedUntil) → ∃ delivery delay n,
    calls i = .nack delivery token delay ∧ ReadClock past i n ∧ ∀ e ∈ t.world.queue, e.id = token →
      ∀ now ≤ i64Max, e.eligible now = true → n * 1000000 + delay.nanos < now * 1000000
  pending : ∀ n, Drains backend t.world n ↔ n = backend.pending t.world

theorem QueueInv.stage_of {op : Effect} {c : Choice} (h : QueueInv backend calls past t)
    (hst : statementOf (t, act) = some (i, op, c)) (r : op.Reply) :
    ∃ st st', QueueMoves backend (calls i) st op r st' ∧ StageAt calls past t i st := by
  obtain ⟨next, ht⟩ := statementOf_task hst
  obtain ⟨st, hf, hstage⟩ := h.stages i _ ht
  obtain ⟨st', hm, -⟩ := hf r
  exact ⟨st, st', hm, hstage⟩

theorem nackUntil_lt {n now : Int} {delay : Duration} (hn : 0 ≤ n) (hnow : now ≤ i64Max) (h : nackUntil n delay < now) :
    n * 1000000 + delay.nanos < now * 1000000 := by
  unfold nackUntil at h
  have hmillis : (delay.asMillis : Int) = delay.nanos / 1000000 := by
    rw [Duration.asMillis]
    rfl
  omega

theorem nowMs_nonneg (w : World) : 0 ≤ w.nowMs := Int.le_min.mpr ⟨Int.natCast_nonneg _, by decide⟩

theorem ReadClock.nonneg {n : Int} (h : ReadClock past i n) : 0 ≤ n := by
  obtain ⟨x, -, c, -, rfl⟩ := h
  exact nowMs_nonneg _

theorem QueueInv.claims (h : QueueInv backend calls past t) {claim : Claim ι} (hclaim : claimOf (t, act) = some claim) :
    ClaimsOldest past t claim := by
  obtain ⟨op, c, hst, hclaimed⟩ := claimOf_eq_some hclaim
  obtain ⟨⟨claimUntil, hop⟩, he, hfirst⟩ := claimed_cases hclaimed
  obtain ⟨hel, hall⟩ := Bool.and_eq_true_iff.mp hfirst
  have hread : ReadClock past claim.caller claim.now ∧ claim.now ≤ t.world.nowMs := by
    obtain ⟨r⟩ : Nonempty op.Reply := by rcases hop with rfl | rfl <;> exact ⟨.error (.storage "")⟩
    obtain ⟨st, st', hm, hstage⟩ := h.stage_of hst r
    obtain ⟨rfl, -⟩ := hm.claiming hop
    exact hstage
  refine ⟨he, hread.1, fun u hu => ?_, fun e' he' hel' => ?_⟩
  · rw [QueueEntry.eligible, hu] at hel
    have hlt : u < claim.now := of_decide_eq_true hel
    exact ⟨hlt, by omega⟩
  · simpa [hel'] using List.all_eq_true.mp hall e' he'

theorem QueueInv.attempts (h : QueueInv backend calls past t) {item : DequeuedEmail} (hitem : returned t i = some item) :
    ClaimedAs past i ⟨item.token, item.id, item.attempt⟩ := by
  unfold returned at hitem
  split at hitem
  · rename_i out ht
    subst hitem
    obtain ⟨st, hf, hstage⟩ := h.stages i _ ht
    cases hf
    exact hstage
  · cases hitem

theorem QueueInv.delays (h : QueueInv backend calls past t) {token : AckToken} {claimedUntil : Int} (hx : x ∈ past)
    (hn : nackOf x = some (i, token, claimedUntil)) : ∃ delivery delay n,
      calls i = .nack delivery token delay ∧ ReadClock past i n ∧ ∀ e ∈ t.world.queue, e.id = token →
        ∀ now ≤ i64Max, e.eligible now = true → n * 1000000 + delay.nanos < now * 1000000 := by
  obtain ⟨delivery, delay, n, hcall, hread, rfl⟩ := h.nacks x hx i token claimedUntil hn
  refine ⟨delivery, delay, n, hcall, hread, fun e he hid now hnow hel => nackUntil_lt hread.nonneg hnow ?_⟩
  subst hid
  exact h.recorded.lt_now he hel hx hn

theorem QueueInv.removed (h : QueueInv backend calls past t) {op : Effect} {c : Choice} {w' : World} {r : op.Reply}
    (hst : statementOf (t, act) = some (i, op, c)) (hp : perform t.world op c = some (w', r)) (he : e ∈ t.world.queue)
    (hgone : ∀ e' ∈ w'.queue, e'.id ≠ e.id) : AckedOrOrphaned calls past t act e := by
  obtain ⟨st, st', hm, hstage⟩ := h.stage_of hst r
  have hkept {ids : List Nat} (hids : w'.queue.map QueueEntry.id = ids) (hmem : e.id ∈ ids) :
      AckedOrOrphaned calls past t act e := by
    obtain ⟨e', he', hid⟩ := List.mem_map.mp (hids ▸ hmem)
    exact absurd hid (hgone e' he')
  have hmem : e.id ∈ t.world.queue.map QueueEntry.id := List.mem_map_of_mem he
  cases perform_change hp with
  | kept hq => exact absurd rfl (hgone e (hq ▸ he))
  | inserted => exact absurd rfl (hgone e (List.mem_append_left _ he))
  | claimed => exact hkept (claimEntry_ids _ _) hmem
  | leased => exact hkept (leaseEntry_ids _ _) hmem
  | @orphaned e₀ now claimUntil hclaim he₀ hfirst hrow =>
      have hid : e.id = e₀.id := by
        by_contra hne
        exact hgone e (mem_deleteEntry.mpr ⟨mem_claimEntry_of_ne he hne _, hne⟩) rfl
      rw [← h.recorded.fresh.unique he he₀ hid] at hrow
      generalize hcall : calls i = call at hm
      cases hm with
      | committed => exact ⟨i, _, c, hst, .inr ⟨hcall, .inl hrow⟩⟩
  | @deleted token hc =>
      have hid : e.id = token := by
        by_contra hne
        exact hgone e (mem_deleteEntry.mpr ⟨he, hne⟩) rfl
      generalize hcall : calls i = call at hm
      cases hm with
      | acked => exact ⟨i, _, c, hst, .inl ⟨_, hcall.trans (by rw [hid]), by rw [hid]⟩⟩
      | @orphanDeleted row =>
          obtain ⟨⟨pre, x, post, claim, rfl, hclaim, -, hrow⟩, hmissing⟩ := hstage
          have hemail := (h.recorded.email (List.mem_append_right _ List.mem_cons_self) hclaim).2 e he
          rw [hrow] at hid hmissing
          rw [← hemail hid] at hmissing
          exact ⟨i, _, c, hst, .inr ⟨hcall, .inr hmissing⟩⟩

section Rules

variable [DecidableEq ι]

theorem QueueInv.removes (h : QueueInv backend calls past t) (hs : Pool.Step queueMachine t act s') (he : e ∈ t.world.queue)
    (hgone : ∀ e' ∈ s'.world.queue, e'.id ≠ e.id) : AckedOrOrphaned calls past t act e := by
  cases hs with
  | @answer i op next c w r ht hp => exact h.removed (i := i) (by simp only [statementOf, ht]) hp he hgone
  | @lose i op next c w r ht hp => exact h.removed (i := i) (by simp only [statementOf, ht]) hp he hgone
  | drop => exact absurd rfl (hgone e he)
  | @drift d w hd => cases d <;> cases hd <;> exact absurd rfl (hgone e he)

theorem QueueInv.rules (h : QueueInv backend calls past t) : LeaseRules backend calls past t where
  claims _ _ := h.claims
  attempts _ _ := h.attempts
  removes _ _ hs _ := h.removes (Pool.next_iff.mp hs)
  delays _ hx _ _ _ := h.delays hx
  pending _ := drains_iff h.recorded.fresh

/-- Every run in which only the holder of a lease acks or nacks keeps to the rules. -/
theorem lease_rules {as : List (QueueAct ι)} (hw : w.queue = [])
    (hheld : (QueuePool.start backend w calls).Heeds queueMachine (LeaseHeld calls) [] as)
    (hr : (QueuePool.start backend w calls).run queueMachine as = some s) :
    LeaseRules backend calls ((QueuePool.start backend w calls).past queueMachine as) s :=
  (Pool.run_past (fun h hC hs => QueueInv.step h hC hs) (queueInv_start hw) hheld hr).rules

end Rules

def requeueWorld : World :=
  { World.empty with emails := [⟨⟨1⟩, ⟨none, none, none, "a@example.com", [], .mjml (.named "welcome"), .new, []⟩, 0⟩] }

/-- The call `1` dequeues the entry, `2` nacks it, `3` dequeues it again, and `4` acks it. -/
def requeueCalls : Nat → QueueCall Nat
  | 0 => .enqueue ⟨1⟩ ⟨none, none, none, "a@example.com", [], .mjml (.named "welcome"), .new, []⟩
  | 2 => .nack 1 1 ⟨1000000000⟩
  | 4 => .ack 3 1
  | _ => .tryDequeue

def requeueActions : List (QueueAct Nat) :=
  [.step 0 { uuid := 1 }, .step 1 {}, .step 1 { uuid := 1 }, .step 1 {}, .step 2 {}, .step 2 {}, .drift (.tick 1001000000),
    .step 3 {}, .step 3 { uuid := 1 }, .step 3 {}, .step 4 {}]

theorem lease_rules_requeued : ∃ s, (QueuePool.start .sqlite requeueWorld requeueCalls).run queueMachine requeueActions = some s ∧
    (returned s 1).map DequeuedEmail.attempt = some 1 ∧ (returned s 3).map DequeuedEmail.attempt = some 2 ∧ s.world.queue = [] ∧
    LeaseRules .sqlite requeueCalls ((QueuePool.start .sqlite requeueWorld requeueCalls).past queueMachine requeueActions) s := by
  have hrun : ∃ s, (QueuePool.start .sqlite requeueWorld requeueCalls).run queueMachine requeueActions = some s ∧
      (returned s 1).map DequeuedEmail.attempt = some 1 ∧ (returned s 3).map DequeuedEmail.attempt = some 2 ∧
      s.world.queue = [] := ⟨_, rfl, by decide, by decide, by decide⟩
  obtain ⟨s, hr, hone, htwo, hempty⟩ := hrun
  exact ⟨s, hr, hone, htwo, hempty, lease_rules rfl (by decide) hr⟩

end Catapulte
