import Catapulte.Claims
import Catapulte.Session.QueueCall

namespace Catapulte

open Async

variable {ι : Type} {calls : ι → QueueCall ι} {past : QueuePast ι} {s s' : QueuePool ι} {act : QueueAct ι}
  {x : QueuePool ι × QueueAct ι} {w w' : World} {op : Effect} {c : Choice} {i : ι} {token : AckToken} {now : Int}

/-- The call whose statement takes place, the statement, and the choice that settles it. -/
def statementOf (x : QueuePool ι × QueueAct ι) : Option (ι × Effect × Choice) :=
  match x.2 with
  | .step i c | .abandon i (some c) =>
      match x.1.task i with
      | some (.await op _) => some (i, op, c)
      | _ => none
  | _ => none

/-- A claim that took effect, with the entry as it was before and the clock reading. -/
structure Claim (ι : Type) where
  caller : ι
  entry : QueueEntry
  now : Int

def claimOf (x : QueuePool ι × QueueAct ι) : Option (Claim ι) :=
  (statementOf x).bind fun (caller, op, c) => (claimed x.1.world op c).map fun (entry, now) => ⟨caller, entry, now⟩

/-- The delivery whose ack or nack takes effect. -/
def settlementOf (calls : ι → QueueCall ι) (x : QueuePool ι × QueueAct ι) : Option ι :=
  (statementOf x).bind fun (i, op, c) =>
    if c.takesEffect = true ∧ op.settles.isSome = true then (calls i).settling.map Prod.fst else none

/-- A nack that takes effect: the call, the entry, and until when it is put off. -/
def nackOf (x : QueuePool ι × QueueAct ι) : Option (ι × AckToken × Int) :=
  (statementOf x).bind fun
    | (i, .leaseEntry token claimedUntil, c) => if c.takesEffect then some (i, token, claimedUntil) else none
    | _ => none

def claimCount (past : QueuePast ι) (token : AckToken) : Nat :=
  past.countP fun x => (claimOf x).any fun claim => decide (claim.entry.id = token)

def lastClaim (past : QueuePast ι) (token : AckToken) : Option (Claim ι) :=
  ((past.filterMap claimOf).filter fun claim => claim.entry.id = token).getLast?

def ReadClock (past : QueuePast ι) (i : ι) (now : Int) : Prop :=
  ∃ x ∈ past, ∃ c, statementOf x = some (i, .now, c) ∧ x.1.world.nowMs = now

def FoundMissing (past : QueuePast ι) (i : ι) (id : EmailId) : Prop :=
  ∃ x ∈ past, ∃ c, statementOf x = some (i, .selectEmail id, c) ∧ x.1.world.findEmail id = none

def returned (s : QueuePool ι) (i : ι) : Option DequeuedEmail :=
  match s.task i with
  | some (.done (.dequeued (.ok item))) => item
  | _ => none

/-- The delivery returned the entry, its claim is the last one of the entry, and no ack or
nack for it has taken effect. -/
structure HoldsLease (calls : ι → QueueCall ι) (past : QueuePast ι) (s : QueuePool ι) (delivery : ι) (token : AckToken) :
    Prop where
  delivered : (returned s delivery).map DequeuedEmail.token = some token
  last : (lastClaim past token).map Claim.caller = some delivery
  unsettled : ∀ x ∈ past, settlementOf calls x ≠ some delivery

instance [DecidableEq ι] (delivery : ι) : Decidable (HoldsLease calls past s delivery token) :=
  decidable_of_iff ((returned s delivery).map DequeuedEmail.token = some token ∧
      (lastClaim past token).map Claim.caller = some delivery ∧ ∀ x ∈ past, settlementOf calls x ≠ some delivery)
    ⟨fun h => ⟨h.1, h.2.1, h.2.2⟩, fun h => ⟨h.1, h.2, h.3⟩⟩

/-- An ack or a nack runs only for a delivery that holds the lease of the entry. -/
def LeaseHeld (calls : ι → QueueCall ι) (past : QueuePast ι) (s : QueuePool ι) (act : QueueAct ι) : Prop :=
  ∀ x ∈ (statementOf (s, act)).bind fun x => (calls x.1).settling, HoldsLease calls past s x.1 x.2

instance [DecidableEq ι] : Decidable (LeaseHeld calls past s act) := inferInstanceAs (Decidable (∀ x ∈ _, _))

theorem LeaseHeld.holds {delivery : ι} (h : LeaseHeld calls past x.1 x.2) (hst : statementOf x = some (i, op, c))
    (hs : (calls i).settling = some (delivery, token)) : HoldsLease calls past x.1 delivery token :=
  h (delivery, token) (by rw [hst, Option.bind_some, hs]; exact Option.mem_some_self _)

theorem claimOf_eq (h : statementOf x = some (i, op, c)) :
    claimOf x = (claimed x.1.world op c).map fun (entry, now) => ⟨i, entry, now⟩ := by
  rw [claimOf, h, Option.bind_some]

theorem settlementOf_eq (h : statementOf x = some (i, op, c)) : settlementOf calls x =
    if c.takesEffect = true ∧ op.settles.isSome = true then (calls i).settling.map Prod.fst else none := by
  rw [settlementOf, h, Option.bind_some]

theorem statementOf_task (h : statementOf x = some (i, op, c)) : ∃ next, x.1.task i = some (.await op next) := by
  obtain ⟨s, act⟩ := x
  have hmatch {j : ι} {ch : Choice} (h : (match s.task j with
      | some (.await op _) => some (j, op, ch)
      | _ => none) = some (i, op, c)) : ∃ next, s.task i = some (.await op next) := by
    split at h
    · rename_i op' next ht
      cases h
      exact ⟨next, ht⟩
    · cases h
  cases act with
  | step j ch => exact hmatch h
  | abandon j landed =>
      cases landed with
      | none => cases h
      | some ch => exact hmatch h
  | drift => cases h

theorem claimOf_eq_some {claim : Claim ι} (h : claimOf x = some claim) : ∃ op c, statementOf x = some (claim.caller, op, c) ∧
    claimed x.1.world op c = some (claim.entry, claim.now) := by
  obtain ⟨⟨j, op, c⟩, hst, hclaim⟩ := Option.bind_eq_some_iff.mp h
  obtain ⟨⟨e, now⟩, hclaimed, heq⟩ := Option.map_eq_some_iff.mp hclaim
  cases heq
  exact ⟨op, c, hst, hclaimed⟩

theorem nackOf_eq_some {claimedUntil : Int} (h : nackOf x = some (i, token, claimedUntil)) :
    ∃ c, statementOf x = some (i, .leaseEntry token claimedUntil, c) ∧ c.takesEffect = true := by
  obtain ⟨⟨j, op, c⟩, hst, hnack⟩ := Option.bind_eq_some_iff.mp h
  split at hnack
  · rename_i heq
    cases heq
    split at hnack
    · rename_i hc
      cases hnack
      exact ⟨c, hst, hc⟩
    · cases hnack
  · cases hnack

theorem claimOf_of_claimed {e : QueueEntry} (h : statementOf x = some (i, op, c))
    (hc : claimed x.1.world op c = some (e, now)) : claimOf x = some ⟨i, e, now⟩ := by
  rw [claimOf_eq h, hc, Option.map_some]

theorem claimOf_eq_none (h : statementOf x = some (i, op, c)) (hc : claimed x.1.world op c = none) : claimOf x = none := by
  rw [claimOf_eq h, hc, Option.map_none]

theorem nackOf_eq_none (h : statementOf x = some (i, op, c)) (hc : c.takesEffect = true → ∀ token u, op ≠ .leaseEntry token u) :
    nackOf x = none := by
  rw [nackOf, h, Option.bind_some]
  split
  · rename_i heq
    cases heq
    split
    · exact absurd rfl (hc ‹_› _ _)
    · rfl
  · rfl

theorem nackOf_lease {claimedUntil : Int} (h : statementOf x = some (i, .leaseEntry token claimedUntil, c))
    (hc : c.takesEffect = true) : nackOf x = some (i, token, claimedUntil) := by
  rw [nackOf, h, Option.bind_some]
  exact if_pos hc

theorem claimCount_concat : claimCount (past ++ [x]) token =
    claimCount past token + if (claimOf x).any (fun claim => decide (claim.entry.id = token)) then 1 else 0 := by
  rw [claimCount, List.countP_append, List.countP_singleton, claimCount]

theorem lastClaim_concat_of_none (h : claimOf x = none) : lastClaim (past ++ [x]) token = lastClaim past token := by
  rw [lastClaim, List.filterMap_append, List.filterMap_cons_none h, List.filterMap_nil, List.append_nil, lastClaim]

theorem lastClaim_concat {claim : Claim ι} (h : claimOf x = some claim) : lastClaim (past ++ [x]) token =
    if claim.entry.id = token then some claim else lastClaim past token := by
  rw [lastClaim, List.filterMap_append, List.filterMap_cons_some h, List.filterMap_nil, List.filter_append]
  by_cases hid : claim.entry.id = token
  · rw [if_pos hid, List.filter_cons_of_pos (by simpa using hid), List.filter_nil, List.getLast?_concat]
  · rw [if_neg hid, List.filter_cons_of_neg (by simpa using hid), List.filter_nil, List.append_nil, lastClaim]

theorem lastClaim_mem {claim : Claim ι} (h : lastClaim past token = some claim) :
    (∃ x ∈ past, claimOf x = some claim) ∧ claim.entry.id = token := by
  obtain ⟨hmem, hid⟩ := List.mem_filter.mp (List.mem_of_getLast? h)
  exact ⟨List.mem_filterMap.mp hmem, of_decide_eq_true hid⟩

/-- The entry is not claimed before this time is over, and neither are its deliveries
that are still unsettled. -/
structure PutOff (calls : ι → QueueCall ι) (past : QueuePast ι) (w : World) (token : AckToken) (claimedUntil : Int) : Prop where
  drawn : token ≤ w.lastUuid
  entry : ∀ e ∈ w.queue, e.id = token → ∃ u, e.claimedUntil = some u ∧ claimedUntil ≤ u
  claim : ∀ claim, lastClaim past token = some claim → (∀ x ∈ past, settlementOf calls x ≠ some claim.caller) →
    claimedUntil < claim.now

structure Recorded (calls : ι → QueueCall ι) (past : QueuePast ι) (w : World) : Prop where
  fresh : w.EntriesFresh
  counted : ∀ e ∈ w.queue, e.attemptCount = claimCount past e.id
  undrawn : ∀ {token}, w.lastUuid < token → claimCount past token = 0
  clock : ∀ {x claim}, x ∈ past → claimOf x = some claim → claim.now ≤ w.nowMs
  email : ∀ {x claim}, x ∈ past → claimOf x = some claim → claim.entry.id ≤ w.lastUuid ∧
    ∀ e ∈ w.queue, e.id = claim.entry.id → e.emailId = claim.entry.emailId
  putOff : ∀ {x i token claimedUntil}, x ∈ past → nackOf x = some (i, token, claimedUntil) →
    PutOff calls past w token claimedUntil

theorem recorded_start (hw : w.queue = []) : Recorded calls [] w where
  fresh := ⟨by rw [hw]; exact List.nodup_nil, by simp [hw]⟩
  counted := by simp [hw]
  undrawn _ := rfl
  clock h := absurd h List.not_mem_nil
  email h := absurd h List.not_mem_nil
  putOff h := absurd h List.not_mem_nil

theorem mem_past {β : Type} {f : QueuePool ι × QueueAct ι → Option β} {b : β} {y : QueuePool ι × QueueAct ι}
    (hx : f x = none) (hy : y ∈ past ++ [x]) (hf : f y = some b) : y ∈ past := by
  rcases List.mem_append.mp hy with hy | hy
  · exact hy
  · rw [List.mem_singleton.mp hy, hx] at hf
    cases hf

theorem Recorded.other (h : Recorded calls past w) (hf : w'.EntriesFresh) (hu : w.lastUuid ≤ w'.lastUuid)
    (hnow : w.now ≤ w'.now) (hq : ∀ e ∈ w'.queue, e ∈ w.queue ∨ w.lastUuid < e.id ∧ e.attemptCount = 0)
    (hclaim : claimOf x = none) (hnack : nackOf x = none) : Recorded calls (past ++ [x]) w' := by
  have hcount : ∀ token, claimCount (past ++ [x]) token = claimCount past token := by
    intro token
    rw [claimCount_concat, hclaim]
    rfl
  have hold {e : QueueEntry} {token : AckToken} (he : e ∈ w'.queue) (hid : e.id = token) (hle : token ≤ w.lastUuid) :
      e ∈ w.queue := by
    rcases hq e he with he | ⟨hlt, -⟩
    · exact he
    · exact absurd (hid ▸ hlt) (Nat.not_lt.mpr hle)
  constructor
  · exact hf
  · intro e he
    rw [hcount]
    rcases hq e he with he | ⟨hlt, hzero⟩
    · exact h.counted e he
    · rw [hzero, h.undrawn hlt]
  · intro token ht
    rw [hcount, h.undrawn (by omega)]
  · intro y claim hy hc
    exact Int.le_trans (h.clock (mem_past hclaim hy hc) hc) (nowMs_le hnow)
  · intro y claim hy hc
    obtain ⟨hle, hemail⟩ := h.email (mem_past hclaim hy hc) hc
    exact ⟨Nat.le_trans hle hu, fun e he hid => hemail e (hold he hid hle) hid⟩
  · intro y i token claimedUntil hy hn
    obtain ⟨hdrawn, hentry, hlast⟩ := h.putOff (mem_past hnack hy hn) hn
    refine ⟨Nat.le_trans hdrawn hu, fun e he hid => hentry e (hold he hid hdrawn) hid, fun claim hc hun => hlast claim ?_ ?_⟩
    · rwa [lastClaim_concat_of_none hclaim] at hc
    · exact fun z hz => hun z (List.mem_append_left _ hz)

theorem Recorded.lt_now (h : Recorded calls past w) {e : QueueEntry} (he : e ∈ w.queue) (hel : e.eligible now = true)
    {y : QueuePool ι × QueueAct ι} {claimedUntil : Int} (hy : y ∈ past) (hn : nackOf y = some (i, e.id, claimedUntil)) :
    claimedUntil < now := by
  obtain ⟨u, hu, hle⟩ := (h.putOff hy hn).entry e he rfl
  rw [QueueEntry.eligible, hu] at hel
  have hlt : u < now := of_decide_eq_true hel
  omega

theorem Recorded.claimed (h : Recorded calls past w) {e : QueueEntry} {claimUntil : Int} (hf : w'.EntriesFresh)
    (hu : w'.lastUuid = w.lastUuid) (hnow : w'.now = w.now) (he : e ∈ w.queue) (hel : e.eligible now = true)
    (hq : ∀ e' ∈ w'.queue, e' ∈ w.queue ∧ e'.id ≠ e.id ∨
      e' = { e with claimedUntil := some claimUntil, attemptCount := e.attemptCount + 1 })
    (hread : now ≤ w.nowMs) (huntil : now ≤ claimUntil) (hclaim : claimOf x = some ⟨i, e, now⟩) (hnack : nackOf x = none)
    : Recorded calls (past ++ [x]) w' := by
  have hms : w'.nowMs = w.nowMs := by rw [World.nowMs, hnow, World.nowMs]
  have hcount : ∀ token, claimCount (past ++ [x]) token = claimCount past token + if e.id = token then 1 else 0 := by
    intro token
    rw [claimCount_concat, hclaim]
    simp
  constructor
  · exact hf
  · intro e' he'
    rw [hcount]
    rcases hq e' he' with ⟨he', hne⟩ | rfl
    · rw [if_neg (Ne.symm hne), h.counted e' he', Nat.add_zero]
    · rw [if_pos rfl, ← h.counted e he]
  · intro token ht
    have hne : e.id ≠ token := by
      have hdrawn := h.fresh.drawn e he
      omega
    rw [hcount, if_neg hne, h.undrawn (by omega)]
  · intro y claim hy hc
    rw [hms]
    rcases List.mem_append.mp hy with hy | hy
    · exact h.clock hy hc
    · rw [List.mem_singleton.mp hy, hclaim] at hc
      cases hc
      exact hread
  · intro y claim hy hc
    have hclaimed : claim.entry.id ≤ w.lastUuid ∧ ∀ e ∈ w.queue, e.id = claim.entry.id → e.emailId = claim.entry.emailId := by
      rcases List.mem_append.mp hy with hy | hy
      · exact h.email hy hc
      · rw [List.mem_singleton.mp hy, hclaim] at hc
        cases hc
        exact ⟨h.fresh.drawn e he, fun e' he' hid => by rw [h.fresh.unique he' he hid]⟩
    refine ⟨hu ▸ hclaimed.1, fun e' he' hid => ?_⟩
    rcases hq e' he' with ⟨he', -⟩ | rfl
    · exact hclaimed.2 e' he' hid
    · exact hclaimed.2 e he hid
  · intro y j token claimedUntil hy hn
    have hy := mem_past hnack hy hn
    obtain ⟨hdrawn, hentry, hlast⟩ := h.putOff hy hn
    refine ⟨hu ▸ hdrawn, fun e' he' hid => ?_, fun claim hc hun => ?_⟩
    · rcases hq e' he' with ⟨he', -⟩ | rfl
      · exact hentry e' he' hid
      · cases hid
        have hlt := h.lt_now he hel hy hn
        exact ⟨claimUntil, rfl, by omega⟩
    · rw [lastClaim_concat hclaim] at hc
      split at hc
      · rename_i hid
        cases hc
        cases hid
        exact h.lt_now he hel hy hn
      · exact hlast claim hc fun z hz => hun z (List.mem_append_left _ hz)

theorem Recorded.nacked (h : Recorded calls past w) {claimedUntil : Int} {delivery : ι} (hf : w'.EntriesFresh)
    (hu : w'.lastUuid = w.lastUuid) (hnow : w'.now = w.now)
    (hq : ∀ e' ∈ w'.queue, e' ∈ w.queue ∧ e'.id ≠ token ∨
      ∃ e ∈ w.queue, e.id = token ∧ e' = { e with claimedUntil := some claimedUntil })
    (hclaim : claimOf x = none) (hnack : nackOf x = some (i, token, claimedUntil))
    (hsettle : settlementOf calls x = some delivery) (hlast : (lastClaim past token).map Claim.caller = some delivery)
    (hun : ∀ y ∈ past, settlementOf calls y ≠ some delivery)
    (hlater : ∀ {y claim}, y ∈ past → claimOf y = some claim → claim.caller = delivery → claim.now ≤ claimedUntil) :
    Recorded calls (past ++ [x]) w' := by
  have hms : w'.nowMs = w.nowMs := by rw [World.nowMs, hnow, World.nowMs]
  have hcount : ∀ token, claimCount (past ++ [x]) token = claimCount past token := by
    intro token
    rw [claimCount_concat, hclaim]
    rfl
  obtain ⟨claim₀, hclaim₀, hcaller⟩ := Option.map_eq_some_iff.mp hlast
  obtain ⟨⟨x₀, hx₀, hx₀claim⟩, hid₀⟩ := lastClaim_mem hclaim₀
  constructor
  · exact hf
  · intro e' he'
    rw [hcount]
    rcases hq e' he' with ⟨he', -⟩ | ⟨e, he, -, rfl⟩
    · exact h.counted e' he'
    · exact h.counted e he
  · intro token ht
    rw [hcount, h.undrawn (by omega)]
  · intro y claim hy hc
    rw [hms]
    exact h.clock (mem_past hclaim hy hc) hc
  · intro y claim hy hc
    obtain ⟨hle, hemail⟩ := h.email (mem_past hclaim hy hc) hc
    refine ⟨hu ▸ hle, fun e' he' hid => ?_⟩
    rcases hq e' he' with ⟨he', -⟩ | ⟨e, he, -, rfl⟩
    · exact hemail e' he' hid
    · exact hemail e he hid
  · intro y j token' until' hy hn
    -- The last claim of the entry is settled by now.
    have hsettled : ∀ claim, lastClaim past token = some claim →
        (∀ z ∈ past ++ [x], settlementOf calls z ≠ some claim.caller) → False := by
      intro claim hc hun'
      rw [hclaim₀, Option.some.injEq] at hc
      refine hun' x (List.mem_append_right _ List.mem_cons_self) ?_
      rw [hsettle, ← hc, hcaller]
    rcases List.mem_append.mp hy with hy | hy
    · obtain ⟨hdrawn, hentry, hlast'⟩ := h.putOff hy hn
      refine ⟨hu ▸ hdrawn, fun e' he' hid => ?_, fun claim hc hun' => ?_⟩
      · rcases hq e' he' with ⟨he', -⟩ | ⟨e, he, heid, rfl⟩
        · exact hentry e' he' hid
        · have htoken : token = token' := heid.symm.trans hid
          subst htoken
          have hlt := hlast' claim₀ hclaim₀ (by rwa [hcaller])
          exact ⟨claimedUntil, rfl, Int.le_trans (Int.le_of_lt hlt) (hlater hx₀ hx₀claim hcaller)⟩
      · rw [lastClaim_concat_of_none hclaim] at hc
        exact hlast' claim hc fun z hz => hun' z (List.mem_append_left _ hz)
    · rw [List.mem_singleton.mp hy, hnack] at hn
      cases hn
      refine ⟨?_, fun e' he' hid => ?_, fun claim hc hun' => ?_⟩
      · rw [hu, ← hid₀]
        exact (h.email hx₀ hx₀claim).1
      · rcases hq e' he' with ⟨-, hne⟩ | ⟨e, he, -, rfl⟩
        · exact absurd hid hne
        · exact ⟨_, rfl, Int.le_refl _⟩
      · rw [lastClaim_concat_of_none hclaim] at hc
        exact (hsettled claim hc hun').elim

theorem nowMs_le_i64Max (w : World) : w.nowMs ≤ i64Max := Int.min_le_right ..

theorem le_nackUntil (h : now ≤ i64Max) (delay : Duration) : now ≤ nackUntil now delay := by
  unfold nackUntil
  have hmax : (0 : Int) ≤ i64Max := by decide
  omega

/-- The call claimed the entry of the row, and the row counts the claims of the entry up to this one. -/
def ClaimedAs (past : QueuePast ι) (i : ι) (row : ClaimedEntry) : Prop :=
  ∃ pre x post claim, past = pre ++ x :: post ∧ claimOf x = some claim ∧ claim.caller = i ∧
    row = ⟨claim.entry.id, claim.entry.emailId, claimCount pre claim.entry.id + 1⟩

def StageAt (calls : ι → QueueCall ι) (past : QueuePast ι) (s : QueuePool ι) (i : ι) : QueueStage → Prop
  | .claiming now => ReadClock past i now ∧ now ≤ s.world.nowMs
  | .reading row => ClaimedAs past i row
  | .orphaned row => ClaimedAs past i row ∧ FoundMissing past i row.emailId
  | .leasing now => ReadClock past i now ∧ now ≤ s.world.nowMs ∧ ∀ delivery token,
      (calls i).settling = some (delivery, token) → (∃ result, s.task delivery = some (.done result)) ∧
        ∀ {x claim}, x ∈ past → claimOf x = some claim → claim.caller = delivery → claim.now ≤ now
  | .ended (.dequeued (.ok (some item))) => ClaimedAs past i ⟨item.token, item.id, item.attempt⟩
  | _ => True

theorem ReadClock.concat (h : ReadClock past i now) (x : QueuePool ι × QueueAct ι) : ReadClock (past ++ [x]) i now := by
  obtain ⟨y, hy, hread⟩ := h
  exact ⟨y, List.mem_append_left _ hy, hread⟩

theorem FoundMissing.concat {id : EmailId} (h : FoundMissing past i id) (x : QueuePool ι × QueueAct ι) :
    FoundMissing (past ++ [x]) i id := by
  obtain ⟨y, hy, hmissing⟩ := h
  exact ⟨y, List.mem_append_left _ hy, hmissing⟩

theorem ClaimedAs.concat {row : ClaimedEntry} (h : ClaimedAs past i row) (x : QueuePool ι × QueueAct ι) :
    ClaimedAs (past ++ [x]) i row := by
  obtain ⟨pre, y, post, claim, rfl, hclaim⟩ := h
  exact ⟨pre, y, post ++ [x], claim, by simp, hclaim⟩

theorem claimedAs_last {e : QueueEntry} (h : Recorded calls past x.1.world) (hst : statementOf x = some (i, op, c))
    (hclaimed : claimed x.1.world op c = some (e, now)) : ClaimedAs (past ++ [x]) i ⟨e.id, e.emailId, e.attemptCount + 1⟩ := by
  refine ⟨past, x, [], _, rfl, claimOf_of_claimed hst hclaimed, rfl, ?_⟩
  rw [h.counted e (claimed_cases hclaimed).2.1]

theorem findEmail_of_reply {id : EmailId} (h : perform w (.selectEmail id) c = some (w', .ok none)) : w.findEmail id = none := by
  simp only [perform] at h
  split at h
  · cases h
  · obtain ⟨-, hr⟩ := Prod.mk.inj (Option.some.inj h)
    exact Option.map_eq_none_iff.mp (Except.ok.inj hr)

theorem HoldsLease.done {delivery : ι} (h : HoldsLease calls past s delivery token) :
    ∃ result, s.task delivery = some (.done result) := by
  obtain ⟨item, hitem, -⟩ := Option.map_eq_some_iff.mp h.delivered
  unfold returned at hitem
  split at hitem
  · exact ⟨_, ‹_›⟩
  · cases hitem

theorem mem_claimEntry_cases {e e' : QueueEntry} {claimUntil : Int} (hw : w.EntriesFresh) (he : e ∈ w.queue)
    (h : e' ∈ (w.claimEntry e.id claimUntil).queue) : e' ∈ w.queue ∧ e'.id ≠ e.id ∨
      e' = { e with claimedUntil := some claimUntil, attemptCount := e.attemptCount + 1 } := by
  simp only [World.claimEntry_queue, List.mem_map] at h
  obtain ⟨e₀, he₀, rfl⟩ := h
  split
  · rename_i hid
    exact .inr (by rw [hw.unique he₀ he hid])
  · rename_i hid
    exact .inl ⟨he₀, hid⟩

theorem mem_leaseEntry_cases {e' : QueueEntry} {claimedUntil : Int} (h : e' ∈ (w.leaseEntry token claimedUntil).queue) :
    e' ∈ w.queue ∧ e'.id ≠ token ∨ ∃ e ∈ w.queue, e.id = token ∧ e' = { e with claimedUntil := some claimedUntil } := by
  simp only [World.leaseEntry_queue, List.mem_map] at h
  obtain ⟨e₀, he₀, rfl⟩ := h
  split
  · rename_i hid
    exact .inr ⟨e₀, he₀, hid, rfl⟩
  · rename_i hid
    exact .inl ⟨he₀, hid⟩

variable {backend : StorageAdapter} {st st' : QueueStage} {r : op.Reply}

theorem QueueMoves.claiming {call : QueueCall ι} {claimUntil : Int} (hm : QueueMoves backend call st op r st')
    (hop : op = .claimNext now claimUntil ∨ op = .claimTransaction now claimUntil) :
    st = .claiming now ∧ claimUntil = now + processingTimeoutMs := by
  rcases hop with rfl | rfl <;> cases hm <;> exact ⟨rfl, rfl⟩

theorem eligible_of_first {e : QueueEntry} (h : firstEligible now w.queue e = true) : e.eligible now = true :=
  (Bool.and_eq_true_iff.mp h).1

theorem Recorded.land (h : Recorded calls past x.1.world) (hst : statementOf x = some (i, op, c))
    (hp : perform x.1.world op c = some (w', r)) (hm : QueueMoves backend (calls i) st op r st')
    (hstage : StageAt calls past x.1 i st) (hheld : LeaseHeld calls past x.1 x.2) : Recorded calls (past ++ [x]) w' := by
  have hperf := performs hp
  have hf := hperf.entriesFresh h.fresh
  have hnow := hperf.now_eq
  have hclaiming {now claimUntil : Int} (hop : op = .claimNext now claimUntil ∨ op = .claimTransaction now claimUntil) :
      now ≤ x.1.world.nowMs ∧ now ≤ claimUntil := by
    obtain ⟨rfl, rfl⟩ := hm.claiming hop
    exact ⟨hstage.2, by unfold processingTimeoutMs; omega⟩
  have hnotLease {now claimUntil : Int} (hop : op = .claimNext now claimUntil ∨ op = .claimTransaction now claimUntil) :
      nackOf x = none := by
    refine nackOf_eq_none hst fun _ token u heq => ?_
    rcases hop with rfl | rfl <;> cases heq
  cases perform_change hp with
  | kept hq hu hclaim hsettle =>
      refine h.other hf hu (Nat.le_of_eq hnow.symm) (fun e he => .inl (hq ▸ he)) (claimOf_eq_none hst hclaim) ?_
      refine nackOf_eq_none hst fun hc token u hop => ?_
      have hnone := hsettle hc
      rw [hop] at hnone
      cases hnone
  | inserted hu =>
      refine h.other hf (Nat.le_of_lt hu) (Nat.le_refl _) (fun e he => ?_) (claimOf_eq_none hst rfl)
        (nackOf_eq_none hst fun _ _ _ heq => by cases heq)
      rcases List.mem_append.mp he with he | he
      · exact .inl he
      · rw [List.mem_singleton.mp he]
        exact .inr ⟨hu, rfl⟩
  | claimed hop hclaim he hfirst =>
      obtain ⟨hread, huntil⟩ := hclaiming hop
      exact h.claimed hf rfl hnow he (eligible_of_first hfirst) (fun e' => mem_claimEntry_cases h.fresh he) hread huntil
        (claimOf_of_claimed hst hclaim) (hnotLease hop)
  | orphaned hclaim he hfirst =>
      obtain ⟨hread, huntil⟩ := hclaiming (.inr rfl)
      exact h.claimed hf rfl hnow he (eligible_of_first hfirst)
        (fun e' he' => mem_claimEntry_cases h.fresh he (mem_deleteEntry.mp he').1) hread huntil
        (claimOf_of_claimed hst hclaim) (hnotLease (.inr rfl))
  | deleted hc =>
      exact h.other hf (Nat.le_refl _) (Nat.le_refl _) (fun e he => .inl (mem_deleteEntry.mp he).1) (claimOf_eq_none hst rfl)
        (nackOf_eq_none hst fun _ _ _ heq => by cases heq)
  | @leased token claimedUntil hc =>
      generalize hcall : calls i = call at hm
      cases hm with
      | @leased delivery _ delay now =>
          have hsettling : (calls i).settling = some (delivery, token) := by
            rw [hcall]
            rfl
          have hholds := hheld.holds hst hsettling
          have hle : now ≤ nackUntil now delay := le_nackUntil (Int.le_trans hstage.2.1 (nowMs_le_i64Max _)) delay
          refine h.nacked hf rfl hnow (fun e' => mem_leaseEntry_cases) (claimOf_eq_none hst rfl) (nackOf_lease hst hc) ?_
            hholds.last hholds.unsettled fun hy hclaim hcaller => Int.le_trans ((hstage.2.2 delivery token hsettling).2 hy hclaim hcaller) hle
          rw [settlementOf_eq hst, if_pos ⟨hc, rfl⟩, hsettling]
          rfl

section Steps

variable [DecidableEq ι]

theorem StageAt.frame {st : QueueStage} (h : StageAt calls past s i st) (hs : Pool.Step queueMachine s act s')
    (hnow : s.world.now ≤ s'.world.now) : StageAt calls (past ++ [(s, act)]) s' i st := by
  have hms := nowMs_le hnow
  cases st with
  | claiming now => exact ⟨h.1.concat _, Int.le_trans h.2 hms⟩
  | reading row => exact ClaimedAs.concat h _
  | orphaned row => exact ⟨h.1.concat _, h.2.concat _⟩
  | leasing now =>
      refine ⟨h.1.concat _, Int.le_trans h.2.1 hms, fun delivery token hsettling => ?_⟩
      obtain ⟨⟨result, hdone⟩, hclaims⟩ := h.2.2 delivery token hsettling
      refine ⟨⟨result, Pool.done_step hs hdone⟩, fun {x claim} hx hclaim hcaller => ?_⟩
      rcases List.mem_append.mp hx with hx | hx
      · exact hclaims hx hclaim hcaller
      · -- A call that has ended claims nothing.
        rw [List.mem_singleton.mp hx] at hclaim
        obtain ⟨op, c, hst, -⟩ := claimOf_eq_some hclaim
        obtain ⟨next, htask⟩ := statementOf_task hst
        rw [hcaller, hdone] at htask
        cases htask
  | begun => trivial
  | ended result =>
      rcases result with _ | (_ | _ | item) | _
      · trivial
      · trivial
      · trivial
      · exact ClaimedAs.concat h _
      · trivial

omit [DecidableEq ι] in
theorem ended_cases {out : Except EmailQueueError (Option DequeuedEmail)}
    (h : ∀ item, out = .ok (some item) → ClaimedAs past i ⟨item.token, item.id, item.attempt⟩) :
    StageAt calls past s i (.ended (.dequeued out)) := by
  rcases out with _ | _ | item
  · trivial
  · trivial
  · exact h item rfl

theorem StageAt.own {next : op.Reply → Prog QueueResult} (h : StageAt calls past s i st)
    (hrec : Recorded calls past s.world) (hm : QueueMoves backend (calls i) st op r st')
    (ht : s.task i = some (.await op next)) (hp : perform s.world op c = some (s'.world, r))
    (hs : Pool.Step queueMachine s (.step i c) s') (hheld : LeaseHeld calls past s (.step i c)) :
    StageAt calls (past ++ [(s, .step i c)]) s' i st' := by
  have hst : statementOf (s, (.step i c : QueueAct ι)) = some (i, op, c) := by simp only [statementOf, ht]
  have hmem : (s, (.step i c : QueueAct ι)) ∈ past ++ [(s, .step i c)] := List.mem_append_right _ List.mem_cons_self
  have hnow : s'.world.nowMs = s.world.nowMs := by rw [World.nowMs, (performs hp).now_eq, World.nowMs]
  generalize hcall : calls i = call at hm
  cases hm with
  | stored | acked | leased => trivial
  | clock =>
      obtain ⟨-, hread⟩ := Prod.mk.inj (Option.some.inj hp)
      exact ⟨⟨_, hmem, c, hst, hread⟩, Int.le_of_eq (hread.symm.trans hnow.symm)⟩
  | @claimed now r =>
      rcases r with e | _ | row
      · trivial
      · trivial
      · obtain ⟨e, hclaimed, hrow⟩ := claimed_of_reply hp
        have hclaim : ClaimedAs (past ++ [(s, .step i c)]) i row := hrow ▸ claimedAs_last hrec hst hclaimed
        simp only [QueueStage.afterClaim]
        split
        · exact hclaim
        · trivial
  | committed =>
      refine ended_cases fun item hitem => ?_
      subst hitem
      obtain ⟨e, hclaimed, htoken, hid, hattempt⟩ := claimed_of_item hp
      rw [htoken, hid, hattempt]
      exact claimedAs_last hrec hst hclaimed
  | @read row r =>
      rcases r with e | _ | envelope
      · trivial
      · exact ⟨ClaimedAs.concat h _, _, hmem, c, hst, findEmail_of_reply hp⟩
      · exact ClaimedAs.concat h _
  | @orphanDeleted row r => exact ended_cases fun item hitem => by cases r <;> cases hitem
  | @nackClock delivery token delay =>
      obtain ⟨-, hread⟩ := Prod.mk.inj (Option.some.inj hp)
      refine ⟨⟨_, hmem, c, hst, hread⟩, Int.le_of_eq (hread.symm.trans hnow.symm), fun delivery' token' hsettling => ?_⟩
      obtain ⟨result, hdone⟩ := (LeaseHeld.holds (x := (s, .step i c)) hheld hst hsettling).done
      refine ⟨⟨result, Pool.done_step hs hdone⟩, fun {y claim} hy hclaim _ => ?_⟩
      have hnone : claimOf (s, (.step i c : QueueAct ι)) = none := claimOf_eq_none hst rfl
      rw [← hread]
      exact hrec.clock (mem_past hnone hy hclaim) hclaim

def NackRead (calls : ι → QueueCall ι) (past : QueuePast ι) : Prop :=
  ∀ x ∈ past, ∀ i token claimedUntil, nackOf x = some (i, token, claimedUntil) → ∃ delivery delay now,
    calls i = .nack delivery token delay ∧ ReadClock past i now ∧ claimedUntil = nackUntil now delay

structure QueueInv (backend : StorageAdapter) (calls : ι → QueueCall ι) (past : QueuePast ι) (s : QueuePool ι) : Prop where
  recorded : Recorded calls past s.world
  nacks : NackRead calls past
  stages : ∀ i p, s.task i = some p → ∃ st, FollowsQueue backend (calls i) p st ∧ StageAt calls past s i st

omit [DecidableEq ι] in
theorem NackRead.concat (h : NackRead calls past)
    (hx : ∀ i token claimedUntil, nackOf x = some (i, token, claimedUntil) → ∃ delivery delay now,
      calls i = .nack delivery token delay ∧ ReadClock past i now ∧ claimedUntil = nackUntil now delay) :
    NackRead calls (past ++ [x]) := by
  intro y hy i token claimedUntil hn
  have hread : ∃ delivery delay now, calls i = .nack delivery token delay ∧ ReadClock past i now ∧
      claimedUntil = nackUntil now delay := by
    rcases List.mem_append.mp hy with hy | hy
    · exact h y hy i token claimedUntil hn
    · rw [List.mem_singleton.mp hy] at hn
      exact hx i token claimedUntil hn
  obtain ⟨delivery, delay, now, hcall, hnow, huntil⟩ := hread
  exact ⟨delivery, delay, now, hcall, hnow.concat x, huntil⟩

omit [DecidableEq ι] in
theorem NackRead.land (h : NackRead calls past) (hst : statementOf x = some (i, op, c))
    (hm : QueueMoves backend (calls i) st op r st') (hstage : StageAt calls past x.1 i st) :
    NackRead calls (past ++ [x]) := by
  refine h.concat fun j token claimedUntil hn => ?_
  obtain ⟨c', hst', -⟩ := nackOf_eq_some hn
  rw [hst] at hst'
  cases hst'
  generalize hcall : calls i = call at hm
  cases hm with
  | @leased delivery _ delay now => exact ⟨delivery, delay, now, rfl, hstage.1, rfl⟩

omit [DecidableEq ι] in
theorem queueInv_start {w : World} (hw : w.queue = []) : QueueInv backend calls [] (QueuePool.start backend w calls) where
  recorded := recorded_start hw
  nacks := fun x hx => absurd hx List.not_mem_nil
  stages := fun i p hp => ⟨.begun, by cases hp; exact call_follows (calls i), trivial⟩

theorem QueueInv.frame (h : QueueInv backend calls past s) (hs : Pool.Step queueMachine s act s')
    (hnow : s.world.now ≤ s'.world.now) {j : ι} {p : Prog QueueResult} (hj : s.task j = some p) :
    ∃ st, FollowsQueue backend (calls j) p st ∧ StageAt calls (past ++ [(s, act)]) s' j st := by
  obtain ⟨st, hf, hstage⟩ := h.stages j p hj
  exact ⟨st, hf, hstage.frame hs hnow⟩

theorem QueueInv.idle (h : QueueInv backend calls past s) (hs : Pool.Step queueMachine s act s')
    (hst : statementOf (s, act) = none) (hq : s'.world.queue = s.world.queue) (hu : s'.world.lastUuid = s.world.lastUuid)
    (hnow : s.world.now ≤ s'.world.now) (ht : ∀ j p, s'.task j = some p → s.task j = some p) :
    QueueInv backend calls (past ++ [(s, act)]) s' where
  recorded := by
    refine h.recorded.other ?_ (Nat.le_of_eq hu.symm) hnow (fun e he => .inl (hq ▸ he)) ?_ ?_
    · exact h.recorded.fresh.of_sublist (Nat.le_of_eq hu.symm) (by rw [hq])
    · rw [claimOf, hst, Option.bind_none]
    · rw [nackOf, hst, Option.bind_none]
  nacks := by
    refine h.nacks.concat fun i token claimedUntil hn => ?_
    rw [nackOf, hst, Option.bind_none] at hn
    cases hn
  stages j p hj := h.frame hs hnow (ht j p hj)

theorem QueueInv.step (h : QueueInv backend calls past s) (hheld : LeaseHeld calls past s act)
    (hs : Pool.Step queueMachine s act s') : QueueInv backend calls (past ++ [(s, act)]) s' := by
  cases hs with
  | @answer i op next c w r ht hp =>
      have hs : Pool.Step queueMachine s (.step i c) _ := .answer ht hp
      have hst : statementOf (s, (.step i c : QueueAct ι)) = some (i, op, c) := by simp only [statementOf, ht]
      obtain ⟨st, hf, hstage⟩ := h.stages i _ ht
      obtain ⟨st', hm, hf'⟩ := hf r
      refine ⟨h.recorded.land hst hp hm hstage hheld, h.nacks.land hst hm hstage, fun j p hj => ?_⟩
      by_cases hji : j = i
      · subst hji
        simp only [Function.update_self, Option.some.injEq] at hj
        subst hj
        exact ⟨st', hf', hstage.own h.recorded hm ht hp hs hheld⟩
      · exact h.frame hs (Nat.le_of_eq (performs hp).now_eq.symm) (by simpa [hji] using hj)
  | @drop i op next ht =>
      have hs : Pool.Step queueMachine s (.abandon i none) _ := .drop ht
      refine h.idle hs rfl rfl rfl (Nat.le_refl _) fun j p hj => ?_
      by_cases hji : j = i
      · subst hji
        simp at hj
      · simpa [hji] using hj
  | @lose i op next c w r ht hp =>
      have hs : Pool.Step queueMachine s (.abandon i (some c)) _ := .lose ht hp
      have hst : statementOf (s, (.abandon i (some c) : QueueAct ι)) = some (i, op, c) := by simp only [statementOf, ht]
      obtain ⟨st, hf, hstage⟩ := h.stages i _ ht
      obtain ⟨st', hm, -⟩ := hf r
      refine ⟨h.recorded.land hst hp hm hstage hheld, h.nacks.land hst hm hstage, fun j p hj => ?_⟩
      by_cases hji : j = i
      · subst hji
        simp at hj
      · exact h.frame hs (Nat.le_of_eq (performs hp).now_eq.symm) (by simpa [hji] using hj)
  | @drift e w hd =>
      have hs : Pool.Step queueMachine s (.drift e) _ := .drift hd
      cases e with
      | tick nanos =>
          cases hd
          exact h.idle hs rfl rfl rfl (Nat.le_add_right ..) fun j p hj => hj
      | emails rows =>
          cases hd
          exact h.idle hs rfl rfl rfl (Nat.le_refl _) fun j p hj => hj

end Steps

end Catapulte
