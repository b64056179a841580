import Catapulte.System

namespace Catapulte

open Async

variable {ι : Type} {a : Adapters} {jobs : ι → Job} {w w' : World}
  {calls : List (ι × Call Sys World)} {i j : ι} {op : Effect} {r : op.Reply} {heard : Bool}

/-- A delivery of an entry: its token, the attempt and the end of its lease. -/
structure Lease where
  token : AckToken
  attempt : Nat
  claimedUntil : Int
  deriving DecidableEq, Repr

def handed : Call Sys World → Option Lease
  | ⟨_, .claimNext _ claimUntil, .ok (some row), _⟩ => some ⟨row.entryId, row.attemptCount, claimUntil⟩
  | ⟨_, .claimTransaction _ claimUntil, .ok (some item), _⟩ =>
      some ⟨item.token, item.attempt, claimUntil⟩
  | _ => none

def acked : Call Sys World → Option AckToken
  | ⟨_, .deleteEntry token, .ok (), _⟩ => some token
  | _ => none

def executes : Call Sys World → Bool
  | ⟨_, .process _, _, _⟩ => true
  | _ => false

abbrev Handed (l : Lease) (c : Call Sys World) : Prop := handed c = some l

abbrev Acked (token : AckToken) (c : Call Sys World) : Prop := acked c = some token

abbrev Executes (c : Call Sys World) : Prop := executes c = true

def AckFails (token : AckToken) : Call Sys World → Prop
  | ⟨_, .deleteEntry token', .error _, _⟩ => token' = token
  | _ => False

/-- The token of a statement of ack or nack. -/
def Effect.settles : Effect → Option AckToken
  | .deleteEntry token | .leaseEntry token _ => some token
  | _ => none

abbrev Settles (c : Call Sys World) : Prop := c.op.settles.isSome = true

theorem handed_performs {l : Lease} (hp : Performs w op w' r) (hh : Handed l ⟨w, op, r, heard⟩) :
    ∃ now e, (op = .claimNext now l.claimedUntil ∨ op = .claimTransaction now l.claimedUntil) ∧
      e ∈ w.queue ∧ firstEligible now w.queue e = true ∧ l.token = e.id ∧
      l.attempt = e.attemptCount + 1 ∧ w'.queue = (w.claimEntry e.id l.claimedUntil).queue := by
  cases hp with
  | claimNone hn hs => cases hs <;> cases hh
  | claimNext he hf hs =>
      cases hs with
      | ok => cases hh; exact ⟨_, _, .inl rfl, he, hf, rfl, rfl, rfl⟩
      | failed => cases hh
      | landed => cases hh
  | transactionNone hn hs => cases hs <;> cases hh
  | @claimTransaction now claimUntil e w' r he hf hs =>
      unfold World.claimInTransaction at hs
      cases hrow : w.findEmail e.emailId with
      | none =>
          simp only [hrow] at hs
          cases hs <;> cases hh
      | some row =>
          simp only [hrow] at hs
          cases hs with
          | ok => cases hh; exact ⟨_, _, .inr rfl, he, hf, rfl, rfl, rfl⟩
          | failed => cases hh
          | landed => cases hh
  | _ => cases hh

theorem acked_performs {token : AckToken} (hp : Performs w op w' r)
    (ha : Acked token ⟨w, op, r, heard⟩) : op = .deleteEntry token ∧ w' = w.deleteEntry token := by
  cases hp with
  | deleteEntry hs =>
      cases hs with
      | ok => cases ha; exact ⟨rfl, rfl⟩
      | failed => cases ha
      | landed => cases ha
  | _ => cases ha

theorem handed_moves {job : Job} {st st' : Stage} {l : Lease} (hm : JobMoves a job st op r st')
    (hh : Handed l ⟨w, op, r, heard⟩) : job = .turn ∧ ∃ now, st = .turn (.claiming now) ∧
      l.claimedUntil = now + processingTimeoutMs ∧
      (op = .claimNext now l.claimedUntil ∨ op = .claimTransaction now l.claimedUntil) ∧
      ((∃ row, st' = .turn (.afterClaim (some row)) ∧ row.entryId = l.token ∧
          row.attemptCount = l.attempt) ∨
        ∃ item, st' = .turn (.sending item) ∧ item.token = l.token ∧ item.attempt = l.attempt) := by
  cases hm with
  | submit hm => cases hm <;> cases hh
  | turn hm =>
      cases hm with
      | @claimed now r hq =>
          cases r with
          | none => cases hh
          | some row => cases hh; exact ⟨rfl, now, rfl, rfl, .inl rfl, .inl ⟨row, rfl, rfl, rfl⟩⟩
      | @committed now r hq =>
          cases r with
          | none => cases hh
          | some item => cases hh; exact ⟨rfl, now, rfl, rfl, .inr rfl, .inr ⟨item, rfl, rfl, rfl⟩⟩
      | _ => cases hh
  | sweep hm => cases hm <;> cases hh

def Delivers (i : ι) (token : AckToken) (attempt : Nat) (calls : List (ι × Call Sys World)) : Prop :=
  ∃ claimedUntil, Did (Handed ⟨token, attempt, claimedUntil⟩) i calls

def Unsettled (i : ι) (calls : List (ι × Call Sys World)) : Prop := ¬ Did Settles i calls

instance [DecidableEq ι] : Decidable (Unsettled i calls) := inferInstanceAs (Decidable (¬ _))

def DeliveryAt (i : ι) : TurnStage → World → List (ι × Call Sys World) → Prop
  | .polling, _, calls => ¬ Did (fun _ => True) i calls
  | .claiming now, w, calls => now ≤ w.nowMs ∧ (∀ l, ¬ Did (Handed l) i calls) ∧
      ¬ Did Executes i calls ∧ Unsettled i calls
  | .reading row, _, calls | .orphaned row, _, calls =>
      Delivers i row.entryId row.attemptCount calls ∧ ¬ Did Executes i calls ∧ Unsettled i calls
  | .sending item, _, calls | .sendingDrawn item _, _, calls | .executing item, _, calls =>
      Delivers i item.token item.attempt calls ∧ ¬ Did Executes i calls ∧ Unsettled i calls
  | .acking item _, _, calls =>
      Delivers i item.token item.attempt calls ∧ Did Executes i calls ∧ Unsettled i calls
  | .nacking item _, _, calls | .leasing item _ _, _, calls =>
      Delivers i item.token item.attempt calls ∧ Did Executes i calls ∧ Unsettled i calls ∧
        item.attempt < maxAttempts
  | .clearing item _, _, calls | .cleaning item _ _, _, calls =>
      Delivers i item.token item.attempt calls ∧ Did (Acked item.token) i calls
  | .closing item outcome, _, calls | .closingDrawn item outcome _, _, calls =>
      Delivers i item.token item.attempt calls ∧ (Did (Acked item.token) i calls ∨
        (∃ e, outcome = .retrying e) ∧ item.attempt < maxAttempts)
  | .ended, _, calls => ∀ l, Did (Handed l) i calls → Did Executes i calls →
      Did (Acked l.token) i calls ∨ Did (AckFails l.token) i calls ∨ l.attempt < maxAttempts

structure Deliveries (w : World) (calls : List (ι × Call Sys World)) : Prop where
  fresh : w.EntriesFresh
  bound : ∀ {i l}, Did (Handed l) i calls → l.token ≤ w.lastUuid ∧ 1 ≤ l.attempt ∧
    ∀ e ∈ w.queue, e.id = l.token → l.attempt ≤ e.attemptCount
  distinct : ∀ {i j l l'}, Did (Handed l) i calls → Did (Handed l') j calls → l.token = l'.token →
    l.attempt = l'.attempt → i = j
  single : ∀ {i l l'}, Did (Handed l) i calls → Did (Handed l') i calls → l = l'
  gone : ∀ {token}, Seen (Acked token) calls → token ≤ w.lastUuid ∧ ∀ e ∈ w.queue, e.id ≠ token
  once : ((calls.filter fun x => executes x.2).map Prod.fst).Nodup

def DeliveryTask (i : ι) : Stage → World → List (ι × Call Sys World) → Prop
  | .turn st, w, calls => DeliveryAt i st w calls
  | _, _, calls => ∀ l, ¬ Did (Handed l) i calls

def deliveries (a : Adapters) (jobs : ι → Job) : Outlines ι :=
  outline a jobs Deliveries DeliveryTask

theorem DeliveryAt.frame {st : TurnStage} {c : Call Sys World} (h : DeliveryAt i st w calls)
    (hij : i ≠ j) (hnow : w.nowMs ≤ w'.nowMs) : DeliveryAt i st w' (calls ++ [(j, c)]) := by
  cases st <;> simp only [DeliveryAt, Delivers, Unsettled, did_snoc_of_ne hij] at h ⊢ <;>
    first
    | exact h
    | exact ⟨Int.le_trans h.1 hnow, h.2⟩

theorem Delivers.append {token : AckToken} {attempt : Nat} (h : Delivers i token attempt calls)
    (calls' : List (ι × Call Sys World)) : Delivers i token attempt (calls ++ calls') :=
  h.imp fun _ h => h.append calls'

theorem Unsettled.snoc {c : Call Sys World} (h : Unsettled i calls) (hc : ¬ Settles c) :
    Unsettled i (calls ++ [(i, c)]) := not_did_snoc h hc

theorem deliveryAt_ended_of_idle (h : ¬ Did Executes i calls) : DeliveryAt i .ended w calls :=
  fun _ _ he => absurd he h

theorem Delivers.eq_of_handed {token : AckToken} {attempt : Nat} {l : Lease} {c : Call Sys World}
    (hdel : Delivers i token attempt calls) (hd : Deliveries w calls) (hl : Did (Handed l) i (calls ++ [(i, c)]))
    (hc : ¬ Handed l c) : l.token = token ∧ l.attempt = attempt := by
  obtain ⟨u, hu⟩ := hdel
  obtain rfl := hd.single ((did_snoc_self.mp hl).resolve_right hc) hu
  exact ⟨rfl, rfl⟩

theorem DeliveryAt.claimed {now : Int} {r : Option ClaimedEntry} (h : DeliveryAt i (.claiming now) w calls) :
    DeliveryAt i (.afterClaim r) w'
      (calls ++ [(i, ⟨w, .claimNext now (now + processingTimeoutMs), .ok r, true⟩)]) := by
  obtain ⟨-, -, hex, hun⟩ := h
  have hex' := not_did_snoc hex
    (c := (⟨w, Effect.claimNext now (now + processingTimeoutMs), .ok r, true⟩ : Call Sys World))
    (fun h => by cases h)
  cases r with
  | none => exact deliveryAt_ended_of_idle hex'
  | some row =>
      simp only [TurnStage.afterClaim]
      split
      · exact ⟨⟨_, did_snoc_self.mpr (.inr rfl)⟩, hex', hun.snoc (fun h => by cases h)⟩
      · exact deliveryAt_ended_of_idle hex'

theorem DeliveryAt.committed {now : Int} {r : Option DequeuedEmail} (h : DeliveryAt i (.claiming now) w calls) :
    DeliveryAt i (.afterPoll r) w'
      (calls ++ [(i, ⟨w, .claimTransaction now (now + processingTimeoutMs), .ok r, true⟩)]) := by
  obtain ⟨-, -, hex, hun⟩ := h
  have hex' := not_did_snoc hex
    (c := (⟨w, Effect.claimTransaction now (now + processingTimeoutMs), .ok r, true⟩ : Call Sys World))
    (fun h => by cases h)
  cases r with
  | none => exact deliveryAt_ended_of_idle hex'
  | some item => exact ⟨⟨_, did_snoc_self.mpr (.inr rfl)⟩, hex', hun.snoc (fun h => by cases h)⟩

theorem DeliveryAt.processed {item : DequeuedEmail} {r : Except ProcessQueuedEmailError SenderName}
    (h : DeliveryAt i (.executing item) w calls) :
    DeliveryAt i (.afterProcess item r) w' (calls ++ [(i, ⟨w, .process item.envelope, r, true⟩)]) := by
  obtain ⟨hdel, hex, hun⟩ := h
  have hacking : ∀ outcome, DeliveryAt i (.acking item outcome) w'
      (calls ++ [(i, ⟨w, .process item.envelope, r, true⟩)]) :=
    fun _ => ⟨hdel.append _, did_snoc_self.mpr (.inr rfl), hun.snoc (fun h => by cases h)⟩
  cases r with
  | ok senderName => exact hacking _
  | error e =>
      simp only [TurnStage.afterProcess]
      split
      · exact hacking _
      · rename_i hterm
        have hlt : item.attempt < maxAttempts := by
          simp only [isTerminal, Bool.or_eq_true, decide_eq_true_eq, not_or] at hterm
          omega
        exact ⟨hdel.append _, did_snoc_self.mpr (.inr rfl), hun.snoc (fun h => by cases h), hlt⟩

theorem DeliveryAt.step {st st' : TurnStage} (hq : a.queue ≠ .memory) (hd : Deliveries w calls)
    (h : DeliveryAt i st w calls) (hp : Performs w op w' r) (hm : TurnMoves a st op r st') :
    DeliveryAt i st' w' (calls ++ [(i, ⟨w, op, r, true⟩)]) := by
  cases hm with
  | clock =>
      cases hp
      have hnone : ∀ {P : Call Sys World → Prop}, ¬ Did P i calls := fun hd => h (hd.mono fun _ _ => trivial)
      exact ⟨Int.le_refl _, fun l => not_did_snoc hnone (fun h => by cases h),
        not_did_snoc hnone (fun h => by cases h),
        not_did_snoc hnone (fun h => by cases h)⟩
  | received hmem | recvFailed hmem | removed hmem | removeFailed hmem | requeued hmem
  | requeueFailed hmem => exact absurd hmem hq
  | claimed => exact h.claimed
  | committed => exact h.committed
  | claimFailed | commitFailed => exact deliveryAt_ended_of_idle (not_did_snoc h.2.2.1 (fun h => by cases h))
  | @read row r =>
      obtain ⟨hdel, hex, hun⟩ := h
      cases r with
      | none => exact ⟨hdel.append _, not_did_snoc hex (fun h => by cases h), hun.snoc (fun h => by cases h)⟩
      | some envelope =>
          exact ⟨hdel.append _, not_did_snoc hex (fun h => by cases h), hun.snoc (fun h => by cases h)⟩
  | readFailed => exact deliveryAt_ended_of_idle (not_did_snoc h.2.1 (fun h => by cases h))
  | orphanDeleted => exact deliveryAt_ended_of_idle (not_did_snoc h.2.1 (fun h => by cases h))
  | sendingDrawn | sendingPublished =>
      obtain ⟨hdel, hex, hun⟩ := h
      exact ⟨hdel.append _, not_did_snoc hex (fun h => by cases h), hun.snoc (fun h => by cases h)⟩
  | processed => exact h.processed
  | @acked item outcome =>
      have hack : Did (Acked item.token) i (calls ++ [(i, ⟨w, .deleteEntry item.token, .ok (), true⟩)]) :=
        did_snoc_self.mpr (.inr rfl)
      cases outcome with
      | sent senderName => exact ⟨h.1.append _, hack⟩
      | failed e => exact ⟨h.1.append _, .inl hack⟩
      | retrying e => exact ⟨h.1.append _, .inl hack⟩
  | ackFailed =>
      intro l hl _
      obtain ⟨htok, -⟩ := h.1.eq_of_handed hd hl (fun h => by cases h)
      exact .inr (.inl (did_snoc_self.mpr (.inr (by rw [htok]; rfl))))
  | nackClock =>
      obtain ⟨hdel, hex, hun, hlt⟩ := h
      exact ⟨hdel.append _, hex.append _, hun.snoc (fun h => by cases h), hlt⟩
  | leased =>
      obtain ⟨hdel, -, -, hlt⟩ := h
      exact ⟨hdel.append _, .inr ⟨⟨_, rfl⟩, hlt⟩⟩
  | leaseFailed =>
      intro l hl _
      obtain ⟨-, hat⟩ := h.1.eq_of_handed hd hl (fun h => by cases h)
      exact .inr (.inr (hat ▸ h.2.2.2))
  | cleared | cleaned => exact ⟨h.1.append _, h.2.append _⟩
  | sentDrawn => exact ⟨h.1.append _, .inl (h.2.append _)⟩
  | closingDrawn => exact ⟨h.1.append _, h.2.imp_left fun h => h.append _⟩
  | @closed item outcome uuid r =>
      intro l hl _
      obtain ⟨htok, hat⟩ := h.1.eq_of_handed hd hl (fun h => by cases h)
      rcases h.2 with hack | ⟨-, hlt⟩
      · exact .inl (htok ▸ hack.append _)
      · exact .inr (.inr (hat ▸ hlt))

theorem settles_moves {job : Job} {st st' : Stage} {token : AckToken}
    (hm : JobMoves a job st op r st') (ht : DeliveryTask i st w calls) (hs : op.settles = some token) :
    job = .turn ∧ ∃ attempt, Delivers i token attempt calls ∧ Unsettled i calls := by
  cases hm with
  | submit hm => cases hm <;> cases hs
  | turn hm =>
      cases hm with
      | orphanDeleted => cases hs; exact ⟨rfl, _, ht.1, ht.2.2⟩
      | acked | ackFailed => cases hs; exact ⟨rfl, _, ht.1, ht.2.2⟩
      | leased | leaseFailed => cases hs; exact ⟨rfl, _, ht.1, ht.2.2.1⟩
      | _ => cases hs
  | sweep hm => cases hm <;> cases hs

theorem claim_moves {job : Job} {st st' : Stage} {now claimUntil : Int}
    (hm : JobMoves a job st op r st') (ht : DeliveryTask i st w calls)
    (hop : op = .claimNext now claimUntil ∨ op = .claimTransaction now claimUntil) : now ≤ w.nowMs := by
  cases hm with
  | submit hm => rcases hop with rfl | rfl <;> cases hm
  | turn hm => rcases hop with rfl | rfl <;> cases hm <;> exact ht.1
  | sweep hm => rcases hop with rfl | rfl <;> cases hm

theorem executes_moves {job : Job} {st st' : Stage} (hm : JobMoves a job st op r st')
    (hx : Executes ⟨w, op, r, heard⟩) : ∃ item, st = .turn (.executing item) := by
  cases hm with
  | submit hm => cases hm <;> cases hx
  | turn hm =>
      cases hm with
      | processed => exact ⟨_, rfl⟩
      | _ => cases hx
  | sweep hm => cases hm <;> cases hx

theorem Deliveries.bound_step (hd : Deliveries w calls) (hp : Performs w op w' r) {l : Lease}
    (hl : Did (Handed l) i calls) : l.token ≤ w'.lastUuid ∧ 1 ≤ l.attempt ∧
      ∀ e ∈ w'.queue, e.id = l.token → l.attempt ≤ e.attemptCount := by
  obtain ⟨htok, hone, hle⟩ := hd.bound hl
  refine ⟨Nat.le_trans htok hp.lastUuid_le, hone, fun e' he' hid => ?_⟩
  rcases hp.entry_of he' with ⟨e, he, hid', -, hat⟩ | ⟨hlt, -⟩
  · exact Nat.le_trans (hle e he (hid'.trans hid)) hat
  · rw [hid] at hlt
    exact absurd htok (Nat.not_le_of_lt hlt)

theorem Deliveries.bound_handed (hd : Deliveries w calls) (hp : Performs w op w' r) {l : Lease}
    (hh : Handed l ⟨w, op, r, heard⟩) : l.token ≤ w'.lastUuid ∧ 1 ≤ l.attempt ∧
      ∀ e ∈ w'.queue, e.id = l.token → l.attempt ≤ e.attemptCount := by
  obtain ⟨now, e, -, he, -, htok, hat, hq⟩ := handed_performs hp hh
  refine ⟨?_, by omega, fun e' he' hid => ?_⟩
  · rw [htok]
    exact Nat.le_trans (hd.fresh.drawn e he) hp.lastUuid_le
  · rw [hq] at he'
    obtain ⟨e₀, he₀, hid₀, -, -, -, hclaim⟩ := mem_claimEntry he'
    have heq : e₀.id = e.id := by rw [hid₀, hid, htok]
    obtain rfl := hd.fresh.unique he₀ he heq
    obtain ⟨-, hat'⟩ := hclaim rfl
    omega

theorem Deliveries.snoc (hd : Deliveries w calls) {job : Job} {st st' : Stage}
    (hp : Performs w op w' r) (hm : JobMoves a job st op r st') (ht : DeliveryTask i st w calls) :
    Deliveries w' (calls ++ [(i, ⟨w, op, r, heard⟩)]) := by
  have hnew : ∀ {l j l'}, Handed l ⟨w, op, r, heard⟩ → Did (Handed l') j calls → l.token = l'.token →
      l'.attempt < l.attempt := by
    intro l j l' hh hl' htok
    obtain ⟨now, e, -, he, -, hid, hat, -⟩ := handed_performs hp hh
    have hle := (hd.bound hl').2.2 e he (hid.symm.trans htok)
    omega
  have hidle : ∀ {l}, Handed l ⟨w, op, r, heard⟩ → ∀ l', ¬ Did (Handed l') i calls := by
    intro l hh
    obtain ⟨-, now, rfl, -⟩ := handed_moves hm hh
    exact ht.2.1
  constructor
  · exact hp.entriesFresh hd.fresh
  · intro j l hl
    rcases did_snoc.mp hl with hl | ⟨rfl, hh⟩
    · exact hd.bound_step hp hl
    · exact hd.bound_handed hp hh
  · intro j k l l' hl hl' htok hat
    rcases did_snoc.mp hl with h | ⟨hj, hh⟩ <;> rcases did_snoc.mp hl' with h' | ⟨hk, hh'⟩
    · exact hd.distinct h h' htok hat
    · have hlt := hnew hh' h htok.symm
      omega
    · have hlt := hnew hh h' htok
      omega
    · exact hj.trans hk.symm
  · intro j l l' hl hl'
    rcases did_snoc.mp hl with h | ⟨hj, hh⟩ <;> rcases did_snoc.mp hl' with h' | ⟨hk, hh'⟩
    · exact hd.single h h'
    · exact absurd (hk ▸ h) (hidle hh' l)
    · exact absurd (hj ▸ h') (hidle hh l')
    · exact Option.some.inj (hh.symm.trans hh')
  · intro token hs
    rcases seen_snoc.mp hs with hs | hc
    · obtain ⟨hle, hgone⟩ := hd.gone hs
      refine ⟨Nat.le_trans hle hp.lastUuid_le, fun e' he' hid => ?_⟩
      rcases hp.entry_of he' with ⟨e, he, hid', -⟩ | ⟨hlt, -⟩
      · exact hgone e he (hid'.trans hid)
      · rw [hid] at hlt
        exact absurd hle (Nat.not_le_of_lt hlt)
    · obtain ⟨rfl, rfl⟩ := acked_performs hp hc
      obtain ⟨-, attempt, ⟨u, hu⟩, -⟩ := settles_moves hm ht rfl
      exact ⟨(hd.bound hu).1, fun e he => (mem_deleteEntry.mp he).2⟩
  · rw [List.filter_append, List.map_append]
    by_cases hx : Executes ⟨w, op, r, heard⟩
    · obtain ⟨item, rfl⟩ := executes_moves hm hx
      have hnone : ¬ Did Executes i calls := ht.2.1
      rw [List.filter_singleton, show executes _ = true from hx, cond_true]
      refine List.nodup_append.mpr ⟨hd.once, List.nodup_singleton _, ?_⟩
      rintro j hj k hk rfl
      obtain ⟨⟨j, c⟩, hmem, rfl⟩ := List.mem_map.mp hj
      rw [List.mem_filter] at hmem
      obtain rfl := List.mem_singleton.mp hk
      exact hnone ⟨c, hmem.1, hmem.2⟩
    · rw [List.filter_singleton, show executes _ = false from Bool.eq_false_iff.mpr hx, cond_false]
      simpa using hd.once

theorem deliveries_start (hw : w.EntriesFresh) : (deliveries a jobs).Holds (System.start a w jobs) := by
  refine outline_start ⟨hw, fun h => absurd h did_nil, fun h => absurd h did_nil,
    fun h => absurd h did_nil, fun h => absurd h seen_nil, List.nodup_nil⟩ fun i => ?_
  cases jobs i with
  | submit | sweep => exact fun l => did_nil
  | turn => exact did_nil

theorem deliveries_keeps (hq : a.queue ≠ .memory) {s : System ι} {act : Act ι}
    (h : (deliveries a jobs).Holds s) : (deliveries a jobs).Keeps machine s act where
  shared hl hm ht := h.1.snoc (lands_performs hl) hm ht
  own := by
    intro i op w r st st' hl hm ht
    have hmoves : JobMoves a (jobs i) st op r st' := hm
    clear hm
    generalize jobs i = job at hmoves
    cases hmoves with
    | turn hturn => exact DeliveryAt.step hq h.1 ht (lands_performs hl) hturn
    | submit hsubmit => exact fun l => not_did_snoc (ht l) fun hh => by cases hsubmit <;> cases hh
    | sweep hsweep => exact fun l => not_did_snoc (ht l) fun hh => by cases hsweep <;> cases hh
  other := by
    intro i op w r heard st st' hl _ _ j stj p hji _ _ htj
    cases stj with
    | turn stj => exact DeliveryAt.frame htj hji (nowMs_le (Nat.le_of_eq (lands_performs hl).now_eq.symm))
    | submit | sweep => exact fun l => by rw [did_snoc_of_ne hji]; exact htj l
  drift := by
    intro e w hdrift
    have hdr := drifts hdrift
    refine ⟨⟨?_, ?_, h.1.distinct, h.1.single, ?_, h.1.once⟩, fun {j stj} hj => ?_⟩
    · exact ⟨by rw [hdr.queue]; exact h.1.fresh.nodup, by rw [hdr.queue, hdr.lastUuid]; exact h.1.fresh.drawn⟩
    · rw [hdr.queue, hdr.lastUuid]
      exact h.1.bound
    · rw [hdr.queue, hdr.lastUuid]
      exact h.1.gone
    · cases stj with
      | turn stj =>
          have hnow := nowMs_le hdr.now_le
          cases stj with
          | claiming now => exact ⟨Int.le_trans hj.1 hnow, hj.2⟩
          | _ => exact hj
      | submit | sweep => exact hj

end Catapulte
