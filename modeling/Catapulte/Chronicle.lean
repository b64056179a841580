import Catapulte.Custody

namespace Catapulte

open Async

variable {ι : Type} {a : Adapters} {jobs : ι → Job} {w w' : World} {s s' : System ι}
  {calls : List (ι × Call Sys World)} {i j : ι} {id : EmailId} {op : Effect} {r : op.Reply} {heard : Bool}

def handsOut : Call Sys World → Option EmailId
  | ⟨_, .claimNext .., .ok (some row), _⟩ => some row.emailId
  | ⟨_, .claimTransaction .., .ok (some item), _⟩ => some item.id
  | ⟨_, .recv, .ok (some item), _⟩ => some item.id
  | _ => none

abbrev HandsOut (id : EmailId) (c : Call Sys World) : Prop := handsOut c = some id

/-- The uuid is above those of the events that the workers stored for the email. -/
def Drawn (jobs : ι → Job) (uuid : Nat) (id : EmailId) (w : World) : Prop :=
  uuid ≤ w.lastUuid ∧ (Own jobs id → ∀ e ∈ w.events, e.emailId = id → e.eventType ≠ "queued" → e.id < uuid)

def ChronicleAt (jobs : ι → Job) (i : ι) : TurnStage → World → List (ι × Call Sys World) → Prop
  | .polling, _, _ | .claiming _, _, _ | .ended, _, _ => True
  | .reading row, _, calls | .orphaned row, _, calls => Did (HandsOut row.emailId) i calls
  | .sending item, _, calls | .executing item, _, calls | .acking item _, _, calls
  | .nacking item _, _, calls | .leasing item _ _, _, calls | .clearing item _, _, calls
  | .cleaning item _ _, _, calls | .closing item _, _, calls => Did (HandsOut item.id) i calls
  | .sendingDrawn item uuid, w, calls | .closingDrawn item _ uuid, w, calls =>
      Did (HandsOut item.id) i calls ∧ Drawn jobs uuid item.id w

structure Chronicle (jobs : ι → Job) (w : World) (_ : List (ι × Call Sys World)) : Prop where
  past : ∀ e ∈ w.events, Own jobs e.emailId → e.createdAt ≤ w.nowMs ∧ e.id ≤ w.lastUuid

def ChronicleTask (jobs : ι → Job) (i : ι) : Stage → World → List (ι × Call Sys World) → Prop
  | .turn st, w, calls => ChronicleAt jobs i st w calls
  | .submit (.announcing _ uuid), w, _ => uuid ≤ w.lastUuid
  | _, _, _ => True

def chronicle (a : Adapters) (jobs : ι → Job) : Outlines ι :=
  outline a jobs (Chronicle jobs) (ChronicleTask jobs)

/-- No two running turns have the same email in their hands. -/
def OneTurn (jobs : ι → Job) (s : System ι) : Prop :=
  ∀ {i j id}, Own jobs id → Running s i → Running s j → Did (HandsOut id) i s.calls →
    Did (HandsOut id) j s.calls → i = j

theorem chronicle_start (hv : Vacant jobs w) : (chronicle a jobs).Holds (System.start a w jobs) := by
  refine outline_start ⟨fun e he ho => absurd ho (hv.events e he)⟩ fun i => ?_
  cases jobs i <;> trivial

theorem outstanding_of_handsOut (hp : Performs w op w' r) (hh : HandsOut id ⟨w, op, r, heard⟩) :
    w.Outstanding id := by
  cases hp with
  | claimNone hn hs => cases hs <;> cases hh
  | @claimNext _ _ e _ _ he hf hs =>
      cases hs with
      | ok => cases hh; exact .inl ⟨e, he, rfl⟩
      | failed => cases hh
      | landed => cases hh
  | transactionNone hn hs => cases hs <;> cases hh
  | @claimTransaction _ _ e _ _ he hf hs =>
      unfold World.claimInTransaction at hs
      cases hrow : w.findEmail e.emailId with
      | none =>
          simp only [hrow] at hs
          cases hs <;> cases hh
      | some row =>
          simp only [hrow] at hs
          cases hs with
          | ok => cases hh; exact .inl ⟨e, he, rfl⟩
          | failed => cases hh
          | landed => cases hh
  | recv hr =>
      cases hh
      obtain ⟨x, channel, hch, rfl, -⟩ := MemoryQueue.recv_eq_some hr
      refine .inr ?_
      simp only [MemoryQueue.count_eq, hch, List.map_cons, List.count_cons, beq_self_eq_true, if_true]
      omega
  | _ => cases hh

theorem insertEvent_moves {job : Job} {st st' : Stage} {uuid : Nat} {event : LifecycleEvent}
    (hm : JobMoves a job st op r st') (hop : op = .insertEvent uuid event)
    (ht : ChronicleTask jobs i st w calls) : uuid ≤ w.lastUuid ∧
      ((∃ input, job = .submit event.emailId input ∧ event.eventType = "queued") ∨
        (Did (HandsOut event.emailId) i calls ∧ Drawn jobs uuid event.emailId w ∧
          event.eventType ≠ "queued" ∧ (event.Terminal → st' = .turn .ended))) := by
  subst hop
  cases hm with
  | submit hm => cases hm; exact ⟨ht, .inl ⟨_, rfl, rfl⟩⟩
  | turn hm =>
      cases hm with
      | sendingPublished => exact ⟨ht.2.1, .inr ⟨ht.1, ht.2, show "sending" ≠ "queued" by decide, nofun⟩⟩
      | @closed item outcome =>
          refine ⟨ht.2.1, .inr ?_⟩
          cases outcome with
          | sent senderName => exact ⟨ht.1, ht.2, show "delivery.succeeded" ≠ "queued" by decide, fun _ => rfl⟩
          | failed e => exact ⟨ht.1, ht.2, show "delivery.failed" ≠ "queued" by decide, fun _ => rfl⟩
          | retrying e => exact ⟨ht.1, ht.2, show "retrying" ≠ "queued" by decide, fun _ => rfl⟩
  | sweep hm => cases hm

theorem Chronicle.snoc {calls' : List (ι × Call Sys World)} (h : Chronicle jobs w calls) {job : Job}
    {st st' : Stage} (hp : Performs w op w' r) (hm : JobMoves a job st op r st')
    (ht : ChronicleTask jobs i st w calls) : Chronicle jobs w' calls' := by
  constructor
  intro e he ho
  have hnow : w'.nowMs = w.nowMs := by rw [World.nowMs, World.nowMs, hp.now_eq]
  rw [hnow]
  rcases hp.events with hev | ⟨uuid, event, rfl, hev⟩
  · rw [hev] at he
    exact ⟨(h.past e he ho).1, Nat.le_trans (h.past e he ho).2 hp.lastUuid_le⟩
  · rw [hev] at he
    simp only [List.mem_append, List.mem_singleton] at he
    rcases he with he | rfl
    · exact ⟨(h.past e he ho).1, Nat.le_trans (h.past e he ho).2 hp.lastUuid_le⟩
    · exact ⟨Int.le_refl _, Nat.le_trans (insertEvent_moves hm rfl ht).1 hp.lastUuid_le⟩

theorem Drawn.keep {uuid : Nat} (h : Drawn jobs uuid id w) (hp : Performs w op w' r)
    (hop : ∀ uuid' event, op = .insertEvent uuid' event → Own jobs id → event.emailId = id →
      event.eventType = "queued") : Drawn jobs uuid id w' := by
  refine ⟨Nat.le_trans h.1 hp.lastUuid_le, fun ho e he hid htype => ?_⟩
  rcases hp.events with hev | ⟨uuid', event, rfl, hev⟩
  · exact h.2 ho e (hev ▸ he) hid htype
  · rw [hev] at he
    simp only [List.mem_append, List.mem_singleton] at he
    rcases he with he | rfl
    · exact h.2 ho e he hid htype
    · exact absurd (hop _ _ rfl ho hid) htype

theorem ChronicleAt.step {st st' : TurnStage} (hc : Chronicle jobs w calls)
    (h : ChronicleAt jobs i st w calls) (hp : Performs w op w' r) (hm : TurnMoves a st op r st') :
    ChronicleAt jobs i st' w' (calls ++ [(i, ⟨w, op, r, heard⟩)]) := by
  have hdrawn : ∀ {id uuid}, w.lastUuid < uuid → Drawn jobs uuid id { w with lastUuid := uuid } := by
    intro id uuid hlt
    refine ⟨Nat.le_refl _, fun ho e he hid _ => ?_⟩
    have hle := (hc.past e he (by rwa [hid])).2
    omega
  cases hm with
  | clock | recvFailed | claimFailed | commitFailed | readFailed | orphanDeleted | ackFailed
  | removeFailed | leaseFailed | requeueFailed | closed => trivial
  | @received r =>
      cases r with
      | none => trivial
      | some item => exact did_snoc_self.mpr (.inr rfl)
  | @claimed now r =>
      cases r with
      | none => trivial
      | some row =>
          simp only [TurnStage.afterClaim]
          split
          · exact did_snoc_self.mpr (.inr rfl)
          · trivial
  | @committed now r =>
      cases r with
      | none => trivial
      | some item => exact did_snoc_self.mpr (.inr rfl)
  | @read row r =>
      cases r with
      | none => exact Did.append h _
      | some envelope => exact Did.append h _
  | sendingDrawn | closingDrawn | sentDrawn =>
      cases hp with
      | newUuid hlt => exact ⟨Did.append h _, hdrawn hlt⟩
  | sendingPublished => exact h.1.append _
  | @processed item r =>
      cases r with
      | ok senderName => exact Did.append h _
      | error e =>
          simp only [TurnStage.afterProcess]
          split <;> exact Did.append h _
  | @acked item outcome | @removed item outcome => cases outcome <;> exact Did.append h _
  | nackClock | leased | requeued | cleared | cleaned => exact Did.append h _

theorem chronicle_keeps (hone : OneTurn jobs s) {act : Act ι} (h : (chronicle a jobs).Holds s) :
    (chronicle a jobs).Keeps machine s act where
  shared hl hm ht := h.1.snoc (lands_performs hl) hm ht
  own := by
    intro i op w r st st' hl hm ht
    have hmoves : JobMoves a (jobs i) st op r st' := hm
    clear hm
    generalize jobs i = job at hmoves
    cases hmoves with
    | turn hturn => exact ChronicleAt.step h.1 ht (lands_performs hl) hturn
    | submit hsubmit =>
        cases hsubmit with
        | drawn =>
            cases lands_performs hl with
            | newUuid => exact Nat.le_refl _
        | @insertOrIgnore r | @insertOnConflict r =>
            cases r with
            | error e => trivial
            | ok n =>
                simp only [SubmitStage.afterInsert]
                split
                · trivial
                · split <;> trivial
        | _ => trivial
    | sweep => trivial
  other := by
    intro i op w r heard st st' hl hm ht j stj p hji hj hf htj
    have hp := lands_performs hl
    cases stj with
    | turn stj =>
        have hdrawn : ∀ {id uuid}, stj ≠ .ended → Did (HandsOut id) j s.calls → Drawn jobs uuid id s.world →
            Drawn jobs uuid id w := by
          intro id uuid hst hhand hdrawn
          refine hdrawn.keep hp fun uuid' event hop ho hid => ?_
          rcases (insertEvent_moves hm hop ht).2 with ⟨input, -, htype⟩ | ⟨hhand', -⟩
          · exact htype
          · rw [hid] at hhand'
            exact absurd (hone ho (running_of_turn hj hf hst) (lands_running hl) hhand hhand') hji
        cases stj with
        | polling | claiming | ended => trivial
        | sendingDrawn | closingDrawn => exact ⟨htj.1.append _, hdrawn (by simp) htj.1 htj.2⟩
        | _ => exact Did.append htj _
    | submit stj =>
        cases stj with
        | announcing refs uuid => exact Nat.le_trans htj hp.lastUuid_le
        | _ => trivial
    | sweep => trivial
  drift := by
    intro e w hdrift
    have hdr := drifts hdrift
    refine ⟨⟨fun e he ho => ?_⟩, fun {j stj} hj => ?_⟩
    · rw [hdr.events] at he
      rw [hdr.lastUuid]
      exact ⟨Int.le_trans (h.1.past e he ho).1 (nowMs_le hdr.now_le), (h.1.past e he ho).2⟩
    · have hdrawn : ∀ {id uuid}, Drawn jobs uuid id s.world → Drawn jobs uuid id w := by
        intro id uuid hd
        rw [Drawn, hdr.lastUuid, hdr.events]
        exact hd
      cases stj with
      | turn stj =>
          cases stj with
          | sendingDrawn | closingDrawn => exact ⟨hj.1, hdrawn hj.2⟩
          | _ => exact hj
      | submit stj =>
          cases stj with
          | announcing refs uuid => exact Nat.le_trans hj (Nat.le_of_eq hdr.lastUuid.symm)
          | _ => trivial
      | sweep => trivial

end Catapulte
