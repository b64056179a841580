import Catapulte.System

namespace Catapulte

open Async

variable {ι : Type} {a : Adapters} {jobs : ι → Job} {w w' : World} {calls : List (ι × Call Sys World)} {i j : ι}
  {op : Effect} {r : op.Reply} {heard : Bool} {item : DequeuedEmail} {c : Call Sys World}

/-- What a turn does about the item in its hands. The flag of an ack or a nack tells
whether it returned `Ok`. -/
inductive Deed
  | publish (event : LifecycleEvent)
  | result (r : Except ProcessQueuedEmailError SenderName)
  | ack (token : AckToken) (ok : Bool)
  | nack (token : AckToken) (delay : Duration) (ok : Bool)
  | setAttachments (id : EmailId) (attachments : List AttachmentRef)
  | delete (ref : BlobRef)

def deedOf : Call Sys World → Option Deed
  | ⟨_, .insertEvent _ event, _, _⟩ => some (.publish event)
  | ⟨_, .process _, r, _⟩ => some (.result r)
  | ⟨_, .removePending token, r, _⟩ => some (.ack token r.isOk)
  | ⟨_, .requeuePending token delay, r, _⟩ => some (.nack token delay r.isOk)
  | ⟨_, .setAttachments id attachments, _, _⟩ => some (.setAttachments id attachments)
  | ⟨_, .deleteBlob ref, _, _⟩ => some (.delete ref)
  | _ => none

def got : Call Sys World → Option DequeuedEmail
  | ⟨_, .recv, .ok item, _⟩ => item
  | _ => none

section Lists

variable [DecidableEq ι]

def ownOf {β : Type} (f : Call Sys World → Option β) (i : ι) (calls : List (ι × Call Sys World)) : List β :=
  calls.filterMap fun x => if x.1 = i then f x.2 else none

def deeds (i : ι) (calls : List (ι × Call Sys World)) : List Deed := ownOf deedOf i calls

def gots (i : ι) (calls : List (ι × Call Sys World)) : List DequeuedEmail := ownOf got i calls

@[simp] theorem ownOf_nil {β : Type} (f : Call Sys World → Option β) (i : ι) : ownOf f i [] = [] := rfl

theorem ownOf_snoc {β : Type} (f : Call Sys World → Option β) : ownOf f i (calls ++ [(i, c)]) = ownOf f i calls ++ (f c).toList := by
  rw [ownOf, List.filterMap_append, List.filterMap_cons, if_pos rfl, ownOf]
  cases f c <;> rfl

theorem ownOf_snoc_of_ne {β : Type} (f : Call Sys World → Option β) (h : i ≠ j) :
    ownOf f i (calls ++ [(j, c)]) = ownOf f i calls := by
  rw [ownOf, List.filterMap_append, List.filterMap_cons, if_neg (Ne.symm h), List.filterMap_nil, List.append_nil, ownOf]

end Lists

def Outcome.result : Outcome → Except ProcessQueuedEmailError SenderName
  | .sent senderName => .ok senderName
  | .failed e | .retrying e => .error e

/-- An error is final when it cannot be tried again or the attempts are used up. -/
def Outcome.Fits (attempt : Nat) : Outcome → Prop
  | .sent _ => True
  | .failed e => isTerminal e attempt = true
  | .retrying e => isTerminal e attempt = false

/-- The deeds up to the ack or the nack, and after a send those that clean up. -/
def DequeuedEmail.settling (item : DequeuedEmail) : Outcome → List Deed
  | .sent senderName => [.publish item.sendingEvent, .result (.ok senderName), .ack item.token true,
      .setAttachments item.id []] ++ item.envelope.attachments.map fun att => .delete att.blob
  | .failed e => [.publish item.sendingEvent, .result (.error e), .ack item.token true]
  | .retrying e => [.publish item.sendingEvent, .result (.error e), .nack item.token (backoff item.attempt) true]

def DequeuedEmail.deeds (item : DequeuedEmail) (outcome : Outcome) : List Deed :=
  item.settling outcome ++ [.publish (item.closingEvent outcome)]

section Stages

variable [DecidableEq ι]

def Handles (i : ι) (item : DequeuedEmail) (done : List Deed) (calls : List (ι × Call Sys World)) : Prop :=
  gots i calls = [item] ∧ deeds i calls = done

/-- What a turn over the memory queue has done at each of its stages. -/
def DeedsAt (i : ι) (calls : List (ι × Call Sys World)) : TurnStage → Prop
  | .polling => gots i calls = [] ∧ deeds i calls = []
  | .sending item | .sendingDrawn item _ => Handles i item [] calls
  | .executing item => Handles i item [.publish item.sendingEvent] calls
  | .acking item outcome => outcome.Fits item.attempt ∧ (∀ e, outcome ≠ .retrying e) ∧
      Handles i item [.publish item.sendingEvent, .result outcome.result] calls
  | .nacking item e => isTerminal e item.attempt = false ∧
      Handles i item [.publish item.sendingEvent, .result (.error e)] calls
  | .clearing item senderName =>
      Handles i item [.publish item.sendingEvent, .result (.ok senderName), .ack item.token true] calls
  | .cleaning item senderName refs => ∃ deleted, item.envelope.attachments = deleted ++ refs ∧
      Handles i item ([.publish item.sendingEvent, .result (.ok senderName), .ack item.token true,
        .setAttachments item.id []] ++ deleted.map fun att => .delete att.blob) calls
  | .closing item outcome | .closingDrawn item outcome _ =>
      outcome.Fits item.attempt ∧ Handles i item (item.settling outcome) calls
  | .ended => (gots i calls = [] ∧ deeds i calls = []) ∨
      ∃ item outcome, outcome.Fits item.attempt ∧ Handles i item (item.deeds outcome) calls
  | .claiming _ | .reading _ | .orphaned _ | .leasing .. => False

/-- Each turn is somewhere in its protocol, also one that was abandoned, and the other
jobs receive nothing. -/
def Protocol (jobs : ι → Job) (_ : World) (calls : List (ι × Call Sys World)) : Prop :=
  ∀ i, (jobs i = .turn ∧ ∃ st, DeedsAt i calls st) ∨ (jobs i ≠ .turn ∧ gots i calls = [])

def ProtocolTask (i : ι) : Stage → World → List (ι × Call Sys World) → Prop
  | .turn st, _, calls => DeedsAt i calls st
  | _, _, _ => True

def protocol (a : Adapters) (jobs : ι → Job) : Outlines ι := outline a jobs (Protocol jobs) ProtocolTask

theorem protocol_start : (protocol a jobs).Holds (System.start a w jobs) := by
  refine outline_start (fun i => ?_) fun i => ?_
  · by_cases hi : jobs i = .turn
    · exact .inl ⟨hi, .polling, rfl, rfl⟩
    · exact .inr ⟨hi, rfl⟩
  · cases jobs i with
    | turn => exact ⟨rfl, rfl⟩
    | submit | sweep => trivial

theorem DeedsAt.frame {st : TurnStage} (h : DeedsAt i calls st) (hij : i ≠ j) : DeedsAt i (calls ++ [(j, c)]) st := by
  have hg : gots i (calls ++ [(j, c)]) = gots i calls := ownOf_snoc_of_ne got hij
  have hd : deeds i (calls ++ [(j, c)]) = deeds i calls := ownOf_snoc_of_ne deedOf hij
  unfold DeedsAt Handles at h ⊢
  rw [hg, hd]
  exact h

theorem Handles.snoc {done : List Deed} (h : Handles i item done calls) (hg : got c = none) :
    Handles i item (done ++ (deedOf c).toList) (calls ++ [(i, c)]) := by
  refine ⟨?_, ?_⟩
  · rw [gots, ownOf_snoc, hg]
    exact (List.append_nil _).trans h.1
  · rw [deeds, ownOf_snoc]
    exact congrArg (· ++ _) h.2

theorem gots_snoc (h : gots i calls = []) (hg : got c = none) : gots i (calls ++ [(i, c)]) = [] := by
  rw [gots, ownOf_snoc, hg]
  exact (List.append_nil _).trans h

theorem deeds_snoc {done : List Deed} (h : deeds i calls = done) (hd : deedOf c = none) :
    deeds i (calls ++ [(i, c)]) = done := by
  rw [deeds, ownOf_snoc, hd]
  exact (List.append_nil _).trans h

theorem Handles.keep {done : List Deed} (h : Handles i item done calls) (hg : got c = none) (hd : deedOf c = none) :
    Handles i item done (calls ++ [(i, c)]) := by
  refine ⟨?_, deeds_snoc h.2 hd⟩
  rw [gots, ownOf_snoc, hg]
  exact (List.append_nil _).trans h.1

theorem DeedsAt.step {st st' : TurnStage} (hq : a.queue = .memory) (h : DeedsAt i calls st) (hp : Performs w op w' r)
    (hm : TurnMoves a st op r st') : DeedsAt i (calls ++ [(i, ⟨w, op, r, heard⟩)]) st' := by
  cases hm with
  | clock hq' | nackClock hq' | acked hq' | ackFailed hq' => exact absurd hq hq'
  | claimed hq' | claimFailed hq' | committed hq' | commitFailed hq' => rw [hq] at hq'; cases hq'
  | read | readFailed | orphanDeleted | leased | leaseFailed => exact h.elim
  | @received r =>
      cases r with
      | none => exact .inl ⟨gots_snoc h.1 rfl, deeds_snoc h.2 rfl⟩
      | some item =>
          refine ⟨?_, deeds_snoc h.2 rfl⟩
          rw [gots, ownOf_snoc]
          exact congrArg (· ++ [item]) h.1
  | recvFailed => exact .inl ⟨gots_snoc h.1 rfl, deeds_snoc h.2 rfl⟩
  | sendingDrawn => exact Handles.keep h rfl rfl
  | sendingPublished => exact Handles.snoc h rfl
  | @processed item r =>
      cases r with
      | ok senderName => exact ⟨trivial, fun _ heq => (by cases heq), Handles.snoc h rfl⟩
      | error e =>
          simp only [TurnStage.afterProcess]
          split
          · exact ⟨‹_›, fun _ heq => (by cases heq), Handles.snoc h rfl⟩
          · exact ⟨Bool.eq_false_iff.mpr ‹_›, Handles.snoc h rfl⟩
  | @removed item outcome =>
      cases hp with
      | removePending =>
          cases outcome with
          | sent senderName => exact Handles.snoc h.2.2 rfl
          | failed e => exact ⟨h.1, Handles.snoc h.2.2 rfl⟩
          | retrying e => exact absurd rfl (h.2.1 e)
  | removeFailed => cases hp
  | requeued =>
      cases hp with
      | requeuePending => exact ⟨h.1, Handles.snoc h.2 rfl⟩
  | requeueFailed => cases hp
  | cleared => exact ⟨[], rfl, Handles.snoc h rfl⟩
  | @cleaned item senderName ref refs =>
      obtain ⟨deleted, hatts, hdone⟩ := h
      refine ⟨deleted ++ [ref], by rw [hatts, List.append_assoc, List.singleton_append], ?_⟩
      rw [List.map_append, ← List.append_assoc]
      exact Handles.snoc hdone rfl
  | sentDrawn =>
      obtain ⟨deleted, hatts, hdone⟩ := h
      rw [List.append_nil] at hatts
      refine ⟨trivial, ?_⟩
      rw [DequeuedEmail.settling, hatts]
      exact hdone.keep rfl rfl
  | closingDrawn => exact ⟨h.1, h.2.keep rfl rfl⟩
  | closed => exact .inr ⟨_, _, h.1, Handles.snoc h.2 rfl⟩

theorem got_moves {job : Job} {st st' : Stage} (hm : JobMoves a job st op r st') (hg : got ⟨w, op, r, heard⟩ ≠ none) :
    job = .turn := by
  cases hm with
  | submit hm => cases hm <;> exact absurd rfl hg
  | turn => rfl
  | sweep hm => cases hm <;> exact absurd rfl hg

theorem gots_other {job : Job} {st st' : Stage} (hm : JobMoves a job st op r st') (hj : job ≠ .turn) (h : gots i calls = []) :
    gots i (calls ++ [(i, ⟨w, op, r, heard⟩)]) = [] := by
  refine gots_snoc h ?_
  by_contra hg
  exact hj (got_moves hm hg)

theorem protocol_keeps (hq : a.queue = .memory) {s : System ι} {act : Act ι} (h : (protocol a jobs).Holds s) :
    (protocol a jobs).Keeps machine s act where
  shared := by
    intro i op w r heard st st' hl hm ht j
    by_cases hji : j = i
    · subst hji
      rcases h.1 j with ⟨hj, -⟩ | ⟨hj, hnone⟩
      · refine .inl ⟨hj, ?_⟩
        have hmoves : JobMoves a (jobs j) st op r st' := hm
        rw [hj] at hmoves
        obtain ⟨st, st', rfl, rfl, hturn⟩ := turn_moves hmoves
        exact ⟨st', DeedsAt.step hq ht (lands_performs hl) hturn⟩
      · exact .inr ⟨hj, gots_other hm hj hnone⟩
    · rcases h.1 j with ⟨hj, st, hst⟩ | ⟨hj, hnone⟩
      · exact .inl ⟨hj, st, hst.frame hji⟩
      · exact .inr ⟨hj, (ownOf_snoc_of_ne got hji).trans hnone⟩
  own := by
    intro i op w r st st' hl hm ht
    have hmoves : JobMoves a (jobs i) st op r st' := hm
    clear hm
    generalize jobs i = job at hmoves
    cases hmoves with
    | turn hturn => exact DeedsAt.step hq ht (lands_performs hl) hturn
    | submit | sweep => trivial
  other := by
    intro i op w r heard st st' hl hm ht j stj p hji _ _ htj
    cases stj with
    | turn stj => exact DeedsAt.frame htj hji
    | submit | sweep => trivial
  drift _ := by
    refine ⟨h.1, fun {j stj} ht => ?_⟩
    cases stj with
    | turn stj => exact ht
    | submit | sweep => trivial

end Stages

end Catapulte
