import Catapulte.Chronicle
import Catapulte.Survival

namespace Catapulte

open Async

variable {ι : Type} {a : Adapters} {jobs : ι → Job} {w w' : World} {calls : List (ι × Call Sys World)} {i j : ι}
  {id : EmailId} {op : Effect} {r : op.Reply} {heard : Bool}

inductive Milestone
  | enqueued
  | handedOut
  | concluded
  deriving DecidableEq

inductive Phase
  | fresh
  | queued
  | concluded
  deriving DecidableEq

namespace Phase

/-- An email is enqueued once, then handed out any number of times until it is concluded. -/
def next : Phase → Milestone → Option Phase
  | fresh, .enqueued => some queued
  | queued, .handedOut => some queued
  | queued, .concluded => some concluded
  | concluded, .concluded => some concluded
  | _, _ => none

end Phase

/-- The email whose life the event ends: an insert that returns `Err` may have stored it. -/
def concludes : Call Sys World → Option EmailId
  | ⟨_, .insertEvent _ event, _, _⟩ => if event.Terminal then some event.emailId else none
  | _ => none

abbrev Concludes (id : EmailId) (c : Call Sys World) : Prop := concludes c = some id

/-- What a call means for the email: an insert that may have enqueued it, a dequeue that hands
it out, or an insert of its Sent or Failed event. -/
def milestone (id : EmailId) (c : Call Sys World) : Option Milestone :=
  if Offered id c then some .enqueued
  else if HandsOut id c then some .handedOut
  else if Concludes id c then some .concluded
  else none

def milestones (id : EmailId) (calls : List (ι × Call Sys World)) : List Milestone :=
  calls.filterMap fun x => milestone id x.2

def phase (id : EmailId) (calls : List (ι × Call Sys World)) : Option Phase :=
  (milestones id calls).foldlM Phase.next .fresh

structure Lifecycle (jobs : ι → Job) (w : World) (calls : List (ι × Call Sys World)) : Prop where
  lives : ∀ {id}, Own jobs id → ∃ p, phase id calls = some p ∧ (p = .fresh ↔ ¬ Seen (Offered id) calls) ∧
    (p = .concluded → ¬ w.Outstanding id)

theorem milestone_cases (id : EmailId) (c : Call Sys World) :
    (Offered id c ∧ milestone id c = some .enqueued) ∨ ¬ Offered id c ∧
      ((HandsOut id c ∧ milestone id c = some .handedOut) ∨ (Concludes id c ∧ milestone id c = some .concluded) ∨
        milestone id c = none) := by
  unfold milestone
  split
  · exact .inl ⟨‹_›, rfl⟩
  · refine .inr ⟨‹_›, ?_⟩
    split
    · exact .inl ⟨‹_›, rfl⟩
    · split
      · exact .inr (.inl ⟨‹_›, rfl⟩)
      · exact .inr (.inr rfl)

theorem phase_none {c : Call Sys World} (h : milestone id c = none) : phase id (calls ++ [(i, c)]) = phase id calls := by
  simp [phase, milestones, h]

theorem phase_some {c : Call Sys World} {x : Milestone} {p : Phase} (h : milestone id c = some x)
    (hp : phase id calls = some p) : phase id (calls ++ [(i, c)]) = p.next x := by
  unfold phase milestones at hp ⊢
  simp [h, hp]

theorem insertEvent_of_concludes (hc : Concludes id ⟨w, op, r, heard⟩) :
    ∃ uuid event, op = .insertEvent uuid event ∧ event.emailId = id ∧ event.Terminal := by
  cases op with
  | insertEvent uuid event =>
      by_cases hterm : event.Terminal
      · simp only [Concludes, concludes, if_pos hterm, Option.some.injEq] at hc
        exact ⟨uuid, event, rfl, hc, hterm⟩
      · simp [Concludes, concludes, if_neg hterm] at hc
  | _ => cases hc

theorem released_of_concludes {st st' : Stage} (hc : Concludes id ⟨w, op, r, heard⟩)
    (hm : JobMoves a (jobs i) st op r st') (ht : CustodyTask a jobs i st w calls) : Released jobs id w calls := by
  obtain ⟨uuid, event, rfl, rfl, hterm⟩ := insertEvent_of_concludes hc
  generalize jobs i = job at hm
  cases hm with
  | submit hm => cases hm; cases hterm
  | turn hm =>
      cases hm with
      | sendingPublished => cases hterm
      | @closed item outcome =>
          cases outcome with
          | sent | failed => exact ht fun _ h => by cases h
          | retrying => cases hterm
  | sweep hm => cases hm

theorem Lifecycle.snoc {st st' : Stage} (h : Lifecycle jobs w calls) (hcust : Custody a jobs w calls)
    (hp : Performs w op w' r) (hm : JobMoves a (jobs i) st op r st') (ht : CustodyTask a jobs i st w calls)
    (hfresh : ∀ {id}, op.Enqueues id → ¬ Seen (Offered id) calls) :
    Lifecycle jobs w' (calls ++ [(i, ⟨w, op, r, heard⟩)]) := by
  refine ⟨fun {id} hown => ?_⟩
  obtain ⟨p, hphase, hiff, hout⟩ := h.lives hown
  have hkept (hseen : Seen (Offered id) calls) (hn : ¬ w.Outstanding id) : ¬ w'.Outstanding id :=
    fun ho => hn (hp.outstanding (fun hop => hfresh hop hseen) ho)
  rcases milestone_cases id ⟨w, op, r, heard⟩ with ⟨henq, hx⟩ | ⟨hnenq, hrest⟩
  · -- The enqueue is the first of its email.
    obtain rfl := hiff.mpr (hfresh (enqueues_of_offered henq))
    exact ⟨.queued, phase_some hx hphase,
      ⟨fun h => (by cases h), fun h => absurd (seen_snoc.mpr (.inr henq)) h⟩, fun h => (by cases h)⟩
  · have hsame : Seen (Offered id) (calls ++ [(i, ⟨w, op, r, heard⟩)]) ↔ Seen (Offered id) calls :=
      seen_snoc.trans (or_iff_left hnenq)
    rw [hsame]
    rcases hrest with ⟨hhand, hx⟩ | ⟨hconc, hx⟩ | hx
    · -- What is handed out is in the queue.
      have houtstanding := outstanding_of_handsOut hp hhand
      cases p with
      | fresh => exact absurd (hcust.origin hown houtstanding) (hiff.mp rfl)
      | concluded => exact absurd houtstanding (hout rfl)
      | queued => exact ⟨.queued, phase_some hx hphase, hiff, fun h => (by cases h)⟩
    · obtain ⟨hseen, hn⟩ := released_of_concludes hconc hm ht hown
      have hiff' : Phase.concluded = .fresh ↔ ¬ Seen (Offered id) calls :=
        ⟨fun h => (by cases h), fun h => absurd hseen h⟩
      cases p with
      | fresh => exact absurd hseen (hiff.mp rfl)
      | queued | concluded => exact ⟨.concluded, phase_some hx hphase, hiff', fun _ => hkept hseen hn⟩
    · refine ⟨p, (phase_none hx).trans hphase, hiff, ?_⟩
      rintro rfl
      have hseen : Seen (Offered id) calls := by
        by_contra hnot
        cases hiff.mpr hnot
      exact hkept hseen (hout rfl)

end Catapulte
