import Catapulte.Status

namespace Catapulte

open Async

variable {ι : Type} {a : Adapters} {jobs : ι → Job} {w w' : World} {calls : List (ι × Call Sys World)} {i j : ι}
  {id : EmailId} {token : AckToken} {q : QueueAdapter} {op : Effect} {r : op.Reply} {heard : Bool}

def handedAs : Call Sys World → Option (EmailId × Nat)
  | ⟨_, .claimNext .., .ok (some row), _⟩ => some (row.emailId, row.attemptCount)
  | ⟨_, .claimTransaction .., .ok (some item), _⟩ => some (item.id, item.attempt)
  | ⟨_, .recv, .ok (some item), _⟩ => some (item.id, item.attempt)
  | _ => none

def resulted : Call Sys World → Option (Except ProcessQueuedEmailError SenderName)
  | ⟨_, .process _, r, _⟩ => some r
  | _ => none

abbrev HandedAs (id : EmailId) (attempt : Nat) (c : Call Sys World) : Prop := handedAs c = some (id, attempt)

abbrev Resulted (r : Except ProcessQueuedEmailError SenderName) (c : Call Sys World) : Prop := resulted c = some r

/-- After this result of an attempt there is nothing left to try. -/
def FinalResult (attempt : Nat) : Except ProcessQueuedEmailError SenderName → Prop
  | .ok _ => True
  | .error e => isTerminal e attempt = true

/-- The turn was handed the email, and its use case returned a final result. -/
def Completed (i : ι) (id : EmailId) (calls : List (ι × Call Sys World)) : Prop :=
  ∃ attempt r, Did (HandedAs id attempt) i calls ∧ Did (Resulted r) i calls ∧ FinalResult attempt r

/-- What the token stands for in the queue belongs to the email. -/
structure QueueAdapter.Names (q : QueueAdapter) (w : World) (token : AckToken) (id : EmailId) : Prop where
  entry : q ≠ .memory → token ≤ w.lastUuid ∧ ∀ e ∈ w.queue, e.id = token → e.emailId = id
  item : q = .memory → token < w.memory.nextToken ∧ ∀ p ∈ w.memory.pending, p.1 = token → p.2.id = id

def SurvivalAt (a : Adapters) (jobs : ι → Job) (i : ι) : TurnStage → World → List (ι × Call Sys World) → Prop
  | .polling, _, _ | .claiming _, _, _ | .clearing .., _, _ | .cleaning .., _, _ | .closing .., _, _
  | .closingDrawn .., _, _ | .ended, _, _ => True
  | .reading row, w, calls => a.queue ≠ .memory ∧ Did (HandedAs row.emailId row.attemptCount) i calls ∧
      a.queue.Names w row.entryId row.emailId
  | .orphaned row, w, calls => a.queue ≠ .memory ∧
      (Own jobs row.emailId → Seen (Offered row.emailId) calls ∧ ¬ Seen (Enqueued row.emailId) calls) ∧
      a.queue.Names w row.entryId row.emailId
  | .sending item, w, calls | .sendingDrawn item _, w, calls | .executing item, w, calls
  | .nacking item _, w, calls | .leasing item _ _, w, calls =>
      Did (HandedAs item.id item.attempt) i calls ∧ a.queue.Names w item.token item.id
  | .acking item _, w, calls => Completed i item.id calls ∧ a.queue.Names w item.token item.id

structure Survival (jobs : ι → Job) (w : World) (calls : List (ι × Call Sys World)) : Prop where
  accounted : ∀ {id}, Own jobs id → Seen (Enqueued id) calls → w.Outstanding id ∨ ∃ i, Completed i id calls
  entries : w.EntriesFresh
  tokens : w.memory.TokensFresh

def SurvivalTask (a : Adapters) (jobs : ι → Job) (i : ι) : Stage → World → List (ι × Call Sys World) → Prop
  | .turn st, w, calls => SurvivalAt a jobs i st w calls
  | _, _, _ => True

def survival (a : Adapters) (jobs : ι → Job) : Outlines ι :=
  ((acceptance a jobs).and (Custody a jobs) (CustodyTask a jobs)).and (Survival jobs) (SurvivalTask a jobs)

theorem QueueAdapter.Names.keep (h : q.Names w token id) (hp : Performs w op w' r) : q.Names w' token id := by
  constructor
  · intro hq
    obtain ⟨hle, hentry⟩ := h.entry hq
    refine ⟨Nat.le_trans hle hp.lastUuid_le, fun e' he' hid => ?_⟩
    rcases hp.entry_of he' with ⟨e, he, hid', hem, -⟩ | ⟨hlt, -⟩
    · exact hem ▸ hentry e he (hid'.trans hid)
    · exact absurd (hid ▸ hlt) (Nat.not_lt.mpr hle)
  · intro hq
    obtain ⟨hlt, hitem⟩ := h.item hq
    rcases hp.memory with hm | hm
    · rw [hm]
      exact ⟨hlt, hitem⟩
    · generalize w'.memory = memory at hm
      cases hm with
      | send => exact ⟨hlt, hitem⟩
      | recv hr =>
          obtain ⟨x, channel, -, -, rfl⟩ := MemoryQueue.recv_eq_some hr
          refine ⟨Nat.lt_succ_of_lt hlt, fun p hp' htok => ?_⟩
          rcases List.mem_append.mp hp' with hp' | hp'
          · exact hitem p hp' htok
          · rw [List.mem_singleton.mp hp'] at htok
            exact absurd htok (Nat.ne_of_gt hlt)
      | removePending => exact ⟨hlt, fun p hp' => hitem p (List.mem_filter.mp hp').1⟩
      | requeuePending =>
          unfold MemoryQueue.requeue
          split
          · exact ⟨hlt, hitem⟩
          · exact ⟨hlt, fun p hp' => hitem p (List.mem_filter.mp hp').1⟩

theorem QueueAdapter.Names.drift {e : Drift} (h : q.Names w token id) (hd : Drifts w e w') : q.Names w' token id := by
  cases hd with
  | tick => exact ⟨h.entry, h.item⟩
  | wake hw =>
      obtain ⟨wake, item, -, -, rfl⟩ := MemoryQueue.wakeUp_eq_some hw
      exact ⟨h.entry, h.item⟩

theorem mem_updateEntry {f : QueueEntry → QueueEntry} (hf : ∀ e, (f e).emailId = e.emailId) {e : QueueEntry}
    (he : e ∈ w.queue) : ∃ e' ∈ (w.updateEntry token f).queue, e'.emailId = e.emailId := by
  refine ⟨_, List.mem_map_of_mem he, ?_⟩
  split
  · exact hf e
  · rfl

theorem QueueWrite.entry_kept (h : QueueWrite w op w') (hf : w.EntriesFresh) {e : QueueEntry} (he : e ∈ w.queue) :
    (∃ e' ∈ w'.queue, e'.emailId = e.emailId) ∨ op = .deleteEntry e.id ∨
      (∃ now claimUntil, op = .claimTransaction now claimUntil) ∧ w.findEmail e.emailId = none := by
  cases h with
  | insertEntry => exact .inl ⟨e, List.mem_append_left _ he, rfl⟩
  | claimNext | leaseEntry =>
      refine .inl (mem_updateEntry ?_ he)
      exact fun _ => rfl
  | @claimTransaction now claimUntil e₀ he₀ =>
      unfold World.claimInTransaction
      cases hrow : w.findEmail e₀.emailId with
      | some row =>
          refine .inl (mem_updateEntry ?_ he)
          exact fun _ => rfl
      | none =>
          by_cases hid : e.id = e₀.id
          · obtain rfl := hf.unique he he₀ hid
            exact .inr (.inr ⟨⟨_, _, rfl⟩, hrow⟩)
          · exact .inl ⟨e, mem_deleteEntry.mpr ⟨mem_claimEntry_of_ne he hid _, hid⟩, rfl⟩
  | @deleteEntry token =>
      by_cases hid : e.id = token
      · exact .inr (.inl (by rw [hid]))
      · exact .inl ⟨e, mem_deleteEntry.mpr ⟨he, hid⟩, rfl⟩

theorem Performs.outstanding_kept (h : Performs w op w' r) (hf : w.EntriesFresh) (ht : w.memory.TokensFresh)
    (ho : w.Outstanding id) : w'.Outstanding id ∨ (∃ e ∈ w.queue, op = .deleteEntry e.id ∧ e.emailId = id) ∨
      (∃ p ∈ w.memory.pending, op = .removePending p.1 ∧ p.2.id = id) ∨
        (∃ now claimUntil, op = .claimTransaction now claimUntil) ∧ w.findEmail id = none := by
  rcases ho with ⟨e, he, rfl⟩ | hpos
  · rcases h.queue with hq | hq
    · exact .inl (.inl ⟨e, hq ▸ he, rfl⟩)
    · rcases hq.entry_kept hf he with hkept | hack | horphan
      · exact .inl (.inl hkept)
      · exact .inr (.inl ⟨e, he, hack, rfl⟩)
      · exact .inr (.inr (.inr horphan))
  · rcases h.memory with hm | hm
    · exact .inl (.inr (hm ▸ hpos))
    · rcases hm.count_kept ht hpos with hpos | ⟨token, rfl, p, hp, rfl, hid⟩
      · exact .inl (.inr hpos)
      · exact .inr (.inr (.inl ⟨p, hp, rfl, hid⟩))

theorem outstanding_of_enqueued (h : Performs w op w' r) (henq : Enqueued id ⟨w, op, r, heard⟩) : w'.Outstanding id := by
  cases h with
  | insertEntry _ _ hs =>
      cases hs with
      | ok => cases henq; exact .inl ⟨_, List.mem_append_right _ (List.mem_singleton_self _), rfl⟩
      | failed | landed => cases henq
  | send =>
      cases henq
      refine .inr ?_
      rw [MemoryQueue.count_send, if_pos rfl]
      exact Nat.succ_pos _
  | _ => cases henq

theorem Completed.append (h : Completed i id calls) (calls' : List (ι × Call Sys World)) :
    Completed i id (calls ++ calls') := by
  obtain ⟨attempt, r, hhand, hres, hfinal⟩ := h
  exact ⟨attempt, r, hhand.append _, hres.append _, hfinal⟩

theorem SurvivalAt.keep {st : TurnStage} (h : SurvivalAt a jobs i st w calls) (hp : Performs w op w' r)
    (hfresh : ∀ {id}, op.Enqueues id → ¬ Seen (Offered id) calls) :
    SurvivalAt a jobs i st w' (calls ++ [(j, ⟨w, op, r, heard⟩)]) := by
  cases st with
  | polling | claiming | clearing | cleaning | closing | closingDrawn | ended => trivial
  | reading => exact ⟨h.1, h.2.1.append _, h.2.2.keep hp⟩
  | orphaned =>
      refine ⟨h.1, fun hown => ?_, h.2.2.keep hp⟩
      obtain ⟨hoff, hnot⟩ := h.2.1 hown
      refine ⟨hoff.append _, fun henq => ?_⟩
      have hnew := (seen_snoc.mp henq).resolve_left hnot
      exact hfresh (enqueues_of_offered (offered_of_enqueued hnew)) hoff
  | sending | sendingDrawn | executing | nacking | leasing => exact ⟨Did.append h.1 _, h.2.keep hp⟩
  | acking => exact ⟨h.1.append _, h.2.keep hp⟩

theorem SurvivalAt.drift {st : TurnStage} {e : Drift} (h : SurvivalAt a jobs i st w calls) (hd : Drifts w e w') :
    SurvivalAt a jobs i st w' calls := by
  cases st with
  | polling | claiming | clearing | cleaning | closing | closingDrawn | ended => trivial
  | reading | orphaned => exact ⟨h.1, h.2.1, h.2.2.drift hd⟩
  | sending | sendingDrawn | executing | nacking | leasing | acking => exact ⟨h.1, h.2.drift hd⟩

theorem names_of_claim (hq : q ≠ .memory) (hf : w.EntriesFresh) {e : QueueEntry} (he : e ∈ w.queue) :
    q.Names w e.id e.emailId where
  entry _ := ⟨hf.drawn e he, fun e' he' hid => by rw [hf.unique he' he hid]⟩
  item h := absurd h hq

theorem names_of_recv (ht : w.memory.TokensFresh) {memory : MemoryQueue} {item : DequeuedEmail}
    (hr : w.memory.recv = some (memory, item)) : QueueAdapter.memory.Names { w with memory } item.token item.id := by
  obtain ⟨x, channel, -, rfl, rfl⟩ := MemoryQueue.recv_eq_some hr
  refine ⟨fun h => absurd rfl h, fun _ => ⟨Nat.lt_succ_self _, fun p hp htok => ?_⟩⟩
  rcases List.mem_append.mp hp with hp | hp
  · exact absurd htok (Nat.ne_of_lt (ht.issued p hp))
  · rw [List.mem_singleton.mp hp]

theorem SurvivalAt.step {st st' : TurnStage} (hs : Survival jobs w calls) (hacc : Accepted jobs w calls)
    (hcust : CustodyAt a jobs i st w calls) (h : SurvivalAt a jobs i st w calls) (hp : Performs w op w' r)
    (hfresh : ∀ {id}, op.Enqueues id → ¬ Seen (Offered id) calls) (hm : TurnMoves a st op r st') :
    SurvivalAt a jobs i st' w' (calls ++ [(i, ⟨w, op, r, heard⟩)]) := by
  have hkeep : SurvivalAt a jobs i st w' (calls ++ [(i, ⟨w, op, r, heard⟩)]) := h.keep hp hfresh
  cases hm with
  | clock | recvFailed | claimFailed | commitFailed | readFailed | orphanDeleted | ackFailed | removeFailed
  | leaseFailed | requeueFailed | leased | requeued | cleared | cleaned | sentDrawn | closingDrawn | closed => trivial
  | received hq =>
      cases hp with
      | recv hr => exact ⟨did_snoc_self.mpr (.inr rfl), hq ▸ names_of_recv hs.tokens hr⟩
  | @claimed now r hq =>
      cases hp with
      | claimNone hn hs => cases hs; trivial
      | @claimNext _ _ e _ _ he hf hset =>
          cases hset with
          | ok =>
              simp only [TurnStage.afterClaim]
              split
              · have hsql : a.queue ≠ .memory := by simp [hq]
                exact ⟨hsql, did_snoc_self.mpr (.inr rfl),
                  (names_of_claim hsql hs.entries he).keep (Performs.claimNext he hf .ok)⟩
              · trivial
  | @committed now r hq =>
      cases hp with
      | transactionNone hn hs => cases hs; trivial
      | @claimTransaction _ _ e _ _ he hf hset =>
          have hsql : a.queue ≠ .memory := by simp [hq]
          have hnames := (names_of_claim hsql hs.entries he).keep (Performs.claimTransaction he hf hset)
          cases hrow : w.findEmail e.emailId with
          | none =>
              simp only [World.claimInTransaction, hrow] at hset
              cases hset
              trivial
          | some row =>
              simp only [World.claimInTransaction, hrow] at hset hnames
              cases hset
              exact ⟨did_snoc_self.mpr (.inr rfl), hnames⟩
  | @read row r =>
      cases hp with
      | selectEmail =>
          cases hrow : w.findEmail row.emailId with
          | some envelope => exact ⟨h.2.1.append _, h.2.2⟩
          | none =>
              refine ⟨h.1, fun hown => ⟨(hcust.2 hown).1.append _, fun henq => ?_⟩, h.2.2⟩
              -- An email that was enqueued has its row.
              obtain ⟨k, hk⟩ := (seen_snoc.mp henq).resolve_right fun h => by cases h
              obtain ⟨input, -, hhas⟩ := hacc.hasRow hk
              have hsome := findEmail_isSome hhas
              rw [hrow] at hsome
              cases hsome
  | sendingDrawn | sendingPublished | nackClock => exact hkeep
  | @processed item r =>
      have hcompleted (hfinal : FinalResult item.attempt r) :
          Completed i item.id (calls ++ [(i, ⟨w, .process item.envelope, r, heard⟩)]) :=
        ⟨item.attempt, r, hkeep.1, did_snoc_self.mpr (.inr rfl), hfinal⟩
      cases r with
      | ok senderName => exact ⟨hcompleted trivial, hkeep.2⟩
      | error e =>
          simp only [TurnStage.afterProcess]
          split
          · exact ⟨hcompleted ‹_›, hkeep.2⟩
          · exact hkeep
  | @acked item outcome | @removed item outcome => cases outcome <;> trivial

theorem deleteEntry_moves {job : Job} {st st' : Stage} (hop : op = .deleteEntry token) (hm : JobMoves a job st op r st') :
    (∃ item outcome, st = .turn (.acking item outcome) ∧ item.token = token ∧ a.queue ≠ .memory) ∨
      ∃ row, st = .turn (.orphaned row) ∧ row.entryId = token := by
  subst hop
  cases hm with
  | submit hm => cases hm
  | turn hm =>
      cases hm with
      | orphanDeleted => exact .inr ⟨_, rfl, rfl⟩
      | acked hq | ackFailed hq => exact .inl ⟨_, _, rfl, rfl, hq⟩
  | sweep hm => cases hm

theorem removePending_moves {job : Job} {st st' : Stage} (hop : op = .removePending token)
    (hm : JobMoves a job st op r st') :
    ∃ item outcome, st = .turn (.acking item outcome) ∧ item.token = token ∧ a.queue = .memory := by
  subst hop
  cases hm with
  | submit hm => cases hm
  | turn hm => cases hm <;> exact ⟨_, _, rfl, rfl, ‹_›⟩
  | sweep hm => cases hm

theorem Survival.snoc {st st' : Stage} (h : Survival jobs w calls) (hacc : Accepted jobs w calls)
    (hp : Performs w op w' r) (hm : JobMoves a (jobs i) st op r st') (ht : SurvivalTask a jobs i st w calls) :
    Survival jobs w' (calls ++ [(i, ⟨w, op, r, heard⟩)]) := by
  refine ⟨fun {id} hown hseen => ?_, hp.entriesFresh h.entries, ?_⟩
  · rcases seen_snoc.mp hseen with hseen | henq
    · rcases h.accounted hown hseen with hout | ⟨k, hk⟩
      · rcases hp.outstanding_kept h.entries h.tokens hout with hout | ⟨e, he, hop, rfl⟩ | ⟨p, hmem, hop, rfl⟩ | ⟨-, hnone⟩
        · exact .inl hout
        · rcases deleteEntry_moves hop hm with ⟨item, outcome, rfl, htok, hq⟩ | ⟨row, rfl, htok⟩
          · have hid := (ht.2.entry hq).2 e he htok.symm
            exact .inr ⟨i, hid ▸ ht.1.append _⟩
          · have hid := (ht.2.2.entry ht.1).2 e he htok.symm
            exact absurd (hid ▸ hseen) (ht.2.1 (hid ▸ hown)).2
        · obtain ⟨item, outcome, rfl, htok, hq⟩ := removePending_moves hop hm
          have hid := (ht.2.item hq).2 p hmem htok.symm
          exact .inr ⟨i, hid ▸ ht.1.append _⟩
        · obtain ⟨k, hk⟩ := hseen
          obtain ⟨input, -, hhas⟩ := hacc.hasRow hk
          have hsome := findEmail_isSome hhas
          rw [hnone] at hsome
          cases hsome
      · exact .inr ⟨k, hk.append _⟩
    · exact .inl (outstanding_of_enqueued hp henq)
  · rcases hp.memory with hm | hm
    · rw [hm]
      exact h.tokens
    · exact hm.tokensFresh h.tokens

theorem Survival.drift {e : Drift} (h : Survival jobs w calls) (hd : Drifts w e w') : Survival jobs w' calls := by
  refine ⟨fun hown hseen => (h.accounted hown hseen).imp_left hd.outstanding_iff.mpr, ?_, ?_⟩
  · exact ⟨hd.queue ▸ h.entries.nodup, by rw [hd.queue, hd.lastUuid]; exact h.entries.drawn⟩
  · cases hd with
    | tick => exact h.tokens
    | wake hw =>
        obtain ⟨wake, item, -, -, rfl⟩ := MemoryQueue.wakeUp_eq_some hw
        exact ⟨h.tokens.nodup, h.tokens.issued⟩

theorem survival_keeps (hd : DistinctIds jobs) {s : System ι} {act : Act ι} (h : (survival a jobs).Holds s) :
    (survival a jobs).Keeps machine s act := by
  have hacc := h.left.left
  have hkeeps : (acceptance a jobs).Keeps machine s act := acceptance_keeps hd hacc
  have hheld := hkeeps.and
    (Pool.Outline.Keeps.extends (custody_keeps hd hacc h.left.right))
  refine hheld.and ?_
  exact {
    shared := fun hl hm ht => h.1.2.snoc hacc.1 (lands_performs hl) hm ht.2
    own := by
      intro i op w r st st' hl hm ht
      have hmoves : JobMoves a (jobs i) st op r st' := hm
      obtain ⟨⟨-, hcust⟩, htask⟩ := ht
      clear hm
      generalize jobs i = job at hmoves
      cases hmoves with
      | turn hturn => exact SurvivalAt.step h.1.2 hacc.1 hcust htask (lands_performs hl) (fresh_enqueue hd hacc hl) hturn
      | submit | sweep => trivial
    other := by
      intro i op w r heard st st' hl hm ht j stj p hji _ _ htj
      cases stj with
      | turn stj => exact SurvivalAt.keep htj (lands_performs hl) (fresh_enqueue hd hacc hl)
      | submit | sweep => trivial
    drift := by
      intro e w hdrift
      refine ⟨h.1.2.drift (drifts hdrift), fun {j stj} hj => ?_⟩
      cases stj with
      | turn stj => exact SurvivalAt.drift hj (drifts hdrift)
      | submit | sweep => trivial }

theorem survival_start (hw : Ready jobs w) (hv : Vacant jobs w) (he : w.EntriesFresh) (ht : w.memory.TokensFresh) :
    (survival a jobs).Holds (System.start a w jobs) := by
  refine holds_start (fun i => program_follows (jobs i))
    ⟨⟨(acceptance_start (a := a) hw).1, (custody_start (a := a) hv).1⟩, fun _ hseen => absurd hseen seen_nil, he, ht⟩
    fun i => ⟨⟨acceptedTask_start hw i, custodyTask_start (jobs i)⟩, ?_⟩
  cases jobs i <;> trivial

/-- No accepted email is lost over SQLite, Postgres or the memory queue: it is in the queue until
a turn that it was handed to has had a final result of the use case. A turn that crashes is
abandoned, while the shared state stays; a restart of the process would lose the memory queue. -/
theorem enqueued_survives [DecidableEq ι] {as : List (Act ι)} {s : System ι} (hw : Ready jobs w) (hv : Vacant jobs w)
    (he : w.EntriesFresh) (ht : w.memory.TokensFresh) (hr : Reaches a w jobs as s) (hown : Own jobs id)
    (henq : Seen (Enqueued id) s.calls) : s.world.Outstanding id ∨ ∃ i, Completed i id s.calls :=
  (Pool.run_invariant (fun h hs => Pool.Outline.step h (survival_keeps hw.distinct) hs)
    (survival_start hw hv he ht) hr).1.2.accounted hown henq

/-- The first turn is abandoned after the use case, the second one acks. -/
def crashedOnce : List (Act Nat) :=
  enqueuing ++ executing 1 2 (.error (.render "unclosed tag")) ++ crashing 1 ++ executing 2 4 (.ok ⟨"smtp"⟩) ++ [.step 2 {}]

theorem crashed_email_survives : ∃ s, Reaches sqliteOnly .empty attachedEmail crashedOnce s ∧ s.world.queue = [] ∧
    (s.world.Outstanding ⟨1⟩ ∨ ∃ i, Completed i ⟨1⟩ s.calls) := by
  have hrun : ∃ s, Reaches sqliteOnly .empty attachedEmail crashedOnce s ∧ s.world.queue = [] ∧
      Seen (Enqueued ⟨1⟩) s.calls := ⟨_, rfl, rfl, by decide⟩
  obtain ⟨s, hr, hnone, hseen⟩ := hrun
  exact ⟨s, hr, hnone, enqueued_survives attachedEmail_ready (vacant_empty _) entriesFresh_empty
    ⟨List.nodup_nil, fun p hp => (by cases hp)⟩ hr ⟨0, _, rfl⟩ hseen⟩

end Catapulte
