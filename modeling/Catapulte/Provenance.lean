import Catapulte.Collection

namespace Catapulte

open Async

variable {ι : Type} {a : Adapters} {d : Duration} {jobs : ι → Job} {w w' : World}
  {calls : List (ι × Call Sys World)} {i j : ι} {id : EmailId} {blob : BlobRef} {bytes : List UInt8}
  {refs : List AttachmentRef} {op : Effect} {r : op.Reply} {heard : Bool}

def wrote : Call Sys World → Option (BlobRef × List UInt8)
  | ⟨_, .putBlob _ reader, .ok result, _⟩ => some (result.blob, reader)
  | _ => none

abbrev Wrote (blob : BlobRef) (bytes : List UInt8) (c : Call Sys World) : Prop := wrote c = some (blob, bytes)

/-- An email whose enqueue returned `Ok` and that was not acknowledged refers to the blob,
or a submission between its put and its enqueue has stored it. -/
def Awaited (jobs : ι → Job) (s : System ι) (blob : BlobRef) : Prop :=
  (∃ id, Seen (Enqueued id) s.calls ∧ s.world.Outstanding id ∧ s.world.RefersTo id blob) ∨
    ∃ i id input, jobs i = .submit id input ∧ Running s i ∧ Did (Stored blob) i s.calls ∧
      ¬ Did (Enqueued id) i s.calls ∧ ¬ Did HasFailed i s.calls

/-- Every blob that is awaited is stored, with the bytes that were put. -/
def AwaitedStored (jobs : ι → Job) (s : System ι) : Prop :=
  ∀ blob, Awaited jobs s blob → ∃ b ∈ s.world.blobs, b.ref = blob ∧ Seen (Wrote blob b.bytes) s.calls

/-- The submission of the email stored what the refs list. -/
def Genuine (jobs : ι → Job) (id : EmailId) (refs : List AttachmentRef) (calls : List (ι × Call Sys World)) : Prop :=
  ∀ ref ∈ refs, ∃ i input, jobs i = .submit id input ∧ Did (Stored ref.blob) i calls

def ProvenanceAt (jobs : ι → Job) : TurnStage → List (ι × Call Sys World) → Prop
  | .polling, _ | .claiming _, _ | .closing .., _ | .closingDrawn .., _ | .ended, _ => True
  | .reading row, _ | .orphaned row, _ => Own jobs row.emailId
  | .sending item, calls | .sendingDrawn item _, calls | .executing item, calls | .acking item _, calls
  | .nacking item _, calls | .leasing item _ _, calls | .clearing item _, calls =>
      Genuine jobs item.id item.envelope.attachments calls
  | .cleaning item _ refs, calls => Genuine jobs item.id refs calls

def ProvenanceTask (jobs : ι → Job) : Stage → World → List (ι × Call Sys World) → Prop
  | .turn st, _, calls => ProvenanceAt jobs st calls
  | _, _, _ => True

def provenance (a : Adapters) (d : Duration) (jobs : ι → Job) : Outlines ι :=
  (collection a d jobs).and (fun _ _ => True) fun _ => ProvenanceTask jobs

theorem Genuine.append (h : Genuine jobs id refs calls) (calls' : List (ι × Call Sys World)) :
    Genuine jobs id refs (calls ++ calls') := by
  intro ref href
  obtain ⟨i, input, hi, hd⟩ := h ref href
  exact ⟨i, input, hi, hd.append _⟩

theorem ProvenanceAt.append {st : TurnStage} (h : ProvenanceAt jobs st calls) (calls' : List (ι × Call Sys World)) :
    ProvenanceAt jobs st (calls ++ calls') := by
  cases st with
  | polling | claiming | closing | closingDrawn | ended => trivial
  | reading | orphaned => exact h
  | sending | sendingDrawn | executing | acking | nacking | leasing | clearing | cleaning => exact Genuine.append h _

theorem genuine_of_row (hr : Retention jobs w calls) (hown : Own jobs id) {row : EmailRow}
    (hrow : w.findEmail id = some row) : Genuine jobs id row.envelope.attachments calls := by
  unfold World.findEmail at hrow
  have hid := List.find?_some hrow
  rw [decide_eq_true_eq] at hid
  exact fun ref href => hr.storedBy hown (.inl ⟨row, List.mem_of_find?_eq_some hrow, hid, ref, href, rfl⟩)

theorem genuine_of_recv (hr : Retention jobs w calls) {memory : MemoryQueue} {item : DequeuedEmail}
    (hrecv : w.memory.recv = some (memory, item)) : Genuine jobs item.id item.envelope.attachments calls := by
  obtain ⟨x, channel, hch, rfl, -⟩ := MemoryQueue.recv_eq_some hrecv
  have hmem : x ∈ w.memory.items := by
    simp [MemoryQueue.items, hch]
  have hout : w.Outstanding x.id := .inr (List.count_pos_iff.mpr (List.mem_map_of_mem hmem))
  exact fun ref href => hr.storedBy (hr.own hout) (.inr ⟨x, hmem, rfl, ref, href, rfl⟩)

theorem ProvenanceAt.step {st st' : TurnStage} (hr : Retention jobs w calls) (h : ProvenanceAt jobs st calls)
    (hp : Performs w op w' r) (hm : TurnMoves a st op r st') :
    ProvenanceAt jobs st' (calls ++ [(i, ⟨w, op, r, heard⟩)]) := by
  have happend {c : ι × Call Sys World} (h : ProvenanceAt jobs st' calls) : ProvenanceAt jobs st' (calls ++ [c]) :=
    h.append _
  cases hm with
  | clock | recvFailed | claimFailed | commitFailed | readFailed | orphanDeleted | ackFailed
  | removeFailed | leaseFailed | requeueFailed | leased | requeued | sentDrawn | closingDrawn | closed => trivial
  | received =>
      cases hp with
      | recv hrecv => exact Genuine.append (genuine_of_recv hr hrecv) _
  | @claimed now r =>
      cases hp with
      | claimNone hn hs => cases hs; trivial
      | @claimNext _ _ e _ _ he hf hs =>
          cases hs with
          | ok =>
              simp only [TurnStage.afterClaim]
              split
              · exact hr.own (.inl ⟨e, he, rfl⟩)
              · trivial
  | @committed now r =>
      cases hp with
      | transactionNone hn hs => cases hs; trivial
      | @claimTransaction _ _ e _ _ he hf hs =>
          cases hrow : w.findEmail e.emailId with
          | none =>
              simp only [World.claimInTransaction, hrow] at hs
              cases hs
              trivial
          | some row =>
              simp only [World.claimInTransaction, hrow] at hs
              cases hs
              exact Genuine.append (genuine_of_row hr (hr.own (.inl ⟨e, he, rfl⟩)) hrow) _
  | @read row r =>
      cases hp with
      | selectEmail =>
          cases hrow : w.findEmail row.emailId with
          | none => exact h
          | some _ => exact Genuine.append (genuine_of_row hr h hrow) _
  | sendingDrawn | sendingPublished | nackClock | cleared => exact Genuine.append h _
  | @processed item r =>
      cases r with
      | ok senderName => exact Genuine.append h _
      | error e =>
          simp only [TurnStage.afterProcess]
          split <;> exact Genuine.append h _
  | @acked item outcome | @removed item outcome =>
      cases outcome with
      | sent senderName => exact Genuine.append h _
      | failed e | retrying e => trivial
  | cleaned => exact Genuine.append (fun ref href => h ref (List.mem_cons_of_mem _ href)) _

theorem provenance_keeps (hd : DistinctIds jobs) {s : System ι} {act : Act ι} (htimely : Timely a d s)
    (hfresh : SnapshotFresh d s act) (h : (provenance a d jobs).Holds s) : (provenance a d jobs).Keeps machine s act := by
  refine (collection_keeps hd htimely hfresh h.left).and ?_
  exact {
    shared := fun _ _ _ => trivial
    own := by
      intro i op w r st st' hl hm ht
      have hmoves : JobMoves a (jobs i) st op r st' := hm
      have htask := ht.2
      clear hm ht
      generalize jobs i = job at hmoves
      cases hmoves with
      | turn hturn => exact ProvenanceAt.step h.1.1.1.2 htask (lands_performs hl) hturn
      | submit | sweep => trivial
    other := by
      intro i op w r heard st st' hl hm ht j stj p hji _ _ htj
      cases stj with
      | turn stj => exact ProvenanceAt.append htj _
      | submit | sweep => trivial
    drift := by
      intro e w hdrift
      refine ⟨trivial, fun {j stj} hj => ?_⟩
      cases stj <;> exact hj }

theorem provenance_start (hw : Ready jobs w) (hv : Vacant jobs w) (hk : w.KeysIssued) (hb : w.BlobsIssued)
    (ho : ∀ id, ¬ w.Outstanding id) : (provenance a d jobs).Holds (System.start a w jobs) := by
  have hstart := collection_start (a := a) (d := d) hw hv hk hb ho
  refine holds_start (fun i => program_follows (jobs i)) ⟨hstart.1, trivial⟩ fun i => ⟨hstart.2 i, ?_⟩
  cases jobs i <;> trivial

theorem Awaited.needed {s : System ι} (h : Awaited jobs s blob) : Needed jobs s blob :=
  h.imp_left fun ⟨id, _, hout, hrefers⟩ => ⟨id, hout, hrefers⟩

theorem awaited_of_lands (hd : DistinctIds jobs) {s s' : System ι} [DecidableEq ι] {act : Act ι} {c : Call Sys World}
    (h : (retention a jobs).Holds s) (hs : Pool.Step machine s act s') (hc : s'.calls = s.calls ++ [(i, c)])
    (hn : Awaited jobs s' blob) : Awaited jobs s blob ∨ Stored blob c := by
  obtain ⟨before, op, r, heard⟩ := c
  have hl := Pool.step_lands hs hc
  obtain rfl : before = s.world := Pool.before_of_step hs hc
  have hp : Performs s.world op s'.world r := lands_performs hl
  obtain ⟨st, st', hm, ht⟩ : ∃ st st', JobMoves a (jobs i) st op r st' ∧ (retention a jobs).task i st s.world s.calls := by
    obtain ⟨next, _, htask, -, -⟩ := hl
    obtain ⟨st, hf, ht⟩ := h.2 i _ htask
    obtain ⟨st', hm, -⟩ := hf r
    exact ⟨st, st', hm, ht⟩
  -- The submission of the call was about to enqueue the email.
  have hopen {id : EmailId} {input : SubmitEmailInput} {refs : List AttachmentRef} {patched : Bool}
      (hi : jobs i = .submit id input) (hst : st = .submit (.reserved refs patched)) (hstored : Did (Stored blob) i s.calls) :
      Awaited jobs s blob := by
    subst hst
    obtain ⟨-, hnot, hfail⟩ := ht.1.1.1 hi
    exact .inr ⟨i, id, input, hi, lands_running hl, hstored,
      fun henq => hnot (henq.mono fun _ => offered_of_enqueued), hfail⟩
  rcases hn with ⟨id, henq, hout, hrefers⟩ | ⟨j, id, input, hj, hrunning, hstored, hnot, hfail⟩
  · by_cases hop : op.Enqueues id
    · obtain ⟨⟨input, refs, patched, hi, hst⟩, -⟩ := enqueue_moves hop hm
      have hby : ∃ k input', jobs k = .submit id input' ∧ Did (Stored blob) k
          (s.calls ++ [(i, ⟨s.world, op, r, heard⟩)]) :=
        h.1.2.storedBy_snoc hp hm ht.1.2 ⟨i, input, hi⟩ hrefers
      obtain ⟨k, input', hk, hstored⟩ := hby
      obtain rfl := hd hk hi
      rcases did_snoc_self.mp hstored with hstored | hnew
      · exact .inl (hopen hi hst hstored)
      · exact .inr hnew
    · have hbefore := hp.outstanding hop hout
      rw [hc] at henq
      have henq := (seen_snoc.mp henq).resolve_right fun h => hop (enqueues_of_offered (offered_of_enqueued h))
      rcases hp.refersTo_of hrefers with hrefers | ⟨envelope, hins, ref, href, rfl⟩ | ⟨refs, hset, ref, href, rfl⟩
      · exact .inl (.inl ⟨id, henq, hbefore, hrefers⟩)
      · rcases or_assoc.mpr hins with hins | rfl
        · obtain ⟨input, -, -, rfl⟩ := insert_moves hins hm
          cases href
        · exact absurd rfl hop
      · rcases set_moves hset hm with ⟨rfl, -⟩ | ⟨input, hi, hst⟩
        · cases href
        · refine .inl (hopen hi hst ?_)
          subst hst
          exact (ht.1.2 ref.blob).mpr ⟨ref, href, rfl⟩
  · rw [hc] at hstored hnot hfail
    rcases did_snoc.mp hstored with hstored | ⟨-, hnew⟩
    · exact .inl (.inr ⟨j, id, input, hj, running_of_step hs hrunning, hstored, fun hd => hnot (hd.append _),
        fun hd => hfail (hd.append _)⟩)
    · exact .inr hnew

theorem awaited_of_still [DecidableEq ι] {s s' : System ι} {act : Act ι} (hs : Pool.Step machine s act s')
    (hc : s'.calls = s.calls) (hn : Awaited jobs s' blob) : Awaited jobs s blob := by
  rcases hn with ⟨id, henq, hout, hrefers⟩ | ⟨j, id, input, hj, hrunning, hstored, hnot, hfail⟩
  · rcases Pool.world_of_step hs hc with hw | ⟨e, hdrift⟩
    · exact .inl ⟨id, hc ▸ henq, hw ▸ hout, hw ▸ hrefers⟩
    · exact .inl ⟨id, hc ▸ henq, (drifts hdrift).outstanding_iff.mp hout, (drifts hdrift).refersTo_of hrefers⟩
  · rw [hc] at hstored hnot hfail
    exact .inr ⟨j, id, input, hj, running_of_step hs hrunning, hstored, hnot, hfail⟩

theorem Relinquished.not_needed (hd : DistinctIds jobs) {s : System ι} {input : SubmitEmailInput}
    (h : (retention a jobs).Holds s) (hj : jobs j = .submit id input) (hstored : Did (Stored blob) j s.calls)
    (hrel : Relinquished jobs id s.world s.calls) : ¬ Needed jobs s blob := by
  intro hn
  obtain ⟨k, id', input', hk, hstored', hnrel, -⟩ := hn.stored hd h
  obtain rfl := (records_ownership h.left).1.distinct hstored hstored'
  cases hj.symm.trans hk
  exact hnrel hrel

theorem not_awaited_of_undoing (hd : DistinctIds jobs) {s : System ι} {input : SubmitEmailInput} {e : SubmitEmailError}
    (h : (retention a jobs).Holds s) (hi : jobs i = .submit id input) (hstored : Did (Stored blob) i s.calls)
    (ha : AcceptedAt i id input (.undoing refs e) s.world s.calls) : ¬ Awaited jobs s blob := by
  rintro (⟨id', ⟨k, hk⟩, hout, hrefers⟩ | ⟨j, id', input', hj, -, hstored', -, hfail⟩)
  · have hret := h.1.2
    obtain ⟨j, input', hj, hstored'⟩ := hret.storedBy (hret.own hout) hrefers
    obtain rfl := (records_ownership h.left).1.distinct hstored hstored'
    cases hi.symm.trans hj
    obtain ⟨input', hjob, -⟩ := (records_acceptance h.left).1.hasRow hk
    obtain rfl := hd hjob hi
    exact ha.1 hk
  · obtain rfl := (records_ownership h.left).1.distinct hstored hstored'
    exact hfail ha.2

theorem delete_moves {job : Job} {st st' : Stage} (hop : op = .deleteBlob blob) (hm : JobMoves a job st op r st') :
    (∃ id input ref refs e, job = .submit id input ∧ st = .submit (.undoing (ref :: refs) e) ∧ ref.blob = blob) ∨
      (∃ item senderName ref refs, st = .turn (.cleaning item senderName (ref :: refs)) ∧ ref.blob = blob) ∨
        ∃ live key keys, st = .sweep (.deleting live key keys) ∧ blob = ⟨"fs", key⟩ := by
  subst hop
  cases hm with
  | submit hm => cases hm; exact .inl ⟨_, _, _, _, _, rfl, rfl, rfl⟩
  | turn hm => cases hm; exact .inr (.inl ⟨_, _, _, _, rfl, rfl⟩)
  | sweep hm => cases hm; exact .inr (.inr ⟨_, _, _, rfl, rfl⟩)

theorem not_awaited_of_delete (hd : DistinctIds jobs) {s : System ι} {act : Act ι} {b : Blob}
    (h : (provenance a d jobs).Holds s) (htimely : Timely a d s) (hop : op = .deleteBlob b.ref)
    (hl : Pool.Lands machine s act i op w r heard) (hb : b ∈ s.world.blobs) : ¬ Awaited jobs s b.ref := by
  obtain ⟨next, c, htask, -, -⟩ := hl
  obtain ⟨st, hf, ht⟩ := h.2 i _ htask
  obtain ⟨st', hm, -⟩ := hf r
  have hret := h.left.left
  rcases delete_moves hop hm with ⟨id, input, ref, refs, e, hi, rfl, href⟩ | ⟨item, senderName, ref, refs, rfl, href⟩ |
    ⟨live, key, keys, rfl, href⟩
  · have hstored : Did (Stored ref.blob) i s.calls := ht.1.1.1.2 ref List.mem_cons_self
    exact not_awaited_of_undoing hd hret hi (href ▸ hstored) (ht.1.1.1.1.1 hi)
  · have hreleased : Released jobs item.id s.world s.calls := ht.1.1.1.1.2
    obtain ⟨k, input, hk, hstored⟩ := ht.2 ref List.mem_cons_self
    exact fun hn => Relinquished.not_needed hd hret hk (href ▸ hstored) (.inl hreleased) hn.needed
  · exact fun hn => Expired.not_needed hd h.left htimely ht.1.2.2.2.1 hb href hn.needed

theorem Performs.blobs_kept (h : Performs w op w' r) {b : Blob} (hb : b ∈ w.blobs) :
    b ∈ w'.blobs ∨ op = .deleteBlob b.ref := by
  rcases h.blobs with ⟨he, -⟩ | hw
  · exact .inl (he ▸ hb)
  · cases hw with
    | put => exact .inl (List.mem_append_left _ hb)
    | @delete gone =>
        by_cases hne : b.ref = gone
        · exact .inr (by rw [hne])
        · exact .inl (List.mem_filter.mpr ⟨hb, decide_eq_true hne⟩)

theorem written_of_stored (hp : Performs w op w' r) (hs : Stored blob ⟨w, op, r, heard⟩) :
    ∃ b ∈ w'.blobs, b.ref = blob ∧ Wrote blob b.bytes ⟨w, op, r, heard⟩ := by
  cases hp with
  | putBlob hkey hstamp h =>
      cases h with
      | ok => cases hs; exact ⟨_, List.mem_append_right _ (List.mem_singleton_self _), rfl, rfl⟩
      | failed | landed => cases hs
  | _ => cases hs

theorem AwaitedStored.step [DecidableEq ι] (hd : DistinctIds jobs) {s s' : System ι} {act : Act ι}
    (h : (provenance a d jobs).Holds s) (htimely : Timely a d s) (hs : Pool.Step machine s act s')
    (hstored : AwaitedStored jobs s) : AwaitedStored jobs s' := by
  intro blob hn
  rcases Pool.step_calls hs with hc | ⟨⟨i, c⟩, hc⟩
  · obtain ⟨b, hb, href, hwrote⟩ := hstored _ (awaited_of_still hs hc hn)
    rw [hc]
    rcases Pool.world_of_step hs hc with hw | ⟨e, hdrift⟩
    · exact ⟨b, hw ▸ hb, href, hwrote⟩
    · exact ⟨b, (drifts hdrift).blobs.1 ▸ hb, href, hwrote⟩
  · have hl := Pool.step_lands hs hc
    rcases awaited_of_lands hd h.left.left hs hc hn with hbefore | hnew
    · obtain ⟨b, hb, rfl, hwrote⟩ := hstored _ hbefore
      refine ⟨b, ?_, rfl, hc ▸ hwrote.append _⟩
      refine ((lands_performs hl).blobs_kept hb).resolve_right fun hop => ?_
      exact not_awaited_of_delete hd h htimely hop hl hb hbefore
    · obtain ⟨before, op, r, heard⟩ := c
      obtain rfl : before = s.world := Pool.before_of_step hs hc
      obtain ⟨b, hb, href, hwrote⟩ := written_of_stored (lands_performs hl) hnew
      exact ⟨b, hb, href, hc ▸ seen_snoc.mpr (.inr hwrote)⟩

/-- As long as the submissions commit their attachments in time and the sweeps compare ages soon
after their snapshots, every enqueued email that is not yet acknowledged finds its attachments. -/
theorem needed_blobs_stored [DecidableEq ι] {as : List (Act ι)} {s : System ι} (hw : Ready jobs w) (hv : Vacant jobs w)
    (hk : w.KeysIssued) (hb : w.BlobsIssued) (ho : ∀ id, ¬ w.Outstanding id)
    (hm : (System.start a w jobs).Meets machine (fun s act => Timely a d s ∧ SnapshotFresh d s act) as)
    (hr : Reaches a w jobs as s) : AwaitedStored jobs s := by
  have hstart : AwaitedStored jobs (System.start a w jobs) := by
    rintro blob (⟨id, -, hout, -⟩ | ⟨j, id, input, -, -, hstored, -⟩)
    · exact absurd hout (ho id)
    · exact absurd hstored did_nil
  refine (Pool.run_preserves (J := fun s => (provenance a d jobs).Holds s ∧ AwaitedStored jobs s) ?_
    ⟨provenance_start hw hv hk hb ho, hstart⟩ hm hr).2
  rintro s act s' ⟨h, hstored⟩ ⟨htimely, hfresh⟩ hs
  exact ⟨Pool.Outline.step h (provenance_keeps hw.distinct htimely hfresh) hs, hstored.step hw.distinct h htimely hs⟩

/-- The attachment of the submission beside the sweep is there when its email is queued. -/
theorem needed_blob_stored : ∃ s, Reaches ⟨.sqlite, .sqlite, .fromSecs 3600⟩ littered submitAndSweep sweepBetween s ∧
    Awaited submitAndSweep s ⟨"fs", "a1"⟩ ∧ AwaitedStored submitAndSweep s := by
  refine ⟨_, rfl, .inl ⟨⟨1⟩, by decide, .inl ⟨_, List.mem_singleton_self _, rfl⟩, .inl ⟨_, List.mem_singleton_self _, rfl, _,
    List.mem_singleton_self _, rfl⟩⟩, ?_⟩
  refine needed_blobs_stored (d := .fromSecs 1) (ready_of_no_emails distinct_submitAndSweep rfl)
    ⟨fun _ => idle_littered _, fun row hrow => (by cases hrow)⟩ (fun row hrow => (by cases hrow)) (by decide) idle_littered ?_
    (rfl : Reaches ⟨.sqlite, .sqlite, .fromSecs 3600⟩ littered submitAndSweep sweepBetween _)
  decide

end Catapulte
