import Catapulte.Custody
import Catapulte.Ownership

namespace Catapulte

open Async

variable {ι : Type} {a : Adapters} {jobs : ι → Job} {w w' : World}
  {calls : List (ι × Call Sys World)} {i j : ι} {id : EmailId} {blob : BlobRef}
  {input : SubmitEmailInput} {op : Effect} {r : op.Reply} {heard : Bool}

def patched : Call Sys World → Bool
  | ⟨_, .setAttachments .., .ok (), _⟩ => true
  | _ => false

abbrev Patched (c : Call Sys World) : Prop := patched c = true

def World.RowLists (w : World) (id : EmailId) (blob : BlobRef) : Prop :=
  ∃ row ∈ w.emails, row.id = id ∧ ∃ ref ∈ row.envelope.attachments, ref.blob = blob

/-- The email refers to the blob, in its row or in the item of the memory queue. -/
def World.RefersTo (w : World) (id : EmailId) (blob : BlobRef) : Prop :=
  w.RowLists id blob ∨ ∃ item ∈ w.memory.items, item.id = id ∧ ∃ ref ∈ item.envelope.attachments, ref.blob = blob

/-- The submission failed and left no entry, and it does not go on to enqueue its email. -/
def Withdrawn (jobs : ι → Job) (id : EmailId) (w : World) (calls : List (ι × Call Sys World)) : Prop :=
  (∃ i input, jobs i = .submit id input ∧ Did HasFailed i calls) ∧ ¬ w.Outstanding id

/-- The email needs its blobs no more. -/
def Relinquished (jobs : ι → Job) (id : EmailId) (w : World) (calls : List (ι × Call Sys World)) : Prop :=
  Released jobs id w calls ∨ Withdrawn jobs id w calls

structure Retention (jobs : ι → Job) (w : World) (calls : List (ι × Call Sys World)) : Prop where
  own : ∀ {id}, w.Outstanding id → Own jobs id
  patched : ∀ {i id blob}, Did (Offered id) i calls → Did (Stored blob) i calls → Did Patched i calls
  listed : ∀ {i id input blob}, jobs i = .submit id input → Did Patched i calls → Did (Stored blob) i calls →
    w.RowLists id blob ∨ Relinquished jobs id w calls
  storedBy : ∀ {id blob}, Own jobs id → w.RefersTo id blob →
    ∃ i input, jobs i = .submit id input ∧ Did (Stored blob) i calls
  shelved : ∀ b ∈ w.blobs, b.ref.key ∈ w.issued

def RetentionTask (i : ι) : Stage → World → List (ι × Call Sys World) → Prop
  | .submit (.reserved _ patched), _, calls => Did Patched i calls ↔ patched = true
  | _, _, _ => True

/-- The outlines of acceptance, custody and ownership at the same stages. -/
def records (a : Adapters) (jobs : ι → Job) : Outlines ι :=
  ((acceptance a jobs).and (Custody a jobs) (CustodyTask a jobs)).and (Ownership jobs) OwnershipTask

def retention (a : Adapters) (jobs : ι → Job) : Outlines ι := (records a jobs).and (Retention jobs) RetentionTask

/-- The stored blobs are under keys that were handed out. -/
def World.BlobsIssued (w : World) : Prop := ∀ b ∈ w.blobs, b.ref.key ∈ w.issued

instance (w : World) : Decidable w.BlobsIssued := inferInstanceAs (Decidable (∀ b ∈ w.blobs, _))

theorem records_acceptance {s : System ι} (h : (records a jobs).Holds s) : (acceptance a jobs).Holds s := h.left.left

theorem records_custody {s : System ι} (h : (records a jobs).Holds s) : (custody a jobs).Holds s := h.left.right

theorem records_ownership {s : System ι} (h : (records a jobs).Holds s) : (ownership a jobs).Holds s := h.right

theorem records_keeps (hd : DistinctIds jobs) {s : System ι} {act : Act ι} (h : (records a jobs).Holds s) :
    (records a jobs).Keeps machine s act :=
  ((acceptance_keeps hd (records_acceptance h)).and
    (Pool.Outline.Keeps.extends (custody_keeps hd (records_acceptance h) (records_custody h)))).and
    (Pool.Outline.Keeps.extends (ownership_keeps (records_ownership h)))

theorem did_of_not_done (h : ¬ Did (fun _ => True) i calls) (P : Call Sys World → Prop) : ¬ Did P i calls :=
  fun hd => h (hd.mono fun _ _ => trivial)

theorem moves_of_submit {job : Job} {st : SubmitStage} {st' : Stage} (hm : JobMoves a job (.submit st) op r st') :
    ∃ id input st'', job = .submit id input ∧ st' = .submit st'' ∧ SubmitMoves a id input st op r st'' := by
  cases hm with
  | submit hm => exact ⟨_, _, _, rfl, rfl, hm⟩

theorem set_moves {job : Job} {st st' : Stage} {refs : List AttachmentRef} (hop : op = .setAttachments id refs)
    (hm : JobMoves a job st op r st') :
    (refs = [] ∧ ∃ item senderName, item.id = id ∧ st = .turn (.clearing item senderName)) ∨
      ∃ input, job = .submit id input ∧ st = .submit (.reserved refs false) := by
  subst hop
  cases hm with
  | submit hm => cases hm <;> exact .inr ⟨_, rfl, rfl⟩
  | turn hm => cases hm; exact .inl ⟨rfl, _, _, rfl, rfl⟩
  | sweep hm => cases hm

theorem patched_moves {job : Job} {st st' : Stage} (hm : JobMoves a job st op r st')
    (h : Offered id ⟨w, op, r, heard⟩) :
    ∃ refs patched, st = .submit (.reserved refs patched) ∧ (patched = true ∨ refs = []) := by
  cases hm with
  | submit hm =>
      cases hm with
      | enqueued _ hp | enqueueFailed _ hp | sent _ hp => exact ⟨_, _, rfl, hp⟩
      | _ => cases h
  | turn hm => cases hm <;> cases h
  | sweep hm => cases hm <;> cases h

theorem stored_moves {job : Job} {st st' : Stage} (hm : JobMoves a job st op r st')
    (h : Stored blob ⟨w, op, r, heard⟩) :
    (∃ id input, job = .submit id input) ∧ ∃ refs, st = .submit (.reserved refs false) := by
  cases hm with
  | submit hm =>
      cases hm with
      | stored => exact ⟨⟨_, _, rfl⟩, _, rfl⟩
      | _ => cases h
  | turn hm => cases hm <;> cases h
  | sweep hm => cases hm <;> cases h

theorem commit_moves {st st' : Stage} (hm : JobMoves a (.submit id input) st op r st') (hp : Performs w op w' r)
    (h : Patched ⟨w, op, r, heard⟩) : ∃ refs row, st = .submit (.reserved refs false) ∧
      stored ⟨w, op, r, heard⟩ = none ∧ w.findEmail id = some row ∧ w' = w.setAttachments id refs := by
  cases hm with
  | submit hm =>
      cases hm with
      | patched =>
          cases hp with
          | setAttachments hrow hs => cases hs; exact ⟨_, _, rfl, rfl, hrow, rfl⟩
      | _ => cases h

theorem send_moves {job : Job} {st st' : Stage} {envelope : Envelope} (hop : op = .send id envelope)
    (hm : JobMoves a job st op r st') :
    ∃ input refs patched, job = .submit id input ∧ st = .submit (.reserved refs patched) ∧
      envelope = input.envelope refs := by
  subst hop
  cases hm with
  | submit hm => cases hm <;> exact ⟨_, _, _, rfl, rfl, rfl⟩
  | turn hm => cases hm
  | sweep hm => cases hm

theorem Performs.rowLists (h : Performs w op w' r) (hl : w.RowLists id blob) :
    w'.RowLists id blob ∨ (op = .deleteEmail id ∧ w.referenced id = false) ∨ ∃ refs, op = .setAttachments id refs := by
  obtain ⟨row, hrow, hid, href⟩ := hl
  rcases h.emails with he | hw
  · exact .inl ⟨row, he ▸ hrow, hid, href⟩
  · cases hw with
    | insertOrIgnore | insertOnConflict => exact .inl ⟨row, List.mem_append_left _ hrow, hid, href⟩
    | @deleteEmail id' href' =>
        by_cases hne : row.id = id'
        · obtain rfl : id = id' := hid.symm.trans hne
          exact .inr (.inl ⟨rfl, href'⟩)
        · exact .inl ⟨row, List.mem_filter.mpr ⟨hrow, decide_eq_true hne⟩, hid, href⟩
    | @setAttachments id' refs =>
        by_cases hne : row.id = id'
        · exact .inr (.inr ⟨refs, by rw [← hne, hid]⟩)
        · exact .inl ⟨row, List.mem_map.mpr ⟨row, hrow, if_neg hne⟩, hid, href⟩

theorem rowLists_patched {refs : List AttachmentRef} {row : EmailRow} (hrow : w.findEmail id = some row) {ref : AttachmentRef}
    (href : ref ∈ refs) : (w.setAttachments id refs).RowLists id ref.blob := by
  unfold World.findEmail at hrow
  have hid := List.find?_some hrow
  rw [decide_eq_true_eq] at hid
  exact ⟨_, List.mem_map.mpr ⟨row, List.mem_of_find?_eq_some hrow, if_pos hid⟩, hid, ref, href, rfl⟩

theorem Performs.refersTo_of (h : Performs w op w' r) (hr : w'.RefersTo id blob) : w.RefersTo id blob ∨
    (∃ envelope, (op = .insertOrIgnore id envelope ∨ op = .insertOnConflict id envelope ∨ op = .send id envelope) ∧
      ∃ ref ∈ envelope.attachments, ref.blob = blob) ∨
    ∃ refs, op = .setAttachments id refs ∧ ∃ ref ∈ refs, ref.blob = blob := by
  rcases hr with ⟨row', hrow', rfl, ref, href, rfl⟩ | ⟨item, hitem, rfl, ref, href, rfl⟩
  · rcases h.attachments_of hrow' with ⟨row, hrow, hid, hatt⟩ | ⟨envelope, hop, hatt⟩ | hop
    · exact .inl (.inl ⟨row, hrow, hid, ref, hatt ▸ href, rfl⟩)
    · exact .inr (.inl ⟨envelope, hop.imp_right .inl, ref, hatt ▸ href, rfl⟩)
    · exact .inr (.inr ⟨_, hop, ref, href, rfl⟩)
  · rcases h.memory with hm | hm
    · exact .inl (.inr ⟨item, hm ▸ hitem, rfl, ref, href, rfl⟩)
    · rcases hm.item_of hitem with hitem | hop
      · exact .inl (.inr ⟨item, hitem, rfl, ref, href, rfl⟩)
      · exact .inr (.inl ⟨_, .inr (.inr hop), ref, href, rfl⟩)

theorem Drifts.refersTo_of {e : Drift} (h : Drifts w e w') (hr : w'.RefersTo id blob) : w.RefersTo id blob := by
  rcases hr with ⟨row, hrow, hlists⟩ | ⟨item, hitem, hid, ref, href, hblob⟩
  · exact .inl ⟨row, h.emails ▸ hrow, hlists⟩
  · cases h with
    | tick => exact .inr ⟨item, hitem, hid, ref, href, hblob⟩
    | wake hw =>
        obtain ⟨x, hx, hxid, henv⟩ := MemoryQueue.mem_items_wakeUp hw hitem
        exact .inr ⟨x, hx, hxid.trans hid, ref, henv ▸ href, hblob⟩

theorem Withdrawn.snoc {st st' : Stage} (h : Withdrawn jobs id w calls) (hd : DistinctIds jobs)
    (hp : Performs w op w' r) (hm : JobMoves a (jobs i) st op r st') (ht : AcceptedTask jobs i st w calls) :
    Withdrawn jobs id w' (calls ++ [(i, ⟨w, op, r, heard⟩)]) := by
  obtain ⟨⟨j, input, hj, hfailed⟩, hnot⟩ := h
  refine ⟨⟨j, input, hj, hfailed.append _⟩, fun hout => hnot (hp.outstanding (fun hop => ?_) hout)⟩
  obtain ⟨⟨input', refs, patched, hi, rfl⟩, -⟩ := enqueue_moves hop hm
  obtain rfl := hd hi hj
  exact (ht hi).2.2 hfailed

theorem Relinquished.snoc {st st' : Stage} (h : Relinquished jobs id w calls) (hd : DistinctIds jobs)
    (hp : Performs w op w' r) (hm : JobMoves a (jobs i) st op r st') (ht : AcceptedTask jobs i st w calls)
    (hfresh : ∀ {id}, op.Enqueues id → ¬ Seen (Offered id) calls) :
    Relinquished jobs id w' (calls ++ [(i, ⟨w, op, r, heard⟩)]) := by
  rcases h with h | h
  · exact .inl (h.keep hp fun ho hop => hfresh hop (h ho).1)
  · exact .inr (h.snoc hd hp hm ht)

theorem Relinquished.drift {e : Drift} (h : Relinquished jobs id w calls) (hd : Drifts w e w') :
    Relinquished jobs id w' calls := by
  rcases h with h | h
  · exact .inl fun ho => ⟨(h ho).1, fun hout => (h ho).2 (hd.outstanding_iff.mp hout)⟩
  · exact .inr ⟨h.1, fun hout => h.2 (hd.outstanding_iff.mp hout)⟩

theorem withdrawn_of_deleted {e : SubmitEmailError} (hd : DistinctIds jobs) (hacc : Accepted jobs w calls)
    (hcust : Custody a jobs w calls) (hi : jobs i = .submit id input)
    (ha : AcceptedAt i id input (.undoing [] e) w calls) (href : w.referenced id = false) :
    Withdrawn jobs id w calls := by
  refine ⟨⟨i, input, hi, ha.2⟩, ?_⟩
  rintro (⟨e, he, hid⟩ | hpos)
  · simp only [World.referenced, Bool.or_eq_false_iff, List.any_eq_false, decide_eq_true_eq] at href
    exact href.1 e he hid
  · obtain ⟨k, hk⟩ := hcust.sent ⟨i, input, hi⟩ hpos
    obtain ⟨input', hjob, -⟩ := hacc.hasRow hk
    obtain rfl := hd hjob hi
    exact ha.1 hk

theorem Retention.listed_snoc {st st' : Stage} (h : Retention jobs w calls) (hd : DistinctIds jobs)
    (hcust : Custody a jobs w calls) (hacc : Accepted jobs w calls) (hp : Performs w op w' r)
    (hm : JobMoves a (jobs i) st op r st') (ha : AcceptedTask jobs i st w calls)
    (hc : CustodyTask a jobs i st w calls) (ho : OwnershipTask i st w calls) (ht : RetentionTask i st w calls)
    (hfresh : ∀ {id}, op.Enqueues id → ¬ Seen (Offered id) calls) (hj : jobs j = .submit id input)
    (hpatched : Did Patched j (calls ++ [(i, ⟨w, op, r, heard⟩)]))
    (hstored : Did (Stored blob) j (calls ++ [(i, ⟨w, op, r, heard⟩)])) :
    w'.RowLists id blob ∨ Relinquished jobs id w' (calls ++ [(i, ⟨w, op, r, heard⟩)]) := by
  have hunpatched : ∀ {refs}, st = .submit (.reserved refs false) → ¬ Did Patched i calls := by
    rintro refs rfl hdid
    exact absurd (ht.mp hdid) (by decide)
  rcases did_snoc.mp hpatched with hbefore | ⟨hji, hnew⟩
  · rcases did_snoc.mp hstored with hstored | ⟨rfl, hnew⟩
    · rcases h.listed hj hbefore hstored with hl | hrel
      · rcases hp.rowLists hl with hl | ⟨hop, href⟩ | ⟨refs, hop⟩
        · exact .inl hl
        · obtain ⟨input', e, hi, rfl⟩ := deleteEmail_moves hop hm
          exact .inr (Relinquished.snoc (.inr (withdrawn_of_deleted hd hacc hcust hi (ha hi) href)) hd hp hm ha hfresh)
        · rcases set_moves hop hm with ⟨-, item, senderName, rfl, rfl⟩ | ⟨input', hi, hst⟩
          · exact .inr (Relinquished.snoc (.inl hc) hd hp hm ha hfresh)
          · obtain rfl := hd hi hj
            exact absurd hbefore (hunpatched hst)
      · exact .inr (hrel.snoc hd hp hm ha hfresh)
    · obtain ⟨-, refs, hst⟩ := stored_moves hm hnew
      exact absurd hbefore (hunpatched hst)
  · -- The commit itself lists all that the submission stored.
    subst hji
    rw [hj] at hm
    obtain ⟨refs, row, rfl, hnone, hrow, rfl⟩ := commit_moves hm hp hnew
    have hold : Did (Stored blob) j calls := (did_snoc_self.mp hstored).resolve_right fun hs => by
      rw [Stored, hnone] at hs
      cases hs
    obtain ⟨ref, href, rfl⟩ := (ho blob).mp hold
    exact .inl (rowLists_patched hrow href)

theorem Retention.patched_snoc {st st' : Stage} (h : Retention jobs w calls) (hacc : Accepted jobs w calls)
    (hm : JobMoves a (jobs i) st op r st') (ha : AcceptedTask jobs i st w calls) (ho : OwnershipTask i st w calls)
    (ht : RetentionTask i st w calls) (hoff : Did (Offered id) j (calls ++ [(i, ⟨w, op, r, heard⟩)]))
    (hstored : Did (Stored blob) j (calls ++ [(i, ⟨w, op, r, heard⟩)])) :
    Did Patched j (calls ++ [(i, ⟨w, op, r, heard⟩)]) := by
  rcases did_snoc.mp hoff with hbefore | ⟨hji, hnew⟩
  · rcases did_snoc.mp hstored with hstored | ⟨rfl, hnew⟩
    · exact (h.patched hbefore hstored).append _
    · obtain ⟨-, refs, rfl⟩ := stored_moves hm hnew
      obtain ⟨input, hi⟩ := hacc.offered hbefore
      exact absurd hbefore (ha hi).2.1
  · subst hji
    obtain ⟨refs, patched, rfl, hpatched⟩ := patched_moves hm hnew
    have hold : Did (Stored blob) j calls := by
      refine (did_snoc_self.mp hstored).resolve_right fun hs => ?_
      have hop := enqueues_of_offered hnew
      cases op with
      | putBlob => exact hop
      | _ => cases hs
    obtain ⟨ref, href, -⟩ := (ho blob).mp hold
    refine (ht.mpr (hpatched.resolve_right ?_)).append _
    rintro rfl
    cases href

theorem Retention.storedBy_snoc {st st' : Stage} (h : Retention jobs w calls) (hp : Performs w op w' r)
    (hm : JobMoves a (jobs i) st op r st') (ho : OwnershipTask i st w calls) (hown : Own jobs id)
    (hr : w'.RefersTo id blob) :
    ∃ k input, jobs k = .submit id input ∧ Did (Stored blob) k (calls ++ [(i, ⟨w, op, r, heard⟩)]) := by
  rcases hp.refersTo_of hr with hr | ⟨envelope, hop, ref, href, rfl⟩ | ⟨refs, hop, ref, href, rfl⟩
  · obtain ⟨k, input, hk, hd⟩ := h.storedBy hown hr
    exact ⟨k, input, hk, hd.append _⟩
  · rcases or_assoc.mpr hop with hop | hop
    · obtain ⟨input, -, -, rfl⟩ := insert_moves hop hm
      cases href
    · obtain ⟨input, refs, patched, hi, rfl, rfl⟩ := send_moves hop hm
      exact ⟨i, input, hi, ((ho ref.blob).mpr ⟨ref, href, rfl⟩).append _⟩
  · rcases set_moves hop hm with ⟨rfl, -⟩ | ⟨input, hi, rfl⟩
    · cases href
    · exact ⟨i, input, hi, ((ho ref.blob).mpr ⟨ref, href, rfl⟩).append _⟩

theorem Retention.snoc {st st' : Stage} (h : Retention jobs w calls) (hd : DistinctIds jobs)
    (hacc : Accepted jobs w calls) (hcust : Custody a jobs w calls) (hp : Performs w op w' r) (hm : JobMoves a (jobs i) st op r st')
    (ha : AcceptedTask jobs i st w calls) (hc : CustodyTask a jobs i st w calls) (ho : OwnershipTask i st w calls)
    (ht : RetentionTask i st w calls) (hfresh : ∀ {id}, op.Enqueues id → ¬ Seen (Offered id) calls) :
    Retention jobs w' (calls ++ [(i, ⟨w, op, r, heard⟩)]) := by
  constructor
  · intro id hout
    by_cases hop : op.Enqueues id
    · obtain ⟨⟨input, -, -, hi, -⟩, -⟩ := enqueue_moves hop hm
      exact ⟨i, input, hi⟩
    · exact h.own (hp.outstanding hop hout)
  · intro j id blob hoff hstored
    exact h.patched_snoc hacc hm ha ho ht hoff hstored
  · intro j id input blob hj hpatched hstored
    exact h.listed_snoc hd hcust hacc hp hm ha hc ho ht hfresh hj hpatched hstored
  · intro id blob hown hr
    exact h.storedBy_snoc hp hm ho hown hr
  · intro b hb
    rcases hp.blobs with ⟨he, hi⟩ | hw
    · rw [hi]
      exact h.shelved b (he ▸ hb)
    · cases hw with
      | put =>
          rcases List.mem_append.mp hb with hb | hb
          · exact List.mem_append_left _ (h.shelved b hb)
          · rw [List.mem_singleton.mp hb]
            exact List.mem_append_right _ (List.mem_singleton_self _)
      | delete => exact h.shelved b (List.mem_filter.mp hb).1

theorem RetentionTask.step {st st' : SubmitStage} (ha : AcceptedAt i id input st w calls)
    (ht : RetentionTask i (.submit st) w calls) (hm : SubmitMoves a id input st op r st') :
    RetentionTask i (.submit st') w' (calls ++ [(i, ⟨w, op, r, heard⟩)]) := by
  have hinsert : ∀ {affected : Except EmailRepositoryError Nat} {c : Call Sys World},
      AcceptedAt i id input .saving w calls → patched c = false →
      RetentionTask i (.submit (.afterInsert input.idempotencyKey affected)) w' (calls ++ [(i, c)]) := by
    intro affected c hsaving hc
    cases affected with
    | error e => trivial
    | ok n =>
        simp only [SubmitStage.afterInsert]
        split
        · simp [RetentionTask, did_snoc_self, Patched, hc, did_of_not_done hsaving.1]
        · cases input.idempotencyKey <;> trivial
  cases hm with
  | insertOrIgnore | insertOnConflict => exact hinsert ha rfl
  | fetched | stored => exact ⟨fun hd => ht.mp ((did_snoc_self.mp hd).resolve_right fun hp => (by cases hp)), fun h => by cases h⟩
  | patched => exact ⟨fun _ => rfl, fun _ => did_snoc_self.mpr (.inr rfl)⟩
  | _ => trivial

theorem retentionTask_start (job : Job) : RetentionTask i job.start w [] := by
  cases job <;> trivial

theorem records_start (hw : Ready jobs w) (hv : Vacant jobs w) (hk : w.KeysIssued) :
    (records a jobs).shared w [] ∧ ∀ i, (records a jobs).task i (jobs i).start w [] := by
  have hown : (ownership a jobs).Holds (System.start a w jobs) := ownership_start hk
  exact ⟨⟨⟨(acceptance_start (a := a) hw).1, (custody_start (a := a) hv).1⟩, hown.1⟩,
    fun i => ⟨⟨acceptedTask_start hw i, custodyTask_start (jobs i)⟩, ownershipTask_start (jobs i)⟩⟩

theorem retention_start (hw : Ready jobs w) (hb : w.BlobsIssued) (ho : ∀ id, ¬ w.Outstanding id) :
    Retention jobs w [] := by
  refine ⟨fun h => absurd h (ho _), fun h => absurd h did_nil, fun _ h => absurd h did_nil, fun hown hr => ?_, hb⟩
  obtain ⟨i, input, hi⟩ := hown
  rcases hr with ⟨row, hrow, rfl, -⟩ | ⟨item, hitem, rfl, -⟩
  · exact absurd ⟨row, hrow, rfl, rfl⟩ (hw.fresh hi)
  · exact absurd (.inr (List.count_pos_iff.mpr (List.mem_map_of_mem hitem))) (ho item.id)

theorem retention_keeps (hd : DistinctIds jobs) {s : System ι} {act : Act ι} (h : (retention a jobs).Holds s) :
    (retention a jobs).Keeps machine s act := by
  refine (records_keeps hd h.left).and ?_
  have hacc := records_acceptance h.left
  exact {
    shared := fun hl hm ht => h.1.2.snoc hd hacc.1 (records_custody h.left).1 (lands_performs hl) hm ht.1.1.1 ht.1.1.2 ht.1.2 ht.2
      fun hop => fresh_enqueue hd hacc hl hop
    own := by
      intro i op w r st st' hl hm ht
      cases st with
      | submit st =>
          obtain ⟨id, input, st'', hi, rfl, hsubmit⟩ := moves_of_submit hm
          exact RetentionTask.step (ht.1.1.1 hi) ht.2 hsubmit
      | turn st | sweep st =>
          have hmoves : JobMoves a (jobs i) _ op r st' := hm
          clear hm
          generalize jobs i = job at hmoves
          cases hmoves
          trivial
    other := by
      intro i op w r heard st st' hl hm ht j stj p hji _ _ htj
      cases stj with
      | submit stj =>
          cases stj with
          | reserved => exact (did_snoc_of_ne hji).trans htj
          | _ => trivial
      | turn | sweep => trivial
    drift := by
      intro e w hdrift
      have hdr := drifts hdrift
      refine ⟨⟨fun hout => h.1.2.own (hdr.outstanding_iff.mp hout), h.1.2.patched, fun hj hpatched hstored => ?_,
        fun hown hr => h.1.2.storedBy hown (hdr.refersTo_of hr), ?_⟩, fun {j stj} hj => ?_⟩
      · refine (h.1.2.listed hj hpatched hstored).imp ?_ fun hrel => hrel.drift hdr
        rw [World.RowLists, World.RowLists, hdr.emails]
        exact id
      · rw [hdr.blobs.1, hdr.blobs.2]
        exact h.1.2.shelved
      · cases stj with
        | submit stj => cases stj <;> exact hj
        | turn | sweep => trivial }

end Catapulte
