import Catapulte.Provenance
import Catapulte.Chronicle
import Catapulte.Rendering
import Catapulte.Status
import Catapulte.Session.Upload

namespace Catapulte

open Async

variable {ι : Type} [DecidableEq ι] {a : Adapters} {jobs : ι → Job} {w w' : World}
  {calls : List (ι × Call Sys World)} {i j k : ι} {id : EmailId} {blob : BlobRef} {input : SubmitEmailInput}
  {envelope : Envelope} {refs : List AttachmentRef} {op : Effect} {r : op.Reply} {heard : Bool}

def sentOut : Call Sys World → Option Envelope
  | ⟨_, .process envelope, .ok _, _⟩ => some envelope
  | _ => none

abbrev SentOut (envelope : Envelope) (c : Call Sys World) : Prop := sentOut c = some envelope

/-- The envelope is that of the submission, with all its attachments. -/
def Whole (jobs : ι → Job) (id : EmailId) (envelope : Envelope) (calls : List (ι × Call Sys World)) : Prop :=
  ∃ k input refs, jobs k = .submit id input ∧ envelope = input.envelope refs ∧
    input.Complete (Pool.trace k calls) refs

def SentWhole (jobs : ι → Job) (id : EmailId) (calls : List (ι × Call Sys World)) : Prop :=
  ∃ envelope, Whole jobs id envelope calls ∧ Seen (SentOut envelope) calls

/-- The row is that of the submission. Its attachments are all there, or not yet
committed, or cleared after the email was sent. -/
def Shows (jobs : ι → Job) (row : EmailRow) (w : World) (calls : List (ι × Call Sys World)) : Prop :=
  ∃ k input refs, jobs k = .submit row.id input ∧ row.envelope = input.envelope refs ∧
    (input.Complete (Pool.trace k calls) refs ∨
      refs = [] ∧ (¬ Did Patched k calls ∨ Released jobs row.id w calls ∧ SentWhole jobs row.id calls))

/-- What a turn gets of the email. With SQLite another turn may have cleared the row between the
claim and the read. -/
def HandedWhole (a : Adapters) (jobs : ι → Job) (id : EmailId) (envelope : Envelope)
    (calls : List (ι × Call Sys World)) : Prop :=
  ∃ k input refs, jobs k = .submit id input ∧ envelope = input.envelope refs ∧
    (input.Complete (Pool.trace k calls) refs ∨ a.queue = .sqlite ∧ refs = [] ∧ SentWhole jobs id calls)

structure Fidelity (a : Adapters) (jobs : ι → Job) (w : World) (calls : List (ι × Call Sys World)) : Prop where
  rows : ∀ row ∈ w.emails, Own jobs row.id → Shows jobs row w calls
  items : ∀ item ∈ w.memory.items, Own jobs item.id → Whole jobs item.id item.envelope calls
  committed : ∀ {k id input}, jobs k = .submit id input → Did (Offered id) k calls →
    input.attachments = [] ∨ Did Patched k calls
  processed : ∀ {pre i c post envelope}, calls = pre ++ (i, c) :: post → c.op = .process envelope →
    ∃ id, Did (HandsOut id) i pre ∧ HandedWhole a jobs id envelope pre

def FidelityAt (a : Adapters) (jobs : ι → Job) (i : ι) : TurnStage → List (ι × Call Sys World) → Prop
  | .reading row, calls => a.queue = .sqlite ∧ Own jobs row.emailId ∧ Did (HandsOut row.emailId) i calls
  | .sending item, calls | .sendingDrawn item _, calls | .executing item, calls =>
      Did (HandsOut item.id) i calls ∧ HandedWhole a jobs item.id item.envelope calls
  | .acking item outcome, calls => ∀ senderName, outcome = .sent senderName → SentWhole jobs item.id calls
  | .clearing item _, calls => SentWhole jobs item.id calls
  | _, _ => True

def FidelityTask (a : Adapters) (jobs : ι → Job) (i : ι) : Stage → World → List (ι × Call Sys World) → Prop
  | .turn st, _, calls => FidelityAt a jobs i st calls
  | _, _, _ => True

def fidelity (a : Adapters) (jobs : ι → Job) : Outlines ι :=
  (retention a jobs).and (Fidelity a jobs) (FidelityTask a jobs)

def Posted (jobs : ι → Job) (i : ι) (op : Effect) (calls : List (ι × Call Sys World)) : Prop :=
  ∀ {id input}, jobs i = .submit id input → Posts id input (Pool.trace i calls) op

theorem complete_append (h : input.Complete (Pool.trace k calls) refs) (calls' : List (ι × Call Sys World)) :
    input.Complete (Pool.trace k (calls ++ calls')) refs :=
  uploaded_mono h (Pool.trace_subset k calls calls')

theorem Whole.append (h : Whole jobs id envelope calls) (calls' : List (ι × Call Sys World)) :
    Whole jobs id envelope (calls ++ calls') := by
  obtain ⟨k, input, refs, hk, henv, hc⟩ := h
  exact ⟨k, input, refs, hk, henv, complete_append hc calls'⟩

theorem SentWhole.append (h : SentWhole jobs id calls) (calls' : List (ι × Call Sys World)) :
    SentWhole jobs id (calls ++ calls') := by
  obtain ⟨envelope, hw, hs⟩ := h
  exact ⟨envelope, hw.append _, hs.append _⟩

theorem HandedWhole.append (h : HandedWhole a jobs id envelope calls) (calls' : List (ι × Call Sys World)) :
    HandedWhole a jobs id envelope (calls ++ calls') := by
  obtain ⟨k, input, refs, hk, henv, hc⟩ := h
  refine ⟨k, input, refs, hk, henv, hc.imp (fun hc => complete_append hc calls') ?_⟩
  exact fun hc => ⟨hc.1, hc.2.1, hc.2.2.append _⟩

theorem FidelityAt.append {st : TurnStage} (h : FidelityAt a jobs i st calls) (calls' : List (ι × Call Sys World)) :
    FidelityAt a jobs i st (calls ++ calls') := by
  cases st with
  | reading row => exact ⟨h.1, h.2.1, h.2.2.append _⟩
  | sending | sendingDrawn | executing => exact ⟨h.1.append _, h.2.append _⟩
  | acking => exact fun senderName ho => (h senderName ho).append _
  | clearing => exact SentWhole.append h _
  | _ => trivial

theorem Performs.row_of (h : Performs w op w' r) (heard : Bool) {row' : EmailRow} (hrow' : row' ∈ w'.emails) :
    (row' ∈ w.emails ∧ ∀ refs, op = .setAttachments row'.id refs → ¬ Patched ⟨w, op, r, heard⟩) ∨
      (op = .insertOrIgnore row'.id row'.envelope ∨ op = .insertOnConflict row'.id row'.envelope) ∨
      ∃ row ∈ w.emails, ∃ refs, op = .setAttachments row'.id refs ∧ row.id = row'.id ∧
        row'.envelope = { row.envelope with attachments := refs } := by
  by_cases hop : ∃ id refs, op = .setAttachments id refs
  · obtain ⟨id, refs, rfl⟩ := hop
    cases h with
    | setRefused => exact .inl ⟨hrow', fun _ _ hp => (by cases hp)⟩
    | setAttachments _ hs =>
        cases hs with
        | ok | landed =>
            obtain ⟨row, hrow, rfl⟩ := List.mem_map.mp hrow'
            by_cases hid : row.id = id
            · rw [if_pos hid]
              exact .inr (.inr ⟨row, hrow, refs, by rw [← hid], rfl, rfl⟩)
            · rw [if_neg hid]
              exact .inl ⟨hrow, fun _ hop => absurd (Effect.setAttachments.inj hop).1.symm hid⟩
        | failed => exact .inl ⟨hrow', fun _ _ hp => (by cases hp)⟩
  · have hold (hrow : row' ∈ w.emails) : row' ∈ w.emails ∧
        ∀ refs, op = .setAttachments row'.id refs → ¬ Patched ⟨w, op, r, heard⟩ :=
      ⟨hrow, fun refs h => absurd ⟨_, refs, h⟩ hop⟩
    rcases h.emails with he | hw
    · exact .inl (hold (he ▸ hrow'))
    · cases hw with
      | insertOrIgnore =>
          rcases List.mem_append.mp hrow' with hrow' | hrow'
          · exact .inl (hold hrow')
          · obtain rfl := List.mem_singleton.mp hrow'
            exact .inr (.inl (.inl rfl))
      | insertOnConflict =>
          rcases List.mem_append.mp hrow' with hrow' | hrow'
          · exact .inl (hold hrow')
          · obtain rfl := List.mem_singleton.mp hrow'
            exact .inr (.inl (.inr rfl))
      | deleteEmail => exact .inl (hold (List.mem_filter.mp hrow').1)
      | @setAttachments id refs => exact absurd ⟨id, refs, rfl⟩ hop

theorem mem_of_findEmail {row : EmailRow} (h : w.findEmail id = some row) : row ∈ w.emails ∧ row.id = id := by
  unfold World.findEmail at h
  have hid := List.find?_some h
  exact ⟨List.mem_of_find?_eq_some h, of_decide_eq_true hid⟩

theorem Whole.of_posts (hi : jobs i = .submit id input) (hp : Posted jobs i (.send id (input.envelope refs)) calls) :
    Whole jobs id (input.envelope refs) calls := by
  obtain ⟨-, -, refs', henv, hc⟩ := hp hi
  exact ⟨i, input, refs', hi, henv, hc⟩

omit [DecidableEq ι] in
theorem patched_own {st st' : Stage} (hi : jobs i = .submit id input) (hm : JobMoves a (jobs i) st op r st')
    (h : Patched ⟨w, op, r, heard⟩) : ∃ refs, op = .setAttachments id refs := by
  rw [hi] at hm
  cases hm with
  | submit hm =>
      cases hm with
      | patched => exact ⟨_, rfl⟩
      | _ => cases h

theorem Fidelity.shows_snoc {st st' : Stage} (h : Fidelity a jobs w calls) (hd : DistinctIds jobs)
    (hp : Performs w op w' r) (hm : JobMoves a (jobs i) st op r st') (hposted : Posted jobs i op calls)
    (ha : AcceptedTask jobs i st w calls) (hc : CustodyTask a jobs i st w calls) (ht : FidelityTask a jobs i st w calls)
    (hfresh : ∀ {id}, op.Enqueues id → ¬ Seen (Offered id) calls) {row' : EmailRow} (hrow' : row' ∈ w'.emails)
    (hown : Own jobs row'.id) : Shows jobs row' w' (calls ++ [(i, ⟨w, op, r, heard⟩)]) := by
  have hkept (hreleased : Released jobs row'.id w calls) (hsent : SentWhole jobs row'.id calls) :
      Released jobs row'.id w' (calls ++ [(i, ⟨w, op, r, heard⟩)]) ∧
        SentWhole jobs row'.id (calls ++ [(i, ⟨w, op, r, heard⟩)]) :=
    ⟨hreleased.keep hp fun ho hop => hfresh hop (hreleased ho).1, hsent.append _⟩
  rcases hp.row_of heard hrow' with ⟨hrow, hnot⟩ | hins | ⟨row, hrow, refs, hop, hid, henv⟩
  · -- The row is as it was.
    obtain ⟨k, input, refs, hk, henv, hshows⟩ := h.rows row' hrow hown
    refine ⟨k, input, refs, hk, henv, hshows.imp (fun hc => complete_append hc _) ?_⟩
    rintro ⟨rfl, hbare | ⟨hreleased, hsent⟩⟩
    · refine ⟨rfl, .inl fun hdid => ?_⟩
      rcases did_snoc.mp hdid with hdid | ⟨rfl, hpatched⟩
      · exact hbare hdid
      · obtain ⟨refs, hop⟩ := patched_own hk hm hpatched
        exact hnot refs hop hpatched
    · exact ⟨rfl, .inr (hkept hreleased hsent)⟩
  · -- The submission has just inserted the row.
    obtain ⟨input, hi, rfl, henv⟩ := insert_moves hins hm
    have hnone : ¬ Did (fun _ => True) i calls := (ha hi).1
    refine ⟨i, input, [], hi, henv, .inr ⟨rfl, .inl ?_⟩⟩
    refine not_did_snoc (did_of_not_done hnone Patched) fun hpatched => ?_
    obtain ⟨refs, hop⟩ := patched_own hi hm hpatched
    rcases hins with hins | hins
    · exact Effect.noConfusion (hins.symm.trans hop)
    · exact Effect.noConfusion (hins.symm.trans hop)
  · -- The attachments of the row were set.
    obtain ⟨k, input, refs₀, hk, henv₀, -⟩ := h.rows row hrow (hid ▸ hown)
    rw [hid] at hk
    have henv' : row'.envelope = input.envelope refs := by
      rw [henv, henv₀]
      rfl
    refine ⟨k, input, refs, hk, henv', ?_⟩
    rcases set_moves hop hm with ⟨rfl, item, senderName, hitem, rfl⟩ | ⟨input', hi, -⟩
    · -- A turn clears the row of an email that it has sent.
      have hreleased : Released jobs row'.id w calls := hitem ▸ hc
      have hsent : SentWhole jobs row'.id calls := hitem ▸ ht
      exact .inr ⟨rfl, .inr (hkept hreleased hsent)⟩
    · obtain rfl := hd hk hi
      cases hk.symm.trans hi
      subst hop
      exact .inl (complete_append (hposted hi).2 _)

theorem Fidelity.found (h : Fidelity a jobs w calls) (hd : DistinctIds jobs) (hacc : Accepted jobs w calls)
    {row : EmailRow} (hrow : w.findEmail id = some row) (hown : Own jobs id) (hoff : Seen (Offered id) calls) :
    ∃ k input refs, jobs k = .submit id input ∧ row.envelope = input.envelope refs ∧
      (input.Complete (Pool.trace k calls) refs ∨
        refs = [] ∧ Released jobs id w calls ∧ SentWhole jobs id calls) := by
  obtain ⟨hmem, rfl⟩ := mem_of_findEmail hrow
  obtain ⟨k, input, refs, hk, henv, hc | ⟨rfl, hbare | hsent⟩⟩ := h.rows row hmem hown
  · exact ⟨k, input, refs, hk, henv, .inl hc⟩
  · -- An email that was enqueued before its attachments were committed has none.
    obtain ⟨j, hj⟩ := hoff
    obtain ⟨input', hj'⟩ := hacc.offered hj
    obtain rfl := hd hj' hk
    have hnone := (h.committed hk hj).resolve_right hbare
    refine ⟨j, input, [], hk, henv, .inl ?_⟩
    rw [SubmitEmailInput.Complete, hnone]
    exact .nil
  · exact ⟨k, input, [], hk, henv, .inr ⟨rfl, hsent⟩⟩

theorem Fidelity.items_snoc {st st' : Stage} (h : Fidelity a jobs w calls) (hp : Performs w op w' r)
    (hm : JobMoves a (jobs i) st op r st') (hposted : Posted jobs i op calls) {item : QueueItem}
    (hitem : item ∈ w'.memory.items) (hown : Own jobs item.id) :
    Whole jobs item.id item.envelope (calls ++ [(i, ⟨w, op, r, heard⟩)]) := by
  have hold (hitem : item ∈ w.memory.items) :
      Whole jobs item.id item.envelope (calls ++ [(i, ⟨w, op, r, heard⟩)]) :=
    (h.items item hitem hown).append _
  rcases hp.memory with hmem | hmem
  · exact hold (hmem ▸ hitem)
  · rcases hmem.item_of hitem with hitem | hop
    · exact hold hitem
    · obtain ⟨input, refs, patched, hi, -, henv⟩ := send_moves hop hm
      subst hop
      rw [henv] at hposted ⊢
      exact (Whole.of_posts hi hposted).append _

theorem committed_of_trace (h : input.Committed id (Pool.trace k calls)) :
    input.attachments = [] ∨ Did Patched k calls := by
  refine h.imp_right ?_
  rintro ⟨refs, hmem⟩
  obtain ⟨⟨before, op, r, heard⟩, hc, heq⟩ := Pool.mem_trace.mp hmem
  cases heq
  exact ⟨_, hc, rfl⟩

theorem Fidelity.committed_snoc (h : Fidelity a jobs w calls)
    (hposted : Posted jobs i op calls) (hk : jobs k = .submit id input)
    (hoff : Did (Offered id) k (calls ++ [(i, ⟨w, op, r, heard⟩)])) :
    input.attachments = [] ∨ Did Patched k (calls ++ [(i, ⟨w, op, r, heard⟩)]) := by
  rcases did_snoc.mp hoff with hbefore | ⟨rfl, hnew⟩
  · exact (h.committed hk hbefore).imp_right fun hdid => hdid.append _
  · have hcommitted : input.Committed id (Pool.trace k calls) := by
      have hop := enqueues_of_offered hnew
      cases op with
      | insertEntry => exact (hposted hk).2
      | send => exact (hposted hk).2.1
      | _ => exact hop.elim
    exact (committed_of_trace hcommitted).imp_right fun hdid => hdid.append _

theorem HandedWhole.of_whole (h : Whole jobs id envelope calls) : HandedWhole a jobs id envelope calls := by
  obtain ⟨k, input, refs, hk, henv, hc⟩ := h
  exact ⟨k, input, refs, hk, henv, .inl hc⟩

theorem HandedWhole.sent {item : DequeuedEmail} (h : HandedWhole a jobs item.id item.envelope calls)
    (senderName : SenderName) :
    SentWhole jobs item.id (calls ++ [(i, ⟨w, .process item.envelope, .ok senderName, heard⟩)]) := by
  obtain ⟨k, input, refs, hk, henv, hc | ⟨-, -, hsent⟩⟩ := h
  · have hwhole : Whole jobs item.id item.envelope calls := ⟨k, input, refs, hk, henv, hc⟩
    exact ⟨item.envelope, hwhole.append _, seen_snoc.mpr (.inr rfl)⟩
  · exact hsent.append _

theorem Fidelity.taken (h : Fidelity a jobs w calls) (hd : DistinctIds jobs) (hacc : Accepted jobs w calls)
    (hc : Custody a jobs w calls) (hret : Retention jobs w calls) {row : EmailRow}
    (hrow : w.findEmail id = some row) (hout : w.Outstanding id) : HandedWhole a jobs id row.envelope calls := by
  have hown : Own jobs id := hret.own hout
  obtain ⟨k, input, refs, hk, henv, hcomplete | ⟨-, hreleased, -⟩⟩ :=
    h.found hd hacc hrow hown (hc.origin hown hout)
  · exact ⟨k, input, refs, hk, henv, .inl hcomplete⟩
  · exact absurd hout (hreleased hown).2

theorem Fidelity.loaded (h : Fidelity a jobs w calls) (hd : DistinctIds jobs) (hacc : Accepted jobs w calls)
    (hq : a.queue = .sqlite) {row : EmailRow} (hrow : w.findEmail id = some row) (hown : Own jobs id)
    (hoff : Seen (Offered id) calls) : HandedWhole a jobs id row.envelope calls := by
  obtain ⟨k, input, refs, hk, henv, hcomplete⟩ := h.found hd hacc hrow hown hoff
  exact ⟨k, input, refs, hk, henv, hcomplete.imp_right fun hsent => ⟨hq, hsent.1, hsent.2.2⟩⟩

theorem FidelityAt.step {st st' : TurnStage} (hd : DistinctIds jobs) (hacc : Accepted jobs w calls)
    (hc : Custody a jobs w calls) (hret : Retention jobs w calls) (hfid : Fidelity a jobs w calls)
    (hcust : CustodyAt a jobs i st w calls) (h : FidelityAt a jobs i st calls) (hp : Performs w op w' r)
    (hm : TurnMoves a st op r st') : FidelityAt a jobs i st' (calls ++ [(i, ⟨w, op, r, heard⟩)]) := by
  have hnow {c : Call Sys World} {id : EmailId} (hc : HandsOut id c) : Did (HandsOut id) i (calls ++ [(i, c)]) :=
    did_snoc_self.mpr (.inr hc)
  cases hm with
  | clock | recvFailed | claimFailed | commitFailed | readFailed | orphanDeleted | ackFailed | removeFailed | leaseFailed
  | requeueFailed | leased | requeued | sentDrawn | closingDrawn | closed | nackClock | cleared | cleaned => trivial
  | received =>
      cases hp with
      | recv hrecv =>
          obtain ⟨x, channel, hch, rfl, -⟩ := MemoryQueue.recv_eq_some hrecv
          have hmem : x ∈ w.memory.items := by
            simp [MemoryQueue.items, hch]
          have hout : w.Outstanding x.id := .inr (List.count_pos_iff.mpr (List.mem_map_of_mem hmem))
          exact ⟨hnow rfl, (HandedWhole.of_whole (hfid.items x hmem (hret.own hout))).append _⟩
  | @claimed now r hq =>
      cases hp with
      | claimNone hn hs => cases hs; trivial
      | @claimNext _ _ e _ _ he hf hs =>
          cases hs with
          | ok =>
              simp only [TurnStage.afterClaim]
              split
              · exact ⟨hq, hret.own (.inl ⟨e, he, rfl⟩), hnow rfl⟩
              · trivial
  | @committed now r =>
      cases hp with
      | transactionNone hn hs => cases hs; trivial
      | @claimTransaction _ _ e _ _ he hf hs =>
          cases hrow : w.findEmail e.emailId with
          | none =>
              simp only [World.claimInTransaction, hrow] at hs
              cases hs
              trivial
          | some row =>
              simp only [World.claimInTransaction, hrow] at hs
              cases hs
              exact ⟨hnow rfl, (hfid.taken hd hacc hc hret hrow (.inl ⟨e, he, rfl⟩)).append _⟩
  | @read row r =>
      cases hp with
      | selectEmail =>
          cases hrow : w.findEmail row.emailId with
          | none => trivial
          | some found =>
              obtain ⟨hq, hown, hhands⟩ := h
              exact ⟨hhands.append _, (hfid.loaded hd hacc hq hrow hown (hcust.2 hown).1).append _⟩
  | sendingDrawn | sendingPublished => exact ⟨h.1.append _, h.2.append _⟩
  | @processed item r =>
      cases r with
      | ok senderName =>
          intro _ _
          exact h.2.sent senderName
      | error e =>
          simp only [TurnStage.afterProcess]
          split
          · intro senderName ho
            cases ho
          · trivial
  | @acked item outcome | @removed item outcome =>
      cases outcome with
      | sent senderName => exact (h senderName rfl).append _
      | failed e | retrying e => trivial

theorem process_moves {job : Job} {st st' : Stage} (hop : op = .process envelope) (hm : JobMoves a job st op r st') :
    ∃ item, st = .turn (.executing item) ∧ envelope = item.envelope := by
  subst hop
  cases hm with
  | submit hm => cases hm
  | turn hm => cases hm; exact ⟨_, rfl, rfl⟩
  | sweep hm => cases hm

theorem Fidelity.snoc {st st' : Stage} (h : Fidelity a jobs w calls) (hd : DistinctIds jobs)
    (hp : Performs w op w' r) (hm : JobMoves a (jobs i) st op r st') (hposted : Posted jobs i op calls)
    (ha : AcceptedTask jobs i st w calls) (hc : CustodyTask a jobs i st w calls) (ht : FidelityTask a jobs i st w calls)
    (hfresh : ∀ {id}, op.Enqueues id → ¬ Seen (Offered id) calls) :
    Fidelity a jobs w' (calls ++ [(i, ⟨w, op, r, heard⟩)]) := by
  constructor
  · intro row hrow hown
    exact h.shows_snoc hd hp hm hposted ha hc ht hfresh hrow hown
  · intro item hitem hown
    exact h.items_snoc hp hm hposted hitem hown
  · intro k id input hk hoff
    exact h.committed_snoc hposted hk hoff
  · intro pre j c post envelope hcalls hop
    rcases snoc_eq hcalls with ⟨rfl, hx, rfl⟩ | ⟨post', rfl, hbefore⟩
    · cases hx
      obtain ⟨item, rfl, rfl⟩ := process_moves hop hm
      exact ⟨item.id, ht⟩
    · exact h.processed hbefore hop

theorem fidelity_keeps (hd : DistinctIds jobs) {s : System ι} {act : Act ι} (h : (fidelity a jobs).Holds s)
    (hposted : ∀ {i op next}, s.task i = some (.await op next) → Posted jobs i op s.calls) :
    (fidelity a jobs).Keeps machine s act := by
  refine (retention_keeps hd h.left).and ?_
  have hacc := records_acceptance h.left.left
  have hcust := records_custody h.left.left
  exact {
    shared := by
      intro i op w r heard st st' hl hm ht
      have hl' := hl
      obtain ⟨next, _, htask, -, -⟩ := hl'
      exact h.1.2.snoc hd (lands_performs hl) hm (hposted htask) ht.1.1.1.1 ht.1.1.1.2 ht.2
        fun hop => fresh_enqueue hd hacc hl hop
    own := by
      intro i op w r st st' hl hm ht
      have hmoves : JobMoves a (jobs i) st op r st' := hm
      clear hm
      generalize jobs i = job at hmoves
      cases hmoves with
      | turn hturn =>
          exact FidelityAt.step hd hacc.1 hcust.1 h.left.1.2 h.1.2 ht.1.1.1.2 ht.2 (lands_performs hl) hturn
      | submit | sweep => trivial
    other := by
      intro i op w r heard st st' hl hm ht j stj p hji _ _ htj
      cases stj with
      | turn stj => exact FidelityAt.append htj _
      | submit | sweep => trivial
    drift := by
      intro e w hdrift
      have hdr := drifts hdrift
      refine ⟨⟨fun row hrow hown => ?_, fun item hitem hown => ?_, h.1.2.committed, h.1.2.processed⟩,
        fun {j stj} hj => ?_⟩
      · obtain ⟨k, input, refs, hk, henv, hshows⟩ := h.1.2.rows row (hdr.emails ▸ hrow) hown
        refine ⟨k, input, refs, hk, henv, hshows.imp_right fun hbare => ⟨hbare.1, ?_⟩⟩
        refine hbare.2.imp_right fun hsent => ⟨fun ho => ⟨(hsent.1 ho).1, fun hout => ?_⟩, hsent.2⟩
        exact (hsent.1 ho).2 (hdr.outstanding_iff.mp hout)
      · cases hdr with
        | tick => exact h.1.2.items item hitem hown
        | wake hw =>
            obtain ⟨x, hx, hid, henv⟩ := MemoryQueue.mem_items_wakeUp hw hitem
            rw [← hid] at hown ⊢
            rw [← henv]
            exact h.1.2.items x hx hown
      · cases stj <;> exact hj }

theorem fidelity_start (hw : Ready jobs w) (hv : Vacant jobs w) (hk : w.KeysIssued) (hb : w.BlobsIssued)
    (ho : ∀ id, ¬ w.Outstanding id) : (fidelity a jobs).Holds (System.start a w jobs) := by
  have hrecords := records_start (a := a) hw hv hk
  refine holds_start (fun i => program_follows (jobs i)) ⟨⟨hrecords.1, retention_start hw hb ho⟩, ?_⟩ fun i =>
    ⟨⟨hrecords.2 i, retentionTask_start (jobs i)⟩, ?_⟩
  · refine ⟨fun row hrow hown => ?_, fun item hitem _ => ?_, fun _ h => absurd h did_nil, fun hcalls => ?_⟩
    · obtain ⟨i, input, hi⟩ := hown
      exact absurd ⟨row, hrow, rfl, rfl⟩ (hw.fresh hi)
    · exact absurd (.inr (List.count_pos_iff.mpr (List.mem_map_of_mem hitem))) (ho item.id)
    · exact absurd hcalls (by simp)
  · cases jobs i <;> trivial

theorem posted_of_run {as : List (Act ι)} {s : System ι} (hr : Reaches a w jobs as s) {op : Effect}
    {next : op.Reply → Prog JobResult} (hi : s.task i = some (.await op next)) : Posted jobs i op s.calls := by
  intro id input hj
  obtain ⟨r⟩ := reply_nonempty op
  have hfollows : ∀ i, ((jobs i).program a).Follows (tracking fun t op => ∀ {id input}, jobs i = .submit id input →
      Posts id input t op) (fun _ _ => True) [] := by
    intro i
    cases hi : jobs i with
    | submit id input =>
        have h : FollowsPosts id input (a.submitEmail.execute id input) [] := execute_posts
        refine (h.embed (f := fun t => t) ?_ fun _ => trivial).map fun _ _ _ => trivial
        rintro t op r t' ⟨hp, rfl⟩
        refine ⟨fun hj => ?_, rfl⟩
        cases hj
        exact hp
    | turn | sweep =>
        refine Program.Only.tracks ?_ []
        exact Program.only_all (fun op t _ _ hj => (by cases hj)) _
  exact Pool.tracked_of_run hfollows hr hi r hj

theorem fidelity_of_run {as : List (Act ι)} {s : System ι} (hw : Ready jobs w) (hv : Vacant jobs w)
    (hk : w.KeysIssued) (hb : w.BlobsIssued) (ho : ∀ id, ¬ w.Outstanding id) (hr : Reaches a w jobs as s) :
    (fidelity a jobs).Holds s := by
  induction as using List.reverseRecOn generalizing s with
  | nil =>
      cases hr
      exact fidelity_start hw hv hk hb ho
  | append_singleton as act ih =>
      obtain ⟨t, ht, hact⟩ := Pool.run_append.mp hr
      obtain ⟨s', hn, hs⟩ := Pool.run_cons.mp hact
      cases hs
      exact Pool.Outline.step (ih ht) (fun h => fidelity_keeps hw.distinct h (posted_of_run ht)) (Pool.next_iff.mp hn)

def Shown (b : Blob) (w : World) (calls : List (ι × Call Sys World)) : Prop :=
  b ∈ w.blobs ∨ ∃ x ∈ calls, b ∈ x.2.before.blobs

/-- Whatever was put under a ref is all that is ever found there. -/
structure Steady (w : World) (calls : List (ι × Call Sys World)) : Prop where
  issued : ∀ {b}, Shown b w calls → b.ref.key ∈ w.issued
  written : ∀ {blob content}, Seen (Wrote blob content) calls → blob.key ∈ w.issued
  bytes : ∀ {b content}, Shown b w calls → Seen (Wrote b.ref content) calls → b.bytes = content

theorem stored_of_wrote {content : List UInt8} {c : Call Sys World} (h : Wrote blob content c) : Stored blob c := by
  obtain ⟨before, op, r, heard⟩ := c
  cases op with
  | putBlob =>
      cases r with
      | ok => cases h; rfl
      | error => cases h
  | _ => cases h

omit [DecidableEq ι] in
theorem shown_snoc {b : Blob} (hp : Performs w op w' r) (h : Shown b w' (calls ++ [(i, ⟨w, op, r, heard⟩)])) :
    Shown b w calls ∨ (b.ref.key ∉ w.issued ∧ b.ref.key ∈ w'.issued ∧
      ∀ blob content, Wrote blob content ⟨w, op, r, heard⟩ → b.bytes = content) := by
  rcases h with hb | ⟨x, hx, hb⟩
  · rcases hp.blobs with ⟨he, -⟩ | hw
    · exact .inl (.inl (he ▸ hb))
    · cases hw with
      | @put backend reader key stamp hkey =>
          rcases List.mem_append.mp hb with hb | hb
          · exact .inl (.inl hb)
          · obtain rfl := List.mem_singleton.mp hb
            refine .inr ⟨hkey, List.mem_append_right _ List.mem_cons_self, fun blob content hwrote => ?_⟩
            cases r with
            | ok => cases hwrote; rfl
            | error => cases hwrote
      | delete => exact .inl (.inl (List.mem_filter.mp hb).1)
  · rcases List.mem_append.mp hx with hx | hx
    · exact .inl (.inr ⟨x, hx, hb⟩)
    · obtain rfl := List.mem_singleton.mp hx
      exact .inl (.inl hb)

omit [DecidableEq ι] in
theorem Steady.snoc (h : Steady w calls) (hp : Performs w op w' r) :
    Steady w' (calls ++ [(i, ⟨w, op, r, heard⟩)]) := by
  have hsub {key : String} (hkey : key ∈ w.issued) : key ∈ w'.issued := hp.issued_subset hkey
  constructor
  · intro b hb
    rcases shown_snoc hp hb with hb | ⟨-, hkey, -⟩
    · exact hsub (h.issued hb)
    · exact hkey
  · intro blob content hw
    rcases seen_snoc.mp hw with hw | hw
    · exact hsub (h.written hw)
    · exact (stored_performs hp (stored_of_wrote hw)).2
  · intro b content hb hw
    rcases shown_snoc hp hb with hb | ⟨hkey, -, hbytes⟩
    · rcases seen_snoc.mp hw with hw | hw
      · exact h.bytes hb hw
      · exact absurd (h.issued hb) (stored_performs hp (stored_of_wrote hw)).1
    · rcases seen_snoc.mp hw with hw | hw
      · exact absurd (h.written hw) hkey
      · exact hbytes _ _ hw

theorem steady_of_run {as : List (Act ι)} {s : System ι} (hb : w.BlobsIssued) (hr : Reaches a w jobs as s) :
    Steady s.world s.calls := by
  refine Pool.run_invariant (J := fun s : System ι => Steady s.world s.calls) ?_ ?_ hr
  · intro s act s' h hs
    rcases Pool.step_calls hs with hc | ⟨⟨i, c⟩, hc⟩
    · rw [hc]
      rcases Pool.world_of_step hs hc with hw | ⟨e, hdrift⟩
      · exact hw ▸ h
      · have hblobs := (drifts hdrift).blobs
        have hshown {b : Blob} (hb : Shown b s'.world s.calls) : Shown b s.world s.calls :=
          hb.imp_left (hblobs.1 ▸ ·)
        refine ⟨fun hb => ?_, fun hw => ?_, fun hb => h.bytes (hshown hb)⟩
        · exact hblobs.2 ▸ h.issued (hshown hb)
        · exact hblobs.2 ▸ h.written hw
    · obtain ⟨before, op, r, heard⟩ := c
      obtain rfl : before = s.world := Pool.before_of_step hs hc
      rw [hc]
      exact h.snoc (lands_performs (Pool.step_lands hs hc))
  · refine ⟨fun hb' => ?_, fun hw => absurd hw seen_nil, fun _ hw => absurd hw seen_nil⟩
    rcases hb' with hb' | ⟨x, hx, -⟩
    · exact hb _ hb'
    · cases hx

/-- What the use case reads to the end is what the store holds, or held, under the ref. -/
def StoreReads (s : System ι) (t : List (Exchange Ports)) : Prop :=
  ∀ x : Ports.AttachmentRead, x.calls <:+: t →
    ∃ b, Shown b s.world s.calls ∧ b.ref = x.ref.blob ∧ b.bytes = x.bytes

/-- The message says what was submitted. -/
structure Conveys (jinja : MiniJinja) (input : SubmitEmailInput) (t : List (Exchange Ports)) (email : OutboundMessage) :
    Prop where
  sender : email.sender = input.sender
  recipients : email.recipients = input.recipients
  subject : email.subject = input.subject
  body : ∃ resolved interpolated, (⟨.resolve input.body, .ok resolved⟩ : Exchange Ports) ∈ t ∧
    jinja.interpolate input.vars resolved = .ok interpolated ∧
    (⟨.render interpolated, .ok email.body⟩ : Exchange Ports) ∈ t

structure Attaches (t : List (Exchange Sys)) (att : AttachmentInput) (resolved : ResolvedAttachment) : Prop where
  filename : resolved.filename = att.filename
  contentType : resolved.contentType = att.contentType
  content : att.Has t resolved.bytes

theorem calls_inside {reads : List Ports.AttachmentRead} {x : Ports.AttachmentRead} (hx : x ∈ reads) :
    x.calls <:+: reads.flatMap Ports.AttachmentRead.calls := by
  obtain ⟨l₁, l₂, rfl⟩ := List.append_of_mem hx
  rw [List.flatMap_append, List.flatMap_cons]
  exact ⟨_, _, List.append_assoc _ _ _⟩

theorem Uploaded.attaches {s : System ι} {pre post : List (ι × Call Sys World)} {att : AttachmentInput}
    {x : Ports.AttachmentRead} (h : Uploaded (Pool.trace k pre) att x.ref) (hsteady : Steady s.world s.calls)
    (hcalls : s.calls = pre ++ post)
    (hread : ∃ b, Shown b s.world s.calls ∧ b.ref = x.ref.blob ∧ b.bytes = x.bytes) :
    Attaches (Pool.trace k pre) att x.resolved := by
  obtain ⟨content, hhas, hput⟩ := h.put
  obtain ⟨b, hb, href, hbytes⟩ := hread
  have hwrote : Seen (Wrote b.ref content) s.calls := by
    obtain ⟨⟨before, op, r, heard⟩, hc, heq⟩ := Pool.mem_trace.mp hput
    cases heq
    rw [hcalls, href]
    exact ⟨k, _, List.mem_append_left _ hc, rfl⟩
  refine ⟨h.filename, h.contentType, ?_⟩
  rw [Ports.AttachmentRead.resolved, ← hbytes, hsteady.bytes hb hwrote]
  exact hhas

/-- Whatever else is going on, the message that a turn hands to a sender is what was submitted for the
email that the turn took from the queue of SQLite, of Postgres or in memory, attachments and their
bytes included. Only with SQLite may the attachments be missing, and only when the email was sent with
all of them before. -/
theorem sent_as_submitted {as : List (Act ι)} {s : System ι} (hw : Ready jobs w) (hv : Vacant jobs w)
    (hk : w.KeysIssued) (hb : w.BlobsIssued) (ho : ∀ id, ¬ w.Outstanding id) (hr : Reaches a w jobs as s)
    {pre post : List (ι × Call Sys World)} {c : Call Sys World} (hcalls : s.calls = pre ++ (i, c) :: post)
    (hop : c.op = .process envelope) {jinja : MiniJinja} {t : List (Exchange Ports)} {email : OutboundMessage}
    {next : Except SendError SenderName → Program Ports (Except ProcessQueuedEmailError SenderName)}
    (hruns : Program.Runs (Ports.execute jinja envelope) t (.await (I := Ports) (PortCall.send email) next))
    (hreads : StoreReads s t) :
    ∃ id k input, jobs k = .submit id input ∧ Did (HandsOut id) i pre ∧ Conveys jinja input t email ∧
      (List.Forall₂ (Attaches (Pool.trace k pre)) input.attachments email.attachments ∨
        a.queue = .sqlite ∧ email.attachments = [] ∧ SentWhole jobs id pre) := by
  obtain ⟨id, hhands, k, input, refs, hk, rfl, hrefs⟩ := (fidelity_of_run hw hv hk hb ho hr).1.2.processed hcalls hop
  obtain ⟨⟨stages, hp⟩, hsubject⟩ := Ports.execute_pipelined hruns
  have ht := hp.calls_eq
  refine ⟨id, k, input, hk, hhands, ⟨hp.sender, hp.recipients, hsubject, ?_⟩, ?_⟩
  · refine ⟨stages.resolved, stages.interpolated, ?_, hp.interpolated, ?_⟩
    · rw [ht]
      exact List.mem_cons_self
    · rw [ht, hp.body]
      exact List.mem_cons_of_mem _ List.mem_cons_self
  have hstages : stages.reads.map Ports.AttachmentRead.ref = refs := hp.refs
  rw [hp.attachments]
  refine hrefs.imp (fun hc => ?_) fun hstale => ?_
  · rw [SubmitEmailInput.Complete, ← hstages, List.forall₂_map_right_iff] at hc
    rw [List.forall₂_map_right_iff]
    have hread : ∀ x ∈ stages.reads,
        ∃ b, Shown b s.world s.calls ∧ b.ref = x.ref.blob ∧ b.bytes = x.bytes := by
      intro x hx
      refine hreads x ?_
      rw [ht]
      exact List.infix_cons (List.infix_cons (calls_inside hx))
    have hflip : List.Forall₂ (fun x att => Uploaded (Pool.trace k pre) att x.ref) stages.reads
        input.attachments :=
      List.Forall₂.flip hc
    have hboth := (List.forall₂_and_left _ _).mpr ⟨hread, hflip⟩
    exact List.Forall₂.flip (hboth.imp fun x att h => h.2.attaches (steady_of_run hb hr) hcalls h.1)
  · obtain ⟨hq, rfl, hsent⟩ := hstale
    rw [List.map_eq_nil_iff.mp hstages]
    exact ⟨hq, rfl, hsent⟩

def invoice : AttachmentRef := ⟨"invoice.pdf", "application/pdf", 4, ⟨"fs", "a1"⟩⟩

def invoiceEnvelope : Envelope :=
  (plainSubmission none [.inline "invoice.pdf" "application/pdf" [37, 80, 68, 70]]).envelope [invoice]

theorem hello_nonempty : (some "hello").isSome ∨ (none : Option String).isSome := .inl rfl

def invoiceStages : Ports.Stages where
  resolved := .plain ⟨some "hello", none, hello_nonempty⟩
  interpolated := .plain ⟨some "hello", none, hello_nonempty⟩
  rendered := ⟨⟨some "hello", none, hello_nonempty⟩⟩
  reads := [⟨invoice, ⟨7⟩, [37, 80, 68, 70]⟩]

theorem invoice_reads {x : Ports.AttachmentRead} (h : x.calls <:+: invoiceStages.calls invoiceEnvelope) :
    x.ref.blob = ⟨"fs", "a1"⟩ ∧ x.bytes = [37, 80, 68, 70] := by
  obtain ⟨l₁, l₂, h⟩ := h
  have hlen := congrArg List.length h
  simp only [Ports.AttachmentRead.calls, List.length_append, List.length_cons, List.length_nil] at hlen
  have hfour : (invoiceStages.calls invoiceEnvelope).length = 4 := rfl
  rcases l₁ with _ | ⟨y, _ | ⟨z, _ | ⟨u, l₁⟩⟩⟩
  · cases (List.cons.inj h).1
  · cases (List.cons.inj (List.cons.inj h).2).1
  · obtain ⟨hget, hrest⟩ := List.cons.inj (List.cons.inj (List.cons.inj h).2).2
    obtain ⟨href, -⟩ := Sigma.mk.inj hget
    obtain ⟨hread, -⟩ := List.cons.inj hrest
    obtain ⟨x, reader, bytes⟩ := x
    cases hread
    exact ⟨PortCall.get.inj href, rfl⟩
  · simp only [List.length_cons] at hlen
    omega

/-- The turn after the submission hands over the bytes that were submitted. -/
theorem invoice_sent : ∃ (s : System Nat) (c : Call Sys World) (email : OutboundMessage),
    Reaches sqliteOnly .empty attachedEmail (enqueuing ++ executing 1 3 (.ok ⟨"smtp"⟩)) s ∧
    s.calls = s.calls.dropLast ++ [(1, c)] ∧ c.op = .process invoiceEnvelope ∧
    email.attachments = [⟨"invoice.pdf", "application/pdf", [37, 80, 68, 70]⟩] ∧
    ∃ id k input, attachedEmail k = .submit id input ∧ Did (HandsOut id) 1 s.calls.dropLast ∧
      Conveys Ports.braceEngine input (invoiceStages.calls invoiceEnvelope) email ∧
      (List.Forall₂ (Attaches (Pool.trace k s.calls.dropLast)) input.attachments email.attachments ∨
        sqliteOnly.queue = .sqlite ∧ email.attachments = [] ∧ SentWhole attachedEmail id s.calls.dropLast) := by
  have hrun : ∃ s c, Reaches sqliteOnly .empty attachedEmail (enqueuing ++ executing 1 3 (.ok ⟨"smtp"⟩)) s ∧
      s.calls = s.calls.dropLast ++ [(1, c)] ∧ c.op = .process invoiceEnvelope ∧
      ∃ b ∈ s.world.blobs, b.ref = ⟨"fs", "a1"⟩ ∧ b.bytes = [37, 80, 68, 70] :=
    ⟨_, _, rfl, rfl, rfl, _, List.mem_singleton_self _, rfl, rfl⟩
  obtain ⟨s, c, hr, hcalls, hop, b, hb, href, hbytes⟩ := hrun
  obtain ⟨next, hruns⟩ := Ports.execute_sends invoiceStages
    (rfl : Ports.braceEngine.interpolate invoiceEnvelope.vars _ = _) rfl
  refine ⟨s, c, ⟨⟨invoiceEnvelope.sender⟩, invoiceEnvelope.subject, invoiceEnvelope.recipients,
    invoiceStages.rendered, invoiceStages.reads.map Ports.AttachmentRead.resolved⟩, hr, hcalls, hop, rfl, ?_⟩
  refine sent_as_submitted attachedEmail_ready (vacant_empty _) (fun row hrow => (by cases hrow)) (by decide) ?_ hr
    hcalls hop hruns fun x hx => ?_
  · rintro id (⟨e, he, -⟩ | hpos)
    · cases he
    · cases hpos
  · obtain ⟨hblob, hx⟩ := invoice_reads hx
    exact ⟨b, .inl hb, href.trans hblob.symm, hbytes.trans hx.symm⟩

end Catapulte
