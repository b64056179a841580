import Catapulte.System

namespace Catapulte

open Async

variable {ι : Type} {a : Adapters} {jobs : ι → Job} {w w' : World}
  {calls : List (ι × Call Sys World)} {i j : ι} {id : EmailId} {input : SubmitEmailInput}
  {op : Effect} {r : op.Reply} {heard : Bool} {refs : List AttachmentRef}

def stored : Call Sys World → Option BlobRef
  | ⟨_, .putBlob .., .ok result, _⟩ => some result.blob
  | _ => none

abbrev Stored (blob : BlobRef) (c : Call Sys World) : Prop := stored c = some blob

def Lists (i : ι) (refs : List AttachmentRef) (calls : List (ι × Call Sys World)) : Prop :=
  ∀ blob, Did (Stored blob) i calls ↔ ∃ ref ∈ refs, ref.blob = blob

def OwnershipAt (i : ι) : SubmitStage → List (ι × Call Sys World) → Prop
  | .saving, calls | .looking _, calls => Lists i [] calls
  | .reserved refs _, calls | .queued refs, calls | .announcing refs _, calls => Lists i refs calls
  | .undoing refs _, calls => ∀ ref ∈ refs, Did (Stored ref.blob) i calls
  | .ended _, _ => True

/-- A blob belongs to the submission that stored it, and only the row of that
submission lists it. -/
structure Ownership (jobs : ι → Job) (w : World) (calls : List (ι × Call Sys World)) : Prop where
  issued : ∀ {i blob}, Did (Stored blob) i calls → blob.key ∈ w.issued
  distinct : ∀ {i j blob}, Did (Stored blob) i calls → Did (Stored blob) j calls → i = j
  listed : ∀ row ∈ w.emails, ∀ ref ∈ row.envelope.attachments, ref.blob.key ∈ w.issued
  owner : ∀ row ∈ w.emails, ∀ ref ∈ row.envelope.attachments, ∀ {i}, Did (Stored ref.blob) i calls →
    ∃ input, jobs i = .submit row.id input

def OwnershipTask (i : ι) : Stage → World → List (ι × Call Sys World) → Prop
  | .submit st, _, calls => OwnershipAt i st calls
  | _, _, _ => True

def ownership (a : Adapters) (jobs : ι → Job) : Outlines ι :=
  outline a jobs (Ownership jobs) OwnershipTask

/-- The keys of the blobs that rows list were handed out. -/
def World.KeysIssued (w : World) : Prop :=
  ∀ row ∈ w.emails, ∀ ref ∈ row.envelope.attachments, ref.blob.key ∈ w.issued

theorem ownershipTask_start (job : Job) : OwnershipTask i job.start w [] := by
  cases job with
  | submit => exact fun blob => ⟨fun h => absurd h did_nil, fun ⟨_, h, _⟩ => by cases h⟩
  | turn | sweep => trivial

theorem ownership_start (hw : w.KeysIssued) : (ownership a jobs).Holds (System.start a w jobs) :=
  outline_start ⟨fun h => absurd h did_nil, fun h => absurd h did_nil, hw, fun _ _ _ _ _ h => absurd h did_nil⟩
    fun i => ownershipTask_start (jobs i)

theorem stored_performs {blob : BlobRef} (hp : Performs w op w' r)
    (hs : Stored blob ⟨w, op, r, heard⟩) : blob.key ∉ w.issued ∧ blob.key ∈ w'.issued := by
  cases hp with
  | putBlob hkey hstamp h =>
      cases h with
      | ok => cases hs; exact ⟨hkey.1, List.mem_append_right _ (List.mem_singleton_self _)⟩
      | failed => cases hs
      | landed => cases hs
  | _ => cases hs

theorem Lists.snoc {c : Call Sys World} (h : Lists i refs calls) (hc : stored c = none) :
    Lists i refs (calls ++ [(i, c)]) := by
  intro blob
  rw [did_snoc_self, h blob, Stored, hc]
  simp

theorem OwnershipAt.step {st st' : SubmitStage} (h : OwnershipAt i st calls)
    (hp : Performs w op w' r) (hm : SubmitMoves a id input st op r st') :
    OwnershipAt i st' (calls ++ [(i, ⟨w, op, r, heard⟩)]) := by
  have hinsert : ∀ {affected : Except EmailRepositoryError Nat} {c : Call Sys World}, stored c = none →
      Lists i [] calls → OwnershipAt i (.afterInsert input.idempotencyKey affected) (calls ++ [(i, c)]) := by
    intro affected c hc h
    cases affected with
    | error e => trivial
    | ok n =>
        simp only [SubmitStage.afterInsert]
        split
        · exact h.snoc hc
        · cases input.idempotencyKey with
          | none => trivial
          | some key => exact h.snoc hc
  cases hm with
  | insertOrIgnore | insertOnConflict => exact hinsert rfl h
  | found | notFound | announced | rowDeleted => trivial
  | fetched | patched | enqueued | sent | drawn => exact Lists.snoc h rfl
  | fetchFailed | storeFailed | patchFailed | enqueueFailed | sendFailed =>
      intro ref href
      exact ((h ref.blob).mpr ⟨ref, href, rfl⟩).append _
  | @stored refs reader filename contentType result =>
      intro blob
      rw [did_snoc_self, h blob]
      simp only [Stored, Catapulte.stored, Option.some.injEq, List.mem_append, List.mem_singleton,
        or_and_right, exists_or, exists_eq_left]
  | blobDeleted =>
      intro ref href
      exact (h ref (List.mem_cons_of_mem _ href)).append _

theorem setAttachments_moves {job : Job} {st st' : Stage} (hm : JobMoves a job st op r st')
    (hop : op = .setAttachments id refs) : refs = [] ∨
      ∃ input, job = .submit id input ∧ st = .submit (.reserved refs false) := by
  subst hop
  cases hm with
  | submit hm => cases hm <;> exact .inr ⟨_, rfl, rfl⟩
  | turn hm => cases hm; exact .inl rfl
  | sweep hm => cases hm

theorem Ownership.snoc (h : Ownership jobs w calls) {st st' : Stage} (hp : Performs w op w' r)
    (hm : JobMoves a (jobs i) st op r st') (ht : OwnershipTask i st w calls) :
    Ownership jobs w' (calls ++ [(i, ⟨w, op, r, heard⟩)]) := by
  -- The refs of a row were there before, or its submission has just written them.
  have hfrom : ∀ row' ∈ w'.emails, ∀ ref ∈ row'.envelope.attachments,
      (∃ row ∈ w.emails, row.id = row'.id ∧ ref ∈ row.envelope.attachments) ∨
        (Did (Stored ref.blob) i calls ∧ ∃ input, jobs i = .submit row'.id input) := by
    intro row' hrow' ref href
    rcases hp.attachments_of hrow' with ⟨row, hrow, hid, hatt⟩ | ⟨envelope, hop, hatt⟩ | hop
    · exact .inl ⟨row, hrow, hid, hatt ▸ href⟩
    · obtain ⟨input, -, -, rfl⟩ := insert_moves hop hm
      rw [hatt] at href
      cases href
    · rcases setAttachments_moves hm hop with hnil | ⟨input, hi, rfl⟩
      · rw [hnil] at href
        cases href
      · exact .inr ⟨(ht ref.blob).mpr ⟨ref, href, rfl⟩, input, hi⟩
  have hfresh : ∀ {blob}, Stored blob ⟨w, op, r, heard⟩ → blob.key ∉ w.issued :=
    fun hs => (stored_performs hp hs).1
  constructor
  · intro k blob hk
    rcases did_snoc.mp hk with hk | ⟨rfl, hs⟩
    · exact hp.issued_subset (h.issued hk)
    · exact (stored_performs hp hs).2
  · intro k l blob hk hl
    rcases did_snoc.mp hk with h₁ | ⟨hki, hs⟩ <;> rcases did_snoc.mp hl with h₂ | ⟨hli, hs'⟩
    · exact h.distinct h₁ h₂
    · exact absurd (h.issued h₁) (hfresh hs')
    · exact absurd (h.issued h₂) (hfresh hs)
    · exact hki.trans hli.symm
  · intro row' hrow' ref href
    rcases hfrom row' hrow' ref href with ⟨row, hrow, -, href⟩ | ⟨hdid, -⟩
    · exact hp.issued_subset (h.listed row hrow ref href)
    · exact hp.issued_subset (h.issued hdid)
  · intro row' hrow' ref href k hk
    have hk : Did (Stored ref.blob) k calls := by
      refine (did_snoc.mp hk).resolve_right fun hs => hfresh hs.2 ?_
      rcases hfrom row' hrow' ref href with ⟨row, hrow, -, href⟩ | ⟨hdid, -⟩
      · exact h.listed row hrow ref href
      · exact h.issued hdid
    rcases hfrom row' hrow' ref href with ⟨row, hrow, hid, href⟩ | ⟨hdid, hi⟩
    · exact hid ▸ h.owner row hrow ref href hk
    · rwa [h.distinct hk hdid]

theorem OwnershipAt.frame {st : SubmitStage} {c : Call Sys World} (h : OwnershipAt i st calls)
    (hij : i ≠ j) : OwnershipAt i st (calls ++ [(j, c)]) := by
  cases st with
  | ended => trivial
  | _ => simpa only [OwnershipAt, Lists, did_snoc_of_ne hij] using h

theorem ownership_keeps {s : System ι} {act : Act ι} (h : (ownership a jobs).Holds s) :
    (ownership a jobs).Keeps machine s act where
  shared hl hm ht := h.1.snoc (lands_performs hl) hm ht
  own := by
    intro i op w r st st' hl hm ht
    have hmoves : JobMoves a (jobs i) st op r st' := hm
    clear hm
    generalize jobs i = job at hmoves
    cases hmoves with
    | submit hsubmit => exact OwnershipAt.step ht (lands_performs hl) hsubmit
    | turn | sweep => trivial
  other := by
    intro i op w r heard st st' hl _ _ j stj p hji _ _ htj
    cases stj with
    | submit stj => exact OwnershipAt.frame htj hji
    | turn | sweep => trivial
  drift := by
    intro e w hdrift
    have hdr := drifts hdrift
    refine ⟨⟨?_, h.1.distinct, ?_, ?_⟩, fun {j stj} hj => ?_⟩
    · rw [hdr.blobs.2]
      exact h.1.issued
    · rw [hdr.emails, hdr.blobs.2]
      exact h.1.listed
    · rw [hdr.emails]
      exact h.1.owner
    · cases stj <;> exact hj

end Catapulte
