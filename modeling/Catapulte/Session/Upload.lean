import Catapulte.Async.Guarded
import Catapulte.Session.Only
import Catapulte.Session.Submit

namespace Catapulte

open Async

namespace AttachmentInput

def filename : AttachmentInput → String
  | inline filename .. | stream filename .. | remote filename .. => filename

def contentType : AttachmentInput → String
  | inline _ contentType _ | stream _ contentType _ | remote _ contentType _ => contentType

/-- The content of the attachment: that of a remote one is what the fetch answered. -/
def Has (t : List (Exchange Sys)) : AttachmentInput → List UInt8 → Prop
  | inline _ _ bytes, content | stream _ _ bytes, content => content = bytes
  | remote _ _ url, content => (⟨.fetch url, .ok content⟩ : Exchange Sys) ∈ t

end AttachmentInput

/-- The content of the attachment was put, and the ref names the blob. -/
structure Uploaded (t : List (Exchange Sys)) (att : AttachmentInput) (ref : AttachmentRef) : Prop where
  filename : ref.filename = att.filename
  contentType : ref.contentType = att.contentType
  put : ∃ content, att.Has t content ∧
    (⟨.putBlob "fs" content, .ok ⟨ref.blob, ref.sizeBytes⟩⟩ : Exchange Sys) ∈ t

/-- The refs are those of all attachments, in their order. -/
def SubmitEmailInput.Complete (input : SubmitEmailInput) (t : List (Exchange Sys)) (refs : List AttachmentRef) : Prop :=
  List.Forall₂ (Uploaded t) input.attachments refs

def SubmitEmailInput.Committed (input : SubmitEmailInput) (id : EmailId) (t : List (Exchange Sys)) : Prop :=
  input.attachments = [] ∨ ∃ refs, (⟨.setAttachments id refs, .ok ()⟩ : Exchange Sys) ∈ t

/-- What a submission has done before it commits its attachments, and before it enqueues. -/
def Posts (id : EmailId) (input : SubmitEmailInput) (t : List (Exchange Sys)) : Effect → Prop
  | .setAttachments id' refs => id' = id ∧ input.Complete t refs
  | .insertEntry id' => id' = id ∧ input.Committed id t
  | .send id' envelope =>
      id' = id ∧ input.Committed id t ∧ ∃ refs, envelope = input.envelope refs ∧ input.Complete t refs
  | _ => True

variable {a : Adapters} {id : EmailId} {input : SubmitEmailInput} {t t' : List (Exchange Sys)}
  {refs : List AttachmentRef}

theorem AttachmentInput.Has.mono {att : AttachmentInput} {content : List UInt8} (h : att.Has t content) (ht : t ⊆ t') :
    att.Has t' content := by
  cases att with
  | inline | stream => exact h
  | remote => exact ht h

theorem Uploaded.mono {att : AttachmentInput} {ref : AttachmentRef} (h : Uploaded t att ref) (ht : t ⊆ t') :
    Uploaded t' att ref := by
  obtain ⟨content, hhas, hput⟩ := h.put
  exact ⟨h.filename, h.contentType, content, hhas.mono ht, ht hput⟩

theorem uploaded_mono {atts : List AttachmentInput} (h : List.Forall₂ (Uploaded t) atts refs) (ht : t ⊆ t') :
    List.Forall₂ (Uploaded t') atts refs := h.imp fun _ _ h => h.mono ht

abbrev FollowsPosts (id : EmailId) (input : SubmitEmailInput) (p : Prog (Except SubmitEmailError EmailId))
    (t : List (Exchange Sys)) : Prop := p.Follows (tracking (Posts id input)) (fun _ _ => True) t

theorem rollback_posts (e : SubmitEmailError) (refs : List AttachmentRef) (t : List (Exchange Sys)) :
    FollowsPosts id input (a.submitEmail.rollback id e refs) t := by
  refine Program.Only.tracks ?_ t
  induction refs with
  | nil =>
      simp only [SubmitEmailService.rollback, Adapters.submitEmail, Adapters.repository_delete]
      exact ⟨fun _ => trivial, fun _ => trivial⟩
  | cons ref refs ih => exact ⟨fun _ => trivial, fun _ => ih⟩

theorem enqueue_posts (hc : input.Complete t refs) (hcommitted : input.Committed id t) :
    (a.queue.emailQueue.enqueue id (input.envelope refs)).Follows (tracking (Posts id input)) (fun _ _ => True) t := by
  cases a.queue with
  | sqlite | postgres => exact fun r => ⟨_, ⟨⟨rfl, hcommitted⟩, rfl⟩, trivial⟩
  | memory => exact fun r => ⟨_, ⟨⟨rfl, hcommitted, refs, rfl, hc⟩, rfl⟩, trivial⟩

theorem handOver_posts (hc : input.Complete t refs) (hcommitted : input.Committed id t) :
    FollowsPosts id input (a.submitEmail.handOver id (input.envelope refs)) t := by
  refine (enqueue_posts hc hcommitted).bind ?_
  rintro t' (e | ⟨⟩) -
  · exact rollback_posts _ _ _
  · exact fun uuid => ⟨_, ⟨trivial, rfl⟩, fun r => ⟨_, ⟨trivial, rfl⟩, trivial⟩⟩

theorem patchAttachments_posts (hc : input.Complete t refs) :
    FollowsPosts id input (a.submitEmail.patchAttachments id input refs) t := by
  unfold SubmitEmailService.patchAttachments
  split
  · have hrefs : refs = [] := List.isEmpty_iff.mp ‹_›
    have hnone : input.attachments = [] := by
      subst hrefs
      exact List.forall₂_nil_right_iff.mp hc
    exact handOver_posts hc (.inl hnone)
  · simp only [Adapters.submitEmail, Adapters.repository_setAttachments]
    intro r
    refine ⟨_, ⟨⟨rfl, hc⟩, rfl⟩, ?_⟩
    cases r with
    | error e => exact rollback_posts _ _ _
    | ok =>
        exact handOver_posts (uploaded_mono hc (List.subset_append_left _ _))
          (.inr ⟨refs, List.mem_append_right _ List.mem_cons_self⟩)

theorem store_posts (att : AttachmentInput) {reader : AttachmentReader} {done : List AttachmentInput}
    {rest : List AttachmentRef → Prog (Except SubmitEmailError EmailId)} (hdone : List.Forall₂ (Uploaded t) done refs)
    (hhas : att.Has t reader)
    (hrest : ∀ {t' refs'}, t ⊆ t' → List.Forall₂ (Uploaded t') (done ++ [att]) refs' →
      FollowsPosts id input (rest refs') t') :
    FollowsPosts id input (a.submitEmail.store id att.filename att.contentType reader refs rest) t := by
  intro r
  refine ⟨_, ⟨trivial, rfl⟩, ?_⟩
  cases r with
  | error e => exact rollback_posts _ _ _
  | ok result =>
      have hsub := List.subset_append_left t [(⟨.putBlob "fs" reader, .ok result⟩ : Exchange Sys)]
      refine hrest hsub ?_
      refine List.rel_append (uploaded_mono hdone hsub) (.cons ⟨rfl, rfl, reader, hhas.mono hsub, ?_⟩ .nil)
      exact List.mem_append_right _ List.mem_cons_self

theorem writeAttachments_posts (rest : List AttachmentInput) {done : List AttachmentInput}
    (hinput : input.attachments = done ++ rest) (hdone : List.Forall₂ (Uploaded t) done refs) :
    FollowsPosts id input (a.submitEmail.writeAttachments id input rest refs) t := by
  induction rest generalizing done refs t with
  | nil =>
      rw [List.append_nil] at hinput
      refine patchAttachments_posts ?_
      rw [SubmitEmailInput.Complete, hinput]
      exact hdone
  | cons att rest ih =>
      have hnext : ∀ {t' refs'}, List.Forall₂ (Uploaded t') (done ++ [att]) refs' →
          FollowsPosts id input (a.submitEmail.writeAttachments id input rest refs') t' := by
        intro t' refs' h
        refine ih ?_ h
        rw [hinput, List.append_assoc]
        rfl
      cases att with
      | inline filename contentType bytes =>
          exact store_posts (.inline filename contentType bytes) hdone rfl fun _ h => hnext h
      | stream filename contentType reader =>
          exact store_posts (.stream filename contentType reader) hdone rfl fun _ h => hnext h
      | remote filename contentType url =>
          intro r
          refine ⟨_, ⟨trivial, rfl⟩, ?_⟩
          cases r with
          | error e => exact rollback_posts _ _ _
          | ok reader =>
              refine store_posts (.remote filename contentType url) (uploaded_mono hdone (List.subset_append_left _ _))
                (List.mem_append_right _ List.mem_cons_self) fun _ h => hnext h

theorem execute_posts : FollowsPosts id input (a.submitEmail.execute id input) [] := by
  have hsave : (a.storage.emailRepository.save id (input.envelope [])).Only fun op => ∀ t, Posts id input t op := by
    have hresult : ∀ r, (saveResult id (input.envelope []) r).Only fun op => ∀ t, Posts id input t op := by
      rintro (e | affected)
      · trivial
      · simp only [saveResult]
        split
        · trivial
        · cases (input.envelope []).idempotencyKey with
          | none => trivial
          | some key =>
              refine ⟨fun _ => trivial, fun r => ?_⟩
              cases r <;> trivial
    cases a.storage with
    | sqlite | postgres => exact ⟨fun _ => trivial, hresult⟩
  refine (hsave.tracks []).bind ?_
  rintro t (e | ⟨created⟩ | ⟨existing⟩) -
  · trivial
  · exact writeAttachments_posts _ rfl .nil
  · trivial

end Catapulte
