import Catapulte.Session.Turn

namespace Catapulte

open Async

/-- The stages of a sweep. `live` is the snapshot of the live blobs; `keys` are
the keys collected so far, later those that are left. -/
inductive SweepStage
  | idle
  | reading
  | listing (live : List BlobRef)
  | sweeping (live : List BlobRef) (keys : List String)
  | deleting (live : List BlobRef) (key : String) (keys : List String)
  | ended

open SweepStage

inductive SweepMoves (a : Adapters) : SweepStage → (op : Effect) → op.Reply → SweepStage → Prop
  | started {flag} : SweepMoves a idle .isCancelled flag (if flag then ended else reading)
  | read {live} : SweepMoves a reading .selectLiveBodies (.ok live) (listing live)
  | readFailed {e} : SweepMoves a reading .selectLiveBodies (.error e) ended
  | listed {live names} : SweepMoves a (listing live) .readDir (.ok names) (sweeping live [])
  | listFailed {live e} : SweepMoves a (listing live) .readDir (.error e) ended
  | stat {live keys name r} : SweepMoves a (sweeping live keys) (.isOlderThan "fs" name a.gracePeriod) r
      (sweeping live (if r then keys ++ [name] else keys))
  | stopped {live keys} : SweepMoves a (sweeping live keys) .isCancelled true ended
  | spared {live key keys} (h : key ∈ AttachmentGc.liveKeys "fs" live) :
      SweepMoves a (sweeping live (key :: keys)) .isCancelled false (sweeping live keys)
  | doomed {live key keys} (h : key ∉ AttachmentGc.liveKeys "fs" live) :
      SweepMoves a (sweeping live (key :: keys)) .isCancelled false (deleting live key keys)
  | deleted {live key keys r} : SweepMoves a (deleting live key keys) (.deleteBlob ⟨"fs", key⟩) r
      (sweeping live keys)

variable {a : Adapters}

abbrev FollowsSweep (a : Adapters) {α : Type} (p : Prog α) (st : SweepStage) : Prop :=
  p.Follows (SweepMoves a) (fun _ _ => True) st

theorem removeOrphans_follows (live : List BlobRef) (keys : List String) :
    FollowsSweep a (a.attachmentGc.removeOrphans (AttachmentGc.liveKeys "fs" live) keys)
      (sweeping live keys) := by
  induction keys with
  | nil => trivial
  | cons key keys ih =>
      rintro (_ | _)
      · simp only [List.contains_eq_mem, decide_eq_true_eq]
        split
        · exact ⟨_, .spared ‹_›, ih⟩
        · exact ⟨_, .doomed ‹_›, fun r => ⟨_, .deleted, ih⟩⟩
      · exact ⟨_, .stopped, trivial⟩

theorem keysOlderThan_follows (live : List BlobRef) (names keys : List String) :
    (FsAttachmentStore.keysOlderThan a.gracePeriod names keys).Follows (SweepMoves a)
      (fun st r => ∃ keys, r = .ok keys ∧ st = sweeping live keys) (sweeping live keys) := by
  induction names generalizing keys with
  | nil => exact ⟨keys, rfl, rfl⟩
  | cons name names ih =>
      unfold FsAttachmentStore.keysOlderThan
      split
      · exact ih keys
      · exact fun r => ⟨_, .stat, ih _⟩

theorem listKeysOlderThan_follows (live : List BlobRef) :
    (FsAttachmentStore.listKeysOlderThan a.gracePeriod).Follows (SweepMoves a)
      (fun st r => match r with | .ok keys => st = sweeping live keys | .error _ => st = ended)
      (listing live) := by
  rintro (e | names)
  · exact ⟨_, .listFailed, rfl⟩
  · refine ⟨_, .listed, (keysOlderThan_follows live names []).mono ?_⟩
    rintro _ _ ⟨keys, rfl, rfl⟩
    rfl

theorem sweepOnce_follows : FollowsSweep a a.attachmentGc.sweepOnce idle := by
  rintro (_ | _)
  · refine ⟨_, .started, ?_⟩
    simp only [Bool.false_eq_true, if_false, Adapters.attachmentGc,
      Adapters.repository_listAllAttachmentBlobs]
    rintro (e | live)
    · exact ⟨_, .readFailed, trivial⟩
    · refine ⟨_, .read, (listKeysOlderThan_follows live).bind ?_⟩
      rintro st (e | keys) h
      · trivial
      · subst h
        exact removeOrphans_follows live keys
  · exact ⟨_, .started, trivial⟩

inductive Stage
  | submit (st : SubmitStage)
  | turn (st : TurnStage)
  | sweep (st : SweepStage)

inductive JobMoves (a : Adapters) : Job → Stage → (op : Effect) → op.Reply → Stage → Prop
  | submit {id input st op r st'} (h : SubmitMoves a id input st op r st') :
      JobMoves a (.submit id input) (.submit st) op r (.submit st')
  | turn {st op r st'} (h : TurnMoves a st op r st') : JobMoves a .turn (.turn st) op r (.turn st')
  | sweep {st op r st'} (h : SweepMoves a st op r st') :
      JobMoves a .sweep (.sweep st) op r (.sweep st')

theorem submit_moves {id : EmailId} {input : SubmitEmailInput} {st st' : Stage} {op : Effect}
    {r : op.Reply} (h : JobMoves a (.submit id input) st op r st') :
    ∃ s s', st = .submit s ∧ st' = .submit s' ∧ SubmitMoves a id input s op r s' := by
  cases h with
  | submit h => exact ⟨_, _, rfl, rfl, h⟩

theorem turn_moves {st st' : Stage} {op : Effect} {r : op.Reply} (h : JobMoves a .turn st op r st') :
    ∃ s s', st = .turn s ∧ st' = .turn s' ∧ TurnMoves a s op r s' := by
  cases h with
  | turn h => exact ⟨_, _, rfl, rfl, h⟩

theorem sweep_moves {st st' : Stage} {op : Effect} {r : op.Reply} (h : JobMoves a .sweep st op r st') :
    ∃ s s', st = .sweep s ∧ st' = .sweep s' ∧ SweepMoves a s op r s' := by
  cases h with
  | sweep h => exact ⟨_, _, rfl, rfl, h⟩

inductive JobEnds : Job → Stage → JobResult → Prop
  | submit {id input r} : JobEnds (.submit id input) (.submit (.ended r)) (.submitted r)
  | turn : JobEnds .turn (.turn .ended) .worked
  | sweep {st r} : JobEnds .sweep (.sweep st) (.swept r)

theorem submitted_ends {job : Job} {st : Stage} {r : Except SubmitEmailError EmailId}
    (h : JobEnds job st (.submitted r)) : st = .submit (.ended r) := by
  cases h
  rfl

theorem reply_nonempty (op : Effect) : Nonempty op.Reply := by
  cases op with
  | now => exact ⟨(0 : Int)⟩
  | newUuid => exact ⟨(0 : Nat)⟩
  | isCancelled | isOlderThan => exact ⟨false⟩
  | insertOrIgnore | insertOnConflict => exact ⟨.ok 0⟩
  | selectIdByKey => exact ⟨.ok ⟨0⟩⟩
  | selectLiveBodies | readDir | fetch => exact ⟨.ok []⟩
  | selectEmail | claimNext | claimTransaction | recv => exact ⟨.ok none⟩
  | putBlob => exact ⟨.ok ⟨⟨"", ""⟩, 0⟩⟩
  | process => exact ⟨.ok ⟨""⟩⟩
  | deleteEmail | setAttachments | insertEvent | insertEntry | deleteEntry | leaseEntry | send
  | removePending | requeuePending | deleteBlob => exact ⟨.ok ()⟩

theorem done_of_follows {job : Job} {st : Stage} {p : Prog JobResult}
    (h : p.Follows (JobMoves a job) (JobEnds job) st)
    (hst : ∀ {op r st'}, ¬ JobMoves a job st op r st') : ∃ r, p = .done r ∧ JobEnds job st r := by
  cases p with
  | done r => exact ⟨r, rfl, h⟩
  | await op next =>
      obtain ⟨r⟩ := reply_nonempty op
      obtain ⟨st', hm, -⟩ := h r
      exact absurd hm hst

theorem not_moves_ended {job : Job} {op : Effect} {r : op.Reply} {st' : Stage} :
    ¬ JobMoves a job (.turn .ended) op r st' := by
  intro h
  cases h with
  | turn h => cases h

theorem done_of_ended {job : Job} {r : Except SubmitEmailError EmailId} {p : Prog JobResult}
    (h : p.Follows (JobMoves a job) (JobEnds job) (.submit (.ended r))) :
    p = .done (.submitted r) := by
  obtain ⟨res, rfl, hr⟩ := done_of_follows h (by rintro _ _ _ ⟨hm⟩; cases hm)
  cases hr
  rfl

theorem lookup_moves {job : Job} {st st' : Stage} {key : String} {id : EmailId}
    (hm : JobMoves a job st (.selectIdByKey key) (.ok id) st') : st' = .submit (.ended (.ok id)) := by
  cases hm with
  | submit hm => cases hm; rfl
  | turn hm => cases hm
  | sweep hm => cases hm

theorem stage_of_submit {id : EmailId} {input : SubmitEmailInput} {st : Stage} {p : Prog JobResult}
    (h : p.Follows (JobMoves a (.submit id input)) (JobEnds (.submit id input)) st) :
    ∃ s, st = .submit s := by
  cases st with
  | submit s => exact ⟨s, rfl⟩
  | turn | sweep =>
      obtain ⟨r, -, hr⟩ := done_of_follows h nofun
      cases hr

def Job.start : Job → Stage
  | submit _ _ => .submit .saving
  | turn => .turn .polling
  | sweep => .sweep .idle

theorem program_follows (job : Job) :
    (job.program a).Follows (JobMoves a job) (JobEnds job) job.start := by
  cases job with
  | submit id input =>
      have h : ((a.submitEmail.execute id input)).Follows (JobMoves a (.submit id input))
          (fun st r => st = .submit (.ended r)) (.submit .saving) :=
        execute_follows.embed (fun h => .submit h) fun h => by rw [h]
      exact h.map fun _ _ h => by rw [h]; exact .submit
  | turn =>
      have h : (a.worker.turn).Follows (JobMoves a .turn) (fun st _ => st = .turn .ended)
          (.turn .polling) := turn_follows.embed (fun h => .turn h) fun h => by rw [h]
      exact h.map fun _ _ h => by rw [h]; exact .turn
  | sweep =>
      have h : (a.attachmentGc.sweepOnce).Follows (JobMoves a .sweep) (fun st _ => ∃ s, st = .sweep s)
          (.sweep .idle) := sweepOnce_follows.embed (fun h => .sweep h) fun _ => ⟨_, rfl⟩
      refine h.map ?_
      rintro _ r ⟨s, rfl⟩
      exact .sweep

end Catapulte
