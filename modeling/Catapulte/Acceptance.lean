import Catapulte.System

namespace Catapulte

open Async

/-- The call returned `Err`. -/
def Effect.Failed : (op : Effect) → op.Reply → Prop
  | .now, _ | .newUuid, _ | .isCancelled, _ | .isOlderThan .., _ => False
  | .insertOrIgnore .., r | .insertOnConflict .., r | .selectIdByKey _, r | .selectEmail _, r
  | .deleteEmail _, r | .setAttachments .., r | .selectLiveBodies, r | .insertEvent .., r
  | .insertEntry _, r | .claimNext .., r | .claimTransaction .., r | .deleteEntry _, r
  | .leaseEntry .., r | .send .., r | .recv, r | .removePending _, r | .requeuePending .., r
  | .fetch _, r | .putBlob .., r | .deleteBlob _, r | .readDir, r | .process _, r => r.isOk = false

instance : (op : Effect) → (r : op.Reply) → Decidable (op.Failed r)
  | .now, _ | .newUuid, _ | .isCancelled, _ | .isOlderThan .., _ => inferInstanceAs (Decidable False)
  | .insertOrIgnore .., r | .insertOnConflict .., r | .selectIdByKey _, r | .selectEmail _, r
  | .deleteEmail _, r | .setAttachments .., r | .selectLiveBodies, r | .insertEvent .., r
  | .insertEntry _, r | .claimNext .., r | .claimTransaction .., r | .deleteEntry _, r
  | .leaseEntry .., r | .send .., r | .recv, r | .removePending _, r | .requeuePending .., r
  | .fetch _, r | .putBlob .., r | .deleteBlob _, r | .readDir, r | .process _, r =>
      inferInstanceAs (Decidable (r.isOk = false))

def answered : Call Sys World → Option EmailId
  | ⟨_, .selectIdByKey _, .ok id, _⟩ => some id
  | _ => none

abbrev Enqueued (id : EmailId) (c : Call Sys World) : Prop := enqueued c = some id

def Effect.Enqueues (id : EmailId) : Effect → Prop
  | .insertEntry id' | .send id' _ => id' = id
  | _ => False

/-- The email that the call may have enqueued: an insert that returns `Err` may have
stored its entry all the same. -/
def offered : Call Sys World → Option EmailId
  | ⟨_, .insertEntry id, _, _⟩ => some id
  | ⟨_, .send id _, .ok (), _⟩ => some id
  | _ => none

abbrev Offered (id : EmailId) (c : Call Sys World) : Prop := offered c = some id

abbrev Answered (id : EmailId) (c : Call Sys World) : Prop := answered c = some id

abbrev HasFailed (c : Call Sys World) : Prop := c.op.Failed c.reply

instance : DecidablePred HasFailed := fun c => inferInstanceAs (Decidable (c.op.Failed c.reply))

variable {ι : Type} {a : Adapters} {jobs : ι → Job} {w w' : World}
  {calls : List (ι × Call Sys World)} {i j : ι} {id : EmailId} {input : SubmitEmailInput}
  {op : Effect} {r : op.Reply} {heard : Bool}

theorem offered_of_enqueued {c : Call Sys World} (h : Enqueued id c) : Offered id c := by
  obtain ⟨before, op, r, heard⟩ := c
  cases op with
  | insertEntry | send =>
      cases r with
      | ok => exact h
      | error => cases h
  | _ => cases h

theorem enqueues_of_offered {c : Call Sys World} (h : Offered id c) : c.op.Enqueues id := by
  obtain ⟨before, op, r, heard⟩ := c
  cases op with
  | insertEntry => exact Option.some.inj h
  | send =>
      cases r with
      | ok => exact Option.some.inj h
      | error => cases h
  | _ => cases h

theorem enqueued_or_failed {c : Call Sys World} (h : Offered id c) : Enqueued id c ∨ HasFailed c := by
  obtain ⟨before, op, r, heard⟩ := c
  cases op with
  | insertEntry | send =>
      cases r with
      | ok => exact .inl h
      | error => exact .inr rfl
  | _ => cases h

theorem enqueue_moves {job : Job} {st st' : Stage} (hop : op.Enqueues id)
    (hm : JobMoves a job st op r st') : (∃ input refs patched, job = .submit id input ∧
      st = .submit (.reserved refs patched)) ∧ (a.queue = .memory ↔ ∃ envelope, op = .send id envelope) := by
  cases hm with
  | submit hm =>
      cases hm with
      | enqueued hq | enqueueFailed hq =>
          obtain rfl := hop
          refine ⟨⟨_, _, _, rfl, rfl⟩, fun h => absurd h hq, ?_⟩
          rintro ⟨_, h⟩
          cases h
      | sent hq | sendFailed hq =>
          obtain rfl := hop
          exact ⟨⟨_, _, _, rfl, rfl⟩, fun _ => ⟨_, rfl⟩, fun _ => hq⟩
      | _ => cases hop
  | turn hm => cases hm <;> cases hop
  | sweep hm => cases hm <;> cases hop

/-- The email has no row, and no lookup ever answered with it. -/
def Unseen (id : EmailId) (w : World) (calls : List (ι × Call Sys World)) : Prop :=
  (∀ key, ¬ w.HasRow id key) ∧ ¬ Seen (Answered id) calls

theorem hasRow_of_answered (h : Performs w op w' r) (ha : Answered id ⟨w, op, r, heard⟩) :
    ∃ key, w.HasRow id (some key) := by
  cases h with
  | keyFound h =>
      cases ha
      exact ⟨_, hasRow_of_findKey h⟩
  | _ => cases ha

theorem Unseen.snoc (h : Unseen id w calls) (hp : Performs w op w' r)
    (hins : ∀ envelope, ¬ (op = .insertOrIgnore id envelope ∨ op = .insertOnConflict id envelope)) :
    Unseen id w' (calls ++ [(j, ⟨w, op, r, heard⟩)]) := by
  constructor
  · intro key hrow
    rcases hp.hasRow_of hrow with hrow | ⟨envelope, ho, -⟩
    · exact h.1 key hrow
    · exact hins envelope ho
  · rw [seen_snoc]
    rintro (hs | ha)
    · exact h.2 hs
    · obtain ⟨key, hrow⟩ := hasRow_of_answered hp ha
      exact h.1 _ hrow

def AcceptedAt (i : ι) (id : EmailId) (input : SubmitEmailInput) :
    SubmitStage → World → List (ι × Call Sys World) → Prop
  | .saving, w, calls => ¬ Did (fun _ => True) i calls ∧ Unseen id w calls
  | .looking key, w, calls =>
      input.idempotencyKey = some key ∧ ¬ Did (Enqueued id) i calls ∧ Unseen id w calls
  | .reserved .., w, calls => w.HasRow id input.idempotencyKey ∧ ¬ Did (Offered id) i calls ∧
      ¬ Did HasFailed i calls
  | .queued _, _, calls | .announcing .., _, calls => Did (Enqueued id) i calls
  | .undoing .., _, calls => ¬ Did (Enqueued id) i calls ∧ Did HasFailed i calls
  | .ended (.ok id'), w, calls => (id' = id ∧ Did (Enqueued id) i calls) ∨
      (¬ Did (Enqueued id) i calls ∧ Unseen id w calls ∧ Seen (Answered id') calls)
  | .ended (.error _), w, calls => ¬ Did (Enqueued id) i calls ∧
      (Did HasFailed i calls ∨ Unseen id w calls)

theorem AcceptedAt.frame {st : SubmitStage} (h : AcceptedAt i id input st w calls) (hij : i ≠ j)
    (hp : Performs w op w' r) (hdel : op ≠ .deleteEmail id)
    (hins : ∀ envelope, ¬ (op = .insertOrIgnore id envelope ∨ op = .insertOnConflict id envelope)) :
    AcceptedAt i id input st w' (calls ++ [(j, ⟨w, op, r, heard⟩)]) := by
  cases st with
  | saving => exact ⟨by simpa [did_snoc_of_ne hij] using h.1, h.2.snoc hp hins⟩
  | looking key => exact ⟨h.1, by simpa [did_snoc_of_ne hij] using h.2.1, h.2.2.snoc hp hins⟩
  | reserved refs patched =>
      simp only [AcceptedAt, did_snoc_of_ne hij]
      exact ⟨hp.hasRow hdel h.1, h.2⟩
  | queued refs => exact h.append _
  | announcing refs uuid => exact h.append _
  | undoing refs e => simpa only [AcceptedAt, did_snoc_of_ne hij] using h
  | ended result =>
      cases result with
      | ok id' =>
          simp only [AcceptedAt, did_snoc_of_ne hij] at h ⊢
          exact h.imp_right fun h => ⟨h.1, h.2.1.snoc hp hins, h.2.2.append _⟩
      | error e =>
          simp only [AcceptedAt, did_snoc_of_ne hij] at h ⊢
          exact ⟨h.1, h.2.imp_right fun h => h.snoc hp hins⟩

theorem AcceptedAt.congr {st : SubmitStage} (h : AcceptedAt i id input st w calls)
    (he : w'.emails = w.emails) : AcceptedAt i id input st w' calls := by
  cases st with
  | ended result => cases result <;> simpa only [AcceptedAt, Unseen, hasRow_congr he] using h
  | _ => simpa only [AcceptedAt, Unseen, hasRow_congr he] using h

theorem AcceptedAt.insert {op : Effect} {r : op.Reply} {affected : Except EmailRepositoryError Nat}
    (h : AcceptedAt i id input .saving w calls) (hi : Inserted w id (input.envelope []) w' affected)
    (hop : offered ⟨w, op, r, heard⟩ = none) (ha : answered ⟨w, op, r, heard⟩ = none)
    (hf : HasFailed ⟨w, op, r, heard⟩ ↔ affected.isOk = false) :
    AcceptedAt i id input (.afterInsert input.idempotencyKey affected) w'
      (calls ++ [(i, ⟨w, op, r, heard⟩)]) := by
  obtain ⟨hnone, hunseen⟩ := h
  have hoff : ¬ Did (Offered id) i (calls ++ [(i, ⟨w, op, r, heard⟩)]) := by
    rw [did_snoc_self]
    rintro (h | h)
    · exact hnone (h.mono fun _ _ => trivial)
    · rw [Offered, hop] at h; cases h
  have henq : ¬ Did (Enqueued id) i (calls ++ [(i, ⟨w, op, r, heard⟩)]) := fun h => hoff (h.mono fun _ => offered_of_enqueued)
  have hfail : affected.isOk = true → ¬ Did HasFailed i (calls ++ [(i, ⟨w, op, r, heard⟩)]) := by
    intro hok
    rw [did_snoc_self]
    rintro (h | h)
    · exact hnone (h.mono fun _ _ => trivial)
    · rw [hf.mp h] at hok; cases hok
  have hkeep : w' = w → Unseen id w' (calls ++ [(i, ⟨w, op, r, heard⟩)]) := by
    rintro rfl
    refine ⟨hunseen.1, ?_⟩
    rw [seen_snoc]
    rintro (hs | hs)
    · exact hunseen.2 hs
    · rw [Answered, ha] at hs; cases hs
  cases affected with
  | error e => exact ⟨henq, .inl (did_snoc_self.mpr (.inr (hf.mpr rfl)))⟩
  | ok n =>
      cases hi with
      | skipped =>
          simp only [SubmitStage.afterInsert, Nat.zero_ne_one, if_false]
          cases hk : input.idempotencyKey with
          | none => exact ⟨henq, .inr (hkeep rfl)⟩
          | some key => exact ⟨hk, henq, hkeep rfl⟩
      | inserted hid hkey hs =>
          cases hs with
          | ok => exact ⟨hasRow_insertEmail id (input.envelope []), hoff, hfail rfl⟩

theorem AcceptedAt.step {st st' : SubmitStage} (h : AcceptedAt i id input st w calls)
    (hp : Performs w op w' r) (hm : SubmitMoves a id input st op r st') :
    AcceptedAt i id input st' w' (calls ++ [(i, ⟨w, op, r, heard⟩)]) := by
  cases hm with
  | insertOrIgnore =>
      cases hp with
      | insertOrIgnore hi => exact h.insert hi rfl rfl Iff.rfl
  | insertOnConflict =>
      cases hp with
      | insertOnConflict hi => exact h.insert hi rfl rfl Iff.rfl
  | found =>
      obtain ⟨-, henq, hun⟩ := h
      exact .inr ⟨not_did_snoc henq nofun, hun.snoc hp (by simp), seen_snoc.mpr (.inr rfl)⟩
  | notFound =>
      obtain ⟨-, henq, hun⟩ := h
      exact ⟨not_did_snoc henq nofun, .inr (hun.snoc hp (by simp))⟩
  | fetched | stored | patched =>
      obtain ⟨hrow, henq, hfail⟩ := h
      exact ⟨hp.hasRow (by simp) hrow, not_did_snoc henq nofun, not_did_snoc hfail nofun⟩
  | fetchFailed | storeFailed | patchFailed | enqueueFailed | sendFailed =>
      obtain ⟨-, hoff, -⟩ := h
      exact ⟨not_did_snoc (fun h => hoff (h.mono fun _ => offered_of_enqueued)) nofun, did_snoc_self.mpr (.inr rfl)⟩
  | enqueued | sent => exact did_snoc_self.mpr (.inr rfl)
  | drawn => exact h.append _
  | announced => exact .inl ⟨rfl, h.append _⟩
  | blobDeleted => exact ⟨not_did_snoc h.1 nofun, h.2.append _⟩
  | rowDeleted => exact ⟨not_did_snoc h.1 nofun, .inl (h.2.append _)⟩

/-- The enqueues for an idempotency key. -/
def enqueuesFor (jobs : ι → Job) (key : String) (x : ι × Call Sys World) : Bool :=
  (enqueued x.2).isSome && decide ((jobs x.1).idempotencyKey = some key)

structure Accepted (jobs : ι → Job) (w : World) (calls : List (ι × Call Sys World)) : Prop where
  keysUnique : w.KeysUnique
  hasRow : ∀ {i id}, Did (Enqueued id) i calls →
    ∃ input, jobs i = .submit id input ∧ w.HasRow id input.idempotencyKey
  offered : ∀ {i id}, Did (Offered id) i calls → ∃ input, jobs i = .submit id input
  once : ∀ key, (calls.filter (enqueuesFor jobs key)).length ≤ 1

def AcceptedTask (jobs : ι → Job) (i : ι) : Stage → World → List (ι × Call Sys World) → Prop
  | .submit st, w, calls => ∀ {id input}, jobs i = .submit id input → AcceptedAt i id input st w calls
  | _, _, _ => True

def acceptance (a : Adapters) (jobs : ι → Job) : Outlines ι :=
  outline a jobs (Accepted jobs) (AcceptedTask jobs)

theorem acceptedTask_start (hw : Ready jobs w) (i : ι) : AcceptedTask jobs i (jobs i).start w [] := by
  cases hi : jobs i with
  | submit id input =>
      rintro id' input' hi'
      rw [hi] at hi'
      cases hi'
      exact ⟨did_nil, fun key => hw.fresh hi, seen_nil⟩
  | turn => trivial
  | sweep => trivial

theorem acceptance_start (hw : Ready jobs w) : (acceptance a jobs).Holds (System.start a w jobs) :=
  outline_start ⟨hw.keysUnique, fun h => absurd h did_nil, fun h => absurd h did_nil, fun key => by simp⟩ (acceptedTask_start hw)

theorem Accepted.snoc (h : Accepted jobs w calls) (hd : DistinctIds jobs) {st st' : Stage}
    (hp : Performs w op w' r) (hm : JobMoves a (jobs i) st op r st')
    (ht : AcceptedTask jobs i st w calls) : Accepted jobs w' (calls ++ [(i, ⟨w, op, r, heard⟩)]) := by
  have hkeep : ∀ {j id}, Did (Enqueued id) j calls →
      ∃ input, jobs j = .submit id input ∧ w'.HasRow id input.idempotencyKey := by
    intro j id hj
    obtain ⟨input, hjob, hrow⟩ := h.hasRow hj
    refine ⟨input, hjob, hp.hasRow (fun ho => ?_) hrow⟩
    obtain ⟨input', e, hi, rfl⟩ := deleteEmail_moves ho hm
    obtain rfl := hd hi hjob
    exact (ht hi).1 hj
  constructor
  · exact hp.keysUnique h.keysUnique
  · intro j id hj
    rcases did_snoc.mp hj with hj | ⟨rfl, hc⟩
    · exact hkeep hj
    · obtain ⟨input, refs, patched, hi, rfl, -, ho⟩ := enqueued_moves hm hc
      exact ⟨input, hi, hp.hasRow (by rcases ho with rfl | rfl <;> simp) (ht hi).1⟩
  · intro j id hj
    rcases did_snoc.mp hj with hj | ⟨rfl, hop⟩
    · exact h.offered hj
    · obtain ⟨⟨input, refs, patched, hi, -⟩, -⟩ := enqueue_moves (enqueues_of_offered hop) hm
      exact ⟨input, hi⟩
  · intro key
    rw [List.filter_append, List.length_append]
    by_cases hc : enqueuesFor jobs key (i, ⟨w, op, r, heard⟩) = true
    · have hc' := hc
      simp only [enqueuesFor, Bool.and_eq_true, decide_eq_true_eq] at hc'
      obtain ⟨id, hid⟩ := Option.isSome_iff_exists.mp hc'.1
      obtain ⟨input, refs, patched, hi, rfl, -, -⟩ := enqueued_moves hm hid
      obtain ⟨hrow, hnot, -⟩ := ht hi
      have hnil : calls.filter (enqueuesFor jobs key) = [] := by
        rw [List.filter_eq_nil_iff]
        rintro ⟨j, c⟩ hmem hj
        simp only [enqueuesFor, Bool.and_eq_true, decide_eq_true_eq] at hj
        obtain ⟨id', hid'⟩ := Option.isSome_iff_exists.mp hj.1
        have hdid : Did (Enqueued id') j calls := ⟨c, hmem, hid'⟩
        obtain ⟨input', hjob, hrow'⟩ := h.hasRow hdid
        have hk' : input'.idempotencyKey = some key := by simpa [hjob, Job.idempotencyKey] using hj.2
        have hk : input.idempotencyKey = some key := by simpa [hi, Job.idempotencyKey] using hc'.2
        rw [hk] at hrow
        rw [hk'] at hrow'
        obtain rfl := h.keysUnique hrow hrow'
        obtain rfl := hd hjob hi
        exact hnot (hdid.mono fun _ => offered_of_enqueued)
      simp [hnil, hc]
    · simpa [List.filter_singleton, hc] using h.once key

theorem acceptance_keeps (hd : DistinctIds jobs) {s : System ι} {act : Act ι}
    (h : (acceptance a jobs).Holds s) : (acceptance a jobs).Keeps machine s act where
  shared hl hm ht := h.1.snoc hd (lands_performs hl) hm ht
  own := by
    intro i op w r st st' hl hm ht
    cases st' with
    | submit st' =>
        intro id input hi
        have hm' : JobMoves a (jobs i) st op r (.submit st') := hm
        rw [hi] at hm'
        obtain ⟨s₁, s₂, rfl, hs, hsm⟩ := submit_moves hm'
        cases hs
        exact (ht hi).step (lands_performs hl) hsm
    | turn => trivial
    | sweep => trivial
  other := by
    intro i op w r heard st st' hl hm ht j stj p hji _ _ htj
    cases stj with
    | submit stj =>
        intro id input hjob
        obtain ⟨hdel, hins⟩ := foreign_moves hd (Ne.symm hji) hjob hm
        exact (htj hjob).frame hji (lands_performs hl) hdel hins
    | turn => trivial
    | sweep => trivial
  drift := by
    intro e w hdrift
    have he := (drifts hdrift).emails
    refine ⟨⟨?_, ?_, h.1.offered, h.1.once⟩, fun {j stj} hj => ?_⟩
    · intro key id id' h₁ h₂
      exact h.1.keysUnique ((hasRow_congr he).mp h₁) ((hasRow_congr he).mp h₂)
    · intro i id hi
      obtain ⟨input, hjob, hrow⟩ := h.1.hasRow hi
      exact ⟨input, hjob, (hasRow_congr he).mpr hrow⟩
    · cases stj with
      | submit stj => exact fun hjob => (hj hjob).congr he
      | turn => trivial
      | sweep => trivial

end Catapulte
