import Catapulte.Acceptance

namespace Catapulte

open Async

variable {ι : Type} {a : Adapters} {jobs : ι → Job} {w : World} {s : System ι}

theorem acceptance_holds [DecidableEq ι] {as : List (Act ι)} (hw : Ready jobs w) (hr : Reaches a w jobs as s) :
    (acceptance a jobs).Holds s :=
  Pool.run_invariant (fun h hs => Pool.Outline.step h (acceptance_keeps hw.distinct) hs)
    (acceptance_start hw) hr

/-- Puts, enqueues and the calls of an event publication. -/
def Effect.Produces : Effect → Prop
  | .putBlob .. | .insertEntry _ | .send .. | .newUuid | .insertEvent .. => True
  | _ => False

def Late (jobs : ι → Job) (key : String) (pre : List (ι × Call Sys World)) (j : ι) : Prop :=
  (jobs j).idempotencyKey = some key ∧ ¬ Did (fun _ => True) j pre

/-- The stages of a submission that finds the email `id` under its key. -/
inductive FindsEmail (key : String) (id : EmailId) : Stage → Prop
  | saving : FindsEmail key id (.submit .saving)
  | looking : FindsEmail key id (.submit (.looking key))
  | found : FindsEmail key id (.submit (.ended (.ok id)))
  | failed (e) : FindsEmail key id (.submit (.ended (.error e)))

theorem not_inserted {w w' : World} {id id' : EmailId} {key : String} {envelope : Envelope} {n : Nat}
    (hrow : w.HasRow id (some key)) (hkey : envelope.idempotencyKey = some key)
    (h : Inserted w id' envelope w' (.ok n)) : n ≠ 1 := by
  cases h with
  | skipped => simp
  | inserted _ hk _ => exact absurd hrow (not_hasRow_of_keyTaken (by rwa [hkey] at hk))

theorem FindsEmail.afterInsert {w w' : World} {id id' : EmailId} {key : String}
    {input : SubmitEmailInput} {r : Except EmailRepositoryError Nat}
    (hrow : w.HasRow id (some key)) (hkey : input.idempotencyKey = some key)
    (h : Inserted w id' (input.envelope []) w' r) :
    FindsEmail key id (.submit (.afterInsert input.idempotencyKey r)) := by
  cases r with
  | error e => exact .failed _
  | ok n =>
      rw [hkey, SubmitStage.afterInsert, if_neg (not_inserted hrow hkey h)]
      exact .looking

theorem FindsEmail.step {w w' : World} {id id' : EmailId} {key : String} {input : SubmitEmailInput}
    {st st' : Stage} {op : Effect} {r : op.Reply} (h : FindsEmail key id st)
    (hkey : input.idempotencyKey = some key) (hu : w.KeysUnique) (hrow : w.HasRow id (some key))
    (hp : Performs w op w' r) (hm : JobMoves a (.submit id' input) st op r st') :
    FindsEmail key id st' ∧ ¬ op.Produces := by
  obtain ⟨s, s', rfl, rfl, hs⟩ := submit_moves hm
  cases h with
  | saving =>
      cases hs with
      | insertOrIgnore =>
          cases hp with
          | insertOrIgnore hi => exact ⟨.afterInsert hrow hkey hi, not_false⟩
      | insertOnConflict =>
          cases hp with
          | insertOnConflict hi => exact ⟨.afterInsert hrow hkey hi, not_false⟩
  | looking =>
      cases hs with
      | found =>
          cases hp with
          | keyFound hf =>
              rw [hu (hasRow_of_findKey hf) hrow]
              exact ⟨.found, not_false⟩
      | notFound => exact ⟨.failed _, not_false⟩
  | found => cases hs
  | failed => cases hs

def finding (a : Adapters) (jobs : ι → Job) (key : String) (id : EmailId)
    (pre : List (ι × Call Sys World)) (x : ι × Call Sys World) : Outlines ι :=
  outline a jobs
    (fun _ calls => ∃ post, calls = pre ++ x :: post ∧
      ∀ j, Late jobs key pre j → ¬ Did (fun c : Call Sys World => c.op.Produces) j post)
    fun j st _ _ => Late jobs key pre j → FindsEmail key id st

theorem finding_keeps {key : String} {id : EmailId} {pre : List (ι × Call Sys World)}
    {x : ι × Call Sys World} {act : Act ι} (hacc : (acceptance a jobs).Holds s)
    (hrow : s.world.HasRow id (some key)) (h : (finding a jobs key id pre x).Holds s) :
    (finding a jobs key id pre x).Keeps machine s act := by
  have hstep : ∀ {i op w r heard st st'}, Pool.Lands machine s act i op w r heard →
      JobMoves a (jobs i) st op r st' → (Late jobs key pre i → FindsEmail key id st) →
      Late jobs key pre i → FindsEmail key id st' ∧ ¬ op.Produces := by
    intro i op w r heard st st' hl hm ht hlate
    cases hj : jobs i with
    | submit id' input =>
        rw [hj] at hm
        exact (ht hlate).step (by simpa [hj, Job.idempotencyKey] using hlate.1) hacc.1.keysUnique hrow
          (lands_performs hl) hm
    | turn => simp [Late, hj, Job.idempotencyKey] at hlate
    | sweep => simp [Late, hj, Job.idempotencyKey] at hlate
  constructor
  · intro i op w r heard st st' hl hm ht
    obtain ⟨post, hcalls, hpost⟩ := h.1
    refine ⟨post ++ [(i, ⟨s.world, op, r, heard⟩)], by simp [hcalls], fun j hlate => ?_⟩
    rw [did_snoc]
    rintro (hd | ⟨rfl, hc⟩)
    · exact hpost j hlate hd
    · exact (hstep hl hm ht hlate).2 hc
  · exact fun hl hm ht hlate => (hstep hl hm ht hlate).1
  · intro i op w r heard st st' _ _ _ j stj p _ _ _ htj
    exact htj
  · exact fun _ => ⟨h.1, fun h => h⟩

/-- For every idempotency key at most one enqueue succeeds, and a submission
whose save comes after it stores, enqueues and publishes nothing and can only
return the id of that email. -/
theorem one_email_per_key [DecidableEq ι] {as : List (Act ι)} (a : Adapters) (hw : Ready jobs w) (hr : Reaches a w jobs as s)
    (key : String) :
    (s.calls.filter (enqueuesFor jobs key)).length ≤ 1 ∧
    ∀ {pre post i c id}, s.calls = pre ++ (i, c) :: post → enqueued c = some id →
      (jobs i).idempotencyKey = some key → ∀ {j}, (jobs j).idempotencyKey = some key →
      (∀ d, (j, d) ∉ pre) → (∀ d, (j, d) ∈ post → ¬ d.op.Produces) ∧
        ∀ id', s.task j = some (.done (.submitted (.ok id'))) → id' = id := by
  refine ⟨(acceptance_holds hw hr).1.once key, ?_⟩
  intro pre post i c id hcalls hc hi j hj hpre
  obtain ⟨bs, b, cs, t, t', rfl, hbs, hst, rfl, ht', hcs⟩ := Pool.run_split hr hcalls (Nat.zero_le _)
  have hacc := acceptance_holds hw hbs
  have hacc' := Pool.Outline.step hacc (acceptance_keeps hw.distinct) hst
  have hlate : Late jobs key t.calls j := ⟨hj, fun ⟨d, hd, _⟩ => hpre d hd⟩
  have hdid : Did (Enqueued id) i t'.calls := by
    rw [ht']
    exact did_snoc_self.mpr (.inr hc)
  have hrow : ∀ {u : System ι}, (acceptance a jobs).Holds u → Did (Enqueued id) i u.calls →
      u.world.HasRow id (some key) := by
    intro u hu hd
    obtain ⟨input, hjob, hrow⟩ := hu.1.hasRow hd
    simp only [hjob, Job.idempotencyKey] at hi
    rwa [hi] at hrow
  have hne : ∀ {k}, Late jobs key t.calls k → k ≠ i := by
    rintro k hk rfl
    obtain ⟨next, ch, htask, -, -⟩ := Pool.step_lands hst ht'
    have hp := Pool.run_untouched hbs htask hk.2
    have hf := program_follows (a := a) (jobs k)
    rw [← hp] at hf
    obtain ⟨st', hm, -⟩ := hf c.reply
    obtain ⟨input, refs, patched, hjob, hstage, -, -⟩ := enqueued_moves (w := c.before) hm hc
    rw [hjob] at hstage
    cases hstage
  have hstart : (finding a jobs key id t.calls (i, c)).Holds t' := by
    refine ⟨⟨[], ht', fun _ _ => did_nil⟩, fun k p hp => ?_⟩
    by_cases hk : Late jobs key t.calls k
    · have hn : ¬ Did (fun _ => True) k t'.calls := by
        rw [ht', did_snoc_of_ne (hne hk)]
        exact hk.2
      obtain rfl := Pool.run_untouched (Pool.run_snoc hbs hst) hp hn
      refine ⟨_, program_follows (jobs k), fun _ => ?_⟩
      cases hjob : jobs k with
      | submit => exact .saving
      | turn | sweep => simp [Late, hjob, Job.idempotencyKey] at hk
    · obtain ⟨st, hf, -⟩ := hacc'.2 k p hp
      exact ⟨st, hf, fun h => absurd h hk⟩
  have hend : ((acceptance a jobs).Holds s ∧ Did (Enqueued id) i s.calls) ∧
      (finding a jobs key id t.calls (i, c)).Holds s := by
    refine Pool.run_invariant (J := fun u => ((acceptance a jobs).Holds u ∧
      Did (Enqueued id) i u.calls) ∧ (finding a jobs key id t.calls (i, c)).Holds u) ?_
      ⟨⟨hacc', hdid⟩, hstart⟩ hcs
    rintro u act u' ⟨⟨hu, hd⟩, hf⟩ hs
    exact ⟨⟨Pool.Outline.step hu (acceptance_keeps hw.distinct) hs, Pool.did_step hs hd⟩,
      Pool.Outline.step hf (finding_keeps hu (hrow hu hd)) hs⟩
  obtain ⟨⟨post', hpost', hquiet⟩, htask⟩ := hend.2
  obtain rfl : post' = post := by simpa [hcalls] using hpost'.symm
  refine ⟨fun d hd hp => hquiet j hlate ⟨d, hd, hp⟩, fun id' hid' => ?_⟩
  obtain ⟨st, hends, hfinds⟩ := htask j _ hid'
  obtain rfl := submitted_ends hends
  cases hfinds hlate
  rfl

/-- Two submissions with one idempotency key. -/
def resubmissions (second : Bool) : Job :=
  .submit ⟨if second then 2 else 1⟩ (plainSubmission (some "order-1") [])

theorem resubmissions_ready : Ready resubmissions .empty where
  distinct := by
    intro i j id input input' hi hj
    cases i <;> cases j <;> cases hi <;> cases hj <;> rfl
  fresh := by
    rintro i id input key - ⟨row, hrow, -⟩
    cases hrow
  keysUnique := by
    rintro key id id' ⟨row, hrow, -⟩
    cases hrow

abbrev sqliteOnly : Adapters := ⟨.sqlite, .sqlite, .fromSecs 3600⟩

theorem one_email_per_key_resubmitted : ∃ s, Reaches sqliteOnly .empty resubmissions
    [.step false {}, .step false { uuid := 1 }, .step true {}, .step true {}] s ∧
    (s.calls.filter (enqueuesFor resubmissions "order-1")).length ≤ 1 ∧
    s.task true = some (.done (.submitted (.ok ⟨1⟩))) := by
  have hrun : ∃ s, Reaches sqliteOnly .empty resubmissions
      [.step false {}, .step false { uuid := 1 }, .step true {}, .step true {}] s ∧
      s.task true = some (.done (.submitted (.ok ⟨1⟩))) := ⟨_, rfl, rfl⟩
  obtain ⟨s, hr, ht⟩ := hrun
  exact ⟨s, hr, (one_email_per_key sqliteOnly resubmissions_ready hr "order-1").1, ht⟩

end Catapulte
