import Catapulte.Idempotency

namespace Catapulte

open Async

variable {ι : Type} {a : Adapters} {jobs : ι → Job} {w : World} {s : System ι} {id : EmailId}

/-- Some call returned the id in `Ok`. -/
def System.Promised (s : System ι) (id : EmailId) : Prop :=
  ∃ i, s.task i = some (.done (.submitted (.ok id)))

/-- The email has been enqueued, and its row is there. -/
def System.Kept (s : System ι) (id : EmailId) : Prop :=
  Seen (Enqueued id) s.calls ∧ ∃ key, s.world.HasRow id key

/-- The submission of the email is still there, and none of its calls has failed. -/
def Pending (jobs : ι → Job) (s : System ι) (id : EmailId) : Prop :=
  ∃ j input p, jobs j = .submit id input ∧ s.task j = some p ∧ ¬ Did HasFailed j s.calls

def Effect.IsEnqueue : Effect → Prop
  | .insertEntry _ | .send .. => True
  | _ => False

/-- A lookup only answers with an id that was enqueued or whose submission is
pending; and a submission whose id was already returned has no failing call and
is not abandoned before its enqueue. -/
def Reliable (jobs : ι → Job) (s : System ι) : Act ι → Prop
  | .step i c =>
      (∀ key next row, s.task i = some (.await (.selectIdByKey key) next) → c.fails = false →
        s.world.findKey key = some row → Seen (Enqueued row.id) s.calls ∨ Pending jobs s row.id) ∧
      ∀ id input, jobs i = .submit id input → s.Promised id → ¬ Seen (Enqueued id) s.calls →
        c.fails = false
  | .abandon i landed => ∀ id input, jobs i = .submit id input → s.Promised id →
      ¬ Seen (Enqueued id) s.calls → ∃ c op next, landed = some c ∧ c.fails = false ∧
        s.task i = some (.await op next) ∧ op.IsEnqueue
  | .drift _ => True

/-- The state is lost for the id: it was returned, but nobody will enqueue it. -/
def Lost (jobs : ι → Job) (s : System ι) (id : EmailId) : Prop :=
  s.Promised id ∧ ¬ Seen (Enqueued id) s.calls ∧ ¬ Pending jobs s id

theorem reserved_failed_iff {input : SubmitEmailInput} {refs : List AttachmentRef} {patched : Bool}
    {key : Option String} {w w' : World} {c : Choice} {op : Effect} {r : op.Reply} {st' : SubmitStage}
    (hm : SubmitMoves a id input (.reserved refs patched) op r st') (hrow : w.HasRow id key)
    (h : perform w op c = some (w', r)) : op.Failed r ↔ c.fails = true := by
  have hsome := findEmail_isSome hrow
  cases hm <;> simp only [perform, Choice.settle, hsome, Option.isNone_eq_false_iff.mpr hsome] at h <;>
    cases hc : c.fails <;> cases hl : c.lands <;> simp_all [Effect.Failed, Except.isOk, Except.toBool]

theorem stage_of_promised (h : (acceptance a jobs).Holds s) (hp : s.Promised id)
    (hn : ¬ Seen (Enqueued id) s.calls) {j : ι} {input : SubmitEmailInput} {p : Prog JobResult}
    (hj : jobs j = .submit id input) (htask : s.task j = some p) :
    Did HasFailed j s.calls ∨ ∃ refs patched,
      p.Follows (JobMoves a (.submit id input)) (JobEnds (.submit id input))
        (.submit (.reserved refs patched)) ∧ s.world.HasRow id input.idempotencyKey := by
  have hnot : ∀ {i}, ¬ Did (Enqueued id) i s.calls := fun hd => hn ⟨_, hd⟩
  have hseen : Seen (Answered id) s.calls := by
    obtain ⟨i, hi⟩ := hp
    obtain ⟨id', input', hjob, hat⟩ := stage_submitted h hi
    rcases hat hjob with ⟨rfl, hd⟩ | ⟨-, -, hs⟩
    · exact absurd hd hnot
    · exact hs
  obtain ⟨st, hf, hat⟩ := stage_submit h hj htask
  have hat := hat hj
  cases st with
  | saving => exact absurd hseen hat.2.2
  | looking key => exact absurd hseen hat.2.2.2
  | reserved refs patched => exact .inr ⟨refs, patched, hf, hat.1⟩
  | queued refs => exact absurd hat hnot
  | announcing refs uuid => exact absurd hat hnot
  | undoing refs e => exact .inl hat.2
  | ended result =>
      cases result with
      | ok id' =>
          rcases hat with ⟨-, hd⟩ | ⟨-, hun, -⟩
          · exact absurd hd hnot
          · exact absurd hseen hun.2
      | error e =>
          rcases hat.2 with hd | hun
          · exact .inl hd
          · exact absurd hseen hun.2

section Steps

variable [DecidableEq ι] {act : Act ι} {s' : System ι}

theorem System.Promised.step (h : s.Promised id) (hs : Pool.Step machine s act s') :
    s'.Promised id :=
  h.imp fun _ => Pool.done_step hs

theorem pending_of_step (h : Pending jobs s' id) (hs : Pool.Step machine s act s') :
    Pending jobs s id := by
  obtain ⟨j, input, p, hj, hp, hn⟩ := h
  obtain ⟨p', hp'⟩ := Pool.task_of_step hs hp
  refine ⟨j, input, p', hj, hp', fun hd => hn ?_⟩
  rcases Pool.step_calls hs with hc | ⟨x, hc⟩ <;> rw [hc]
  · exact hd
  · exact hd.append _

theorem pending_of_enqueued (h : (acceptance a jobs).Holds s) (hs : Pool.Step machine s act s')
    (hn : ¬ Seen (Enqueued id) s.calls) (hseen : Seen (Enqueued id) s'.calls) :
    Pending jobs s id := by
  rcases Pool.step_calls hs with hc | ⟨⟨i, c⟩, hc⟩
  · exact absurd (hc ▸ hseen) hn
  · rw [hc, seen_snoc] at hseen
    have hcid := hseen.resolve_left hn
    obtain ⟨next, ch, ht, -, -⟩ := Pool.step_lands hs hc
    obtain ⟨st, hf, hat⟩ := h.2 i _ ht
    obtain ⟨st', hm, -⟩ := hf c.reply
    obtain ⟨input, refs, patched, hj, rfl, -, -⟩ := enqueued_moves (w := c.before) hm hcid
    exact ⟨i, input, _, hj, ht, (hat hj).2.2⟩

theorem Lost.step (h : (acceptance a jobs).Holds s) (hl : Lost jobs s id)
    (hs : Pool.Step machine s act s') : Lost jobs s' id :=
  ⟨hl.1.step hs, fun hseen => hl.2.2 (pending_of_enqueued h hs hl.2.1 hseen),
    fun hp => hl.2.2 (pending_of_step hp hs)⟩

theorem found_of_perform {w w' : World} {c : Choice} {key : String}
    (h : perform w (.selectIdByKey key) c = some (w', .ok id)) :
    c.fails = false ∧ ∃ row, w.findKey key = some row ∧ row.id = id := by
  simp only [perform] at h
  split at h <;> cases h
  exact ⟨‹_›, _, ‹_›, rfl⟩

theorem promised_of_step (h : (acceptance a jobs).Holds s) (hs : Pool.Step machine s act s')
    (hp : s'.Promised id) : s.Promised id ∨ Seen (Enqueued id) s.calls ∨
      ∃ i c key next row, act = .step i c ∧ s.task i = some (.await (.selectIdByKey key) next) ∧
        c.fails = false ∧ s.world.findKey key = some row ∧ row.id = id := by
  obtain ⟨i, hi⟩ := hp
  cases hs with
  | @answer j op next c w r ht hperf =>
      by_cases hij : i = j
      · subst hij
        obtain ⟨st, hf, hat⟩ := h.2 i _ ht
        obtain ⟨st', hm, hf'⟩ := hf r
        simp only [Function.update_self, Option.some.injEq] at hi
        rw [hi] at hf'
        obtain rfl := submitted_ends hf'
        have hm : JobMoves a (jobs i) st op r (.submit (.ended (.ok id))) := hm
        cases hj : jobs i with
        | submit id' input =>
            rw [hj] at hm
            obtain ⟨s₁, s₂, rfl, hs₂, hm⟩ := submit_moves hm
            cases hm with
            | insertOrIgnore | insertOnConflict =>
                exact absurd (Stage.submit.inj hs₂).symm (SubmitStage.afterInsert_ne_ok _ _ _)
            | found =>
                cases hs₂
                obtain ⟨hc, row, hrow, hid⟩ := found_of_perform hperf
                exact .inr (.inr ⟨i, c, _, next, row, rfl, ht, hc, hrow, hid⟩)
            | announced =>
                cases hs₂
                exact .inr (.inl ⟨i, hat hj⟩)
            | _ => cases hs₂
        | turn => rw [hj] at hm; obtain ⟨_, _, _, h', _⟩ := turn_moves hm; cases h'
        | sweep => rw [hj] at hm; obtain ⟨_, _, _, h', _⟩ := sweep_moves hm; cases h'
      · exact .inl ⟨i, by simpa [hij] using hi⟩
  | @drop j =>
      by_cases hij : i = j
      · simp [hij] at hi
      · exact .inl ⟨i, by simpa [hij] using hi⟩
  | @lose j =>
      by_cases hij : i = j
      · simp [hij] at hi
      · exact .inl ⟨i, by simpa [hij] using hi⟩
  | drift => exact .inl ⟨i, hi⟩

theorem Reliable.pending (h : (acceptance a jobs).Holds s)
    (hc : Reliable jobs s act) (hs : Pool.Step machine s act s') (hp : s.Promised id)
    (hpend : Pending jobs s id) : Seen (Enqueued id) s'.calls ∨ Pending jobs s' id := by
  by_cases hn : Seen (Enqueued id) s.calls
  · exact .inl (Pool.seen_step hs hn)
  obtain ⟨j, input, p, hj, htask, hfail⟩ := hpend
  obtain ⟨refs, patched, hf, hrow⟩ := (stage_of_promised h hp hn hj htask).resolve_left hfail
  cases hs with
  | @answer i op next c w r ht hperf =>
      by_cases hji : j = i
      · subst hji
        rw [htask] at ht
        cases ht
        obtain ⟨st', hm, -⟩ := hf r
        obtain ⟨s₁, s₂, hs₁, -, hm⟩ := submit_moves hm
        cases hs₁
        have hok : ¬ op.Failed r := by
          rw [reserved_failed_iff hm hrow hperf, hc.2 id input hj hp hn]
          simp
        exact .inr ⟨j, input, _, hj, Function.update_self .., not_did_snoc hfail hok⟩
      · exact .inr ⟨j, input, p, hj, by simpa [hji] using htask, by rwa [did_snoc_of_ne hji]⟩
  | @drop i op next ht =>
      by_cases hji : j = i
      · subst hji
        obtain ⟨c, _, _, hnone, -⟩ := hc id input hj hp hn
        cases hnone
      · exact .inr ⟨j, input, p, hj, by simpa [hji] using htask, hfail⟩
  | @lose i op next c w r ht hperf =>
      by_cases hji : j = i
      · subst hji
        obtain ⟨c', op', next', hcc, hok, ht', hop⟩ := hc id input hj hp hn
        cases hcc
        rw [ht] at ht' htask
        cases ht'
        cases htask
        obtain ⟨st', hm, -⟩ := hf r
        obtain ⟨s₁, s₂, hs₁, -, hm⟩ := submit_moves hm
        cases hs₁
        have hnf : ¬ op.Failed r := by
          rw [reserved_failed_iff hm hrow hperf, hok]
          simp
        left
        rw [seen_snoc]
        right
        cases hm with
        | enqueued | sent => rfl
        | enqueueFailed | sendFailed => exact absurd rfl hnf
        | _ => exact absurd hop not_false
      · exact .inr ⟨j, input, p, hj, by simpa [hji] using htask, by rwa [did_snoc_of_ne hji]⟩
  | drift => exact .inr ⟨j, input, p, hj, htask, hfail⟩

theorem Reliable.promised (h : (acceptance a jobs).Holds s)
    (hc : Reliable jobs s act) (hs : Pool.Step machine s act s')
    (hinv : ∀ id, s.Promised id → Seen (Enqueued id) s.calls ∨ Pending jobs s id)
    (hp : s'.Promised id) : Seen (Enqueued id) s'.calls ∨ Pending jobs s' id := by
  rcases promised_of_step h hs hp with hold | hseen | ⟨i, c, key, next, row, rfl, ht, hok, hrow, rfl⟩
  · rcases hinv id hold with hseen | hpend
    · exact .inl (Pool.seen_step hs hseen)
    · exact hc.pending h hs hold hpend
  · exact .inl (Pool.seen_step hs hseen)
  · rcases hc.1 key next row ht hok hrow with hseen | ⟨j, input, p, hj, htask, hfail⟩
    · exact .inl (Pool.seen_step hs hseen)
    · have hji : j ≠ i := by
        rintro rfl
        obtain ⟨st, hf, hat⟩ := stage_submit h hj ht
        obtain ⟨st', hm, -⟩ := hf (.ok row.id)
        obtain ⟨s₁, s₂, hs₁, -, hm⟩ := submit_moves hm
        cases hs₁
        cases hm
        exact (hat hj).2.2.1 _ (hasRow_of_findKey hrow)
      refine .inr ⟨j, input, p, hj, ?_⟩
      cases hs with
      | answer => exact ⟨by simpa [hji] using htask, by rwa [did_snoc_of_ne hji]⟩

theorem not_failed_of_enqueued {c : Call Sys World} (h : Enqueued id c) :
    ¬ HasFailed c ∧ c.op.IsEnqueue := by
  obtain ⟨before, op, r, heard⟩ := c
  cases op with
  | insertEntry | send =>
      cases r with
      | ok => exact ⟨nofun, trivial⟩
      | error => cases h
  | _ => cases h

omit [DecidableEq ι] in
theorem not_pending (hd : DistinctIds jobs) {i : ι} {input : SubmitEmailInput}
    (hi : jobs i = .submit id input) (h : s.task i = none ∨ Did HasFailed i s.calls) :
    ¬ Pending jobs s id := by
  rintro ⟨j, input', p, hj, hp, hfail⟩
  obtain rfl := hd hj hi
  rcases h with hnone | hf
  · rw [hnone] at hp; cases hp
  · exact hfail hf

theorem lost_of_unreliable (hd : DistinctIds jobs) (h : (acceptance a jobs).Holds s)
    (hs : Pool.Step machine s act s') (hc : ¬ Reliable jobs s act) : ∃ id, Lost jobs s' id := by
  have hs' := hs
  cases hs with
  | @answer i op next c w r ht hperf =>
      rw [Reliable, not_and_or] at hc
      rcases hc with hc | hc
      · push Not at hc
        obtain ⟨key, next', row, ht', hok, hrow, hseen, hpend⟩ := hc
        rw [ht] at ht'
        cases ht'
        simp only [perform, hok, hrow, Option.some.injEq, Prod.mk.injEq] at hperf
        obtain ⟨-, rfl⟩ := hperf
        refine ⟨row.id, ⟨i, ?_⟩, ?_, fun hp => hpend (pending_of_step hp hs')⟩
        · obtain ⟨st, hf, -⟩ := h.2 i _ ht
          obtain ⟨st', hm, hf'⟩ := hf (.ok row.id)
          obtain rfl := lookup_moves hm
          exact (Function.update_self ..).trans (congrArg some (done_of_ended hf'))
        · rw [seen_snoc]
          exact fun hx => hx.elim hseen fun h => by cases h
      · push Not at hc
        obtain ⟨id, input, hj, hp, hn, hfails⟩ := hc
        by_cases hpend : Pending jobs s id
        · obtain ⟨j, input', p, hj', htask, hfail⟩ := hpend
          obtain rfl := hd hj' hj
          obtain ⟨refs, patched, hf, hrow⟩ :=
            (stage_of_promised h hp hn hj' htask).resolve_left hfail
          rw [ht] at htask
          cases htask
          obtain ⟨st', hm, -⟩ := hf r
          obtain ⟨s₁, s₂, hs₁, -, hm⟩ := submit_moves hm
          cases hs₁
          have hfailed : op.Failed r :=
            (reserved_failed_iff hm hrow hperf).mpr (Bool.of_not_eq_false hfails)
          refine ⟨id, hp.step hs', ?_, not_pending hd hj (.inr (did_snoc_self.mpr (.inr hfailed)))⟩
          rw [seen_snoc]
          exact fun hx => hx.elim hn fun hx => (not_failed_of_enqueued hx).1 hfailed
        · exact ⟨id, Lost.step h ⟨hp, hn, hpend⟩ hs'⟩
  | @drop i op next ht =>
      rw [Reliable] at hc
      push Not at hc
      obtain ⟨id, input, hj, hp, hn, -⟩ := hc
      exact ⟨id, hp.step hs', hn, not_pending hd hj (.inl (Function.update_self ..))⟩
  | @lose i op next c w r ht hperf =>
      rw [Reliable] at hc
      push Not at hc
      obtain ⟨id, input, hj, hp, hn, hnone⟩ := hc
      refine ⟨id, hp.step hs', fun hseen => ?_, not_pending hd hj (.inl (Function.update_self ..))⟩
      obtain ⟨j, input', p, hj', htask, hfail⟩ := pending_of_enqueued h hs' hn hseen
      obtain rfl := hd hj' hj
      obtain ⟨refs, patched, hf, hrow⟩ := (stage_of_promised h hp hn hj' htask).resolve_left hfail
      rw [ht] at htask
      cases htask
      obtain ⟨st', hm, -⟩ := hf r
      obtain ⟨s₁, s₂, hs₁, -, hm⟩ := submit_moves hm
      cases hs₁
      obtain ⟨hnf, hop⟩ := not_failed_of_enqueued ((seen_snoc.mp hseen).resolve_left hn)
      have hok : c.fails = false :=
        Bool.eq_false_iff.mpr fun hc => hnf ((reserved_failed_iff hm hrow hperf).mpr hc)
      exact hnone c op next rfl hok ht hop
  | drift => exact absurd trivial hc

end Steps

theorem not_lost_of_run [DecidableEq ι] (hd : DistinctIds jobs) {s s' : System ι} {as : List (Act ι)}
    (h : (acceptance a jobs).Holds s) (hr : s.run machine as = some s') (hend : ∀ id, ¬ Lost jobs s' id) :
    ∀ id, ¬ Lost jobs s id := fun id hl =>
  hend id (Pool.run_invariant (J := fun s => (acceptance a jobs).Holds s ∧ Lost jobs s id)
    (fun hi hs => ⟨Pool.Outline.step hi.1 (acceptance_keeps hd) hs, hi.2.step hi.1 hs⟩) ⟨h, hl⟩ hr).2

theorem reliable_of_kept [DecidableEq ι] (hd : DistinctIds jobs) {s s' : System ι} {as : List (Act ι)}
    (h : (acceptance a jobs).Holds s) (hr : s.run machine as = some s')
    (hend : ∀ id, ¬ Lost jobs s' id) : s.Meets machine (Reliable jobs) as := by
  induction as generalizing s with
  | nil => trivial
  | cons act as ih =>
      obtain ⟨t, ht, hr⟩ := Pool.run_cons.mp hr
      have hs := Pool.next_iff.mp ht
      have hh := Pool.Outline.step h (acceptance_keeps hd) hs
      refine ⟨by_contra fun hc => ?_, fun t' ht' => ?_⟩
      · obtain ⟨id, hl⟩ := lost_of_unreliable hd h hs hc
        exact not_lost_of_run hd hh hr hend id hl
      · rw [ht] at ht'
        cases ht'
        exact ih hh hr

/-- When no call is running any more, every id that was returned has been
enqueued and still has its row, exactly when all actions were reliable. -/
theorem promises_kept_iff [DecidableEq ι] {as : List (Act ι)} (hw : Ready jobs w)
    (hr : Reaches a w jobs as s) (hq : s.Quiet) :
    (∀ id, s.Promised id → s.Kept id) ↔ (System.start a w jobs).Meets machine (Reliable jobs) as := by
  have hs := acceptance_holds hw hr
  have hstart : ∀ id, ¬ (System.start a w jobs).Promised id := by
    rintro id ⟨i, hi⟩
    obtain ⟨id', input, hj, hat⟩ := stage_submitted (acceptance_start hw) hi
    have hat : AcceptedAt i id' input (.ended (.ok id)) w [] := hat hj
    exact hat.elim (fun h => did_nil h.2) fun h => seen_nil h.2.2
  constructor
  · intro hk
    exact reliable_of_kept hw.distinct (acceptance_start hw) hr fun id hl => hl.2.1 (hk id hl.1).1
  · intro hm id hp
    have hinv := Pool.run_preserves
      (J := fun s : System ι => (acceptance a jobs).Holds s ∧
        ∀ id, s.Promised id → Seen (Enqueued id) s.calls ∨ Pending jobs s id)
      (fun hi hc hs => ⟨Pool.Outline.step hi.1 (acceptance_keeps hw.distinct) hs,
        fun _ => hc.promised hi.1 hs hi.2⟩)
      ⟨acceptance_start hw, fun id hp => absurd hp (hstart id)⟩ hm hr
    have hseen : Seen (Enqueued id) s.calls := by
      by_contra hn
      obtain ⟨j, input, p, hj, htask, hfail⟩ := (hinv.2 id hp).resolve_left hn
      obtain ⟨refs, patched, hf, -⟩ := (stage_of_promised hs hp hn hj htask).resolve_left hfail
      obtain ⟨r, rfl⟩ := hq j p htask
      cases hf
    obtain ⟨i, hi⟩ := hseen
    obtain ⟨input, -, hrow⟩ := hs.1.hasRow hi
    exact ⟨⟨i, hi⟩, _, hrow⟩

/-- The second submission finds the row of the first, whose enqueue then fails. -/
theorem promise_broken : ∃ s, Reaches sqliteOnly .empty resubmissions
    [.step false {}, .step true {}, .step true {}, .step false { fails := true }, .step false {}] s ∧
    s.Quiet ∧ s.Promised ⟨1⟩ ∧ ¬ s.Kept ⟨1⟩ := by
  refine ⟨_, rfl, ?_, ⟨true, rfl⟩, ?_⟩
  · intro i p hp
    cases i <;> cases hp <;> exact ⟨_, rfl⟩
  · rintro ⟨-, key, row, hrow, -⟩
    cases hrow

theorem promises_kept_resubmitted : ∃ s as, Reaches sqliteOnly .empty resubmissions as s ∧
    s.Promised ⟨1⟩ ∧ ((∀ id, s.Promised id → s.Kept id) ↔
      (System.start sqliteOnly .empty resubmissions).Meets machine (Reliable resubmissions) as) := by
  have hrun : ∃ s, Reaches sqliteOnly .empty resubmissions
      [.step false {}, .step true {}, .step true {}, .step false { uuid := 1 },
        .step false { uuid := 2 }, .step false {}] s ∧ s.Quiet ∧ s.Promised ⟨1⟩ := by
    refine ⟨_, rfl, ?_, ⟨true, rfl⟩⟩
    intro i p hp
    cases i <;> cases hp <;> exact ⟨_, rfl⟩
  obtain ⟨s, hr, hq, hp⟩ := hrun
  exact ⟨s, _, hr, hp, promises_kept_iff resubmissions_ready hr hq⟩

end Catapulte
