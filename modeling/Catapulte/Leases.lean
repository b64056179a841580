import Catapulte.Attempts

namespace Catapulte

open Async

variable {ι : Type} {a : Adapters} {jobs : ι → Job} {w w' : World} {s s' : System ι} {act : Act ι}

/-- The delivery has neither acked nor nacked, and its lease is not over. -/
def System.Holds (s : System ι) (i : ι) (l : Lease) : Prop :=
  Did (Handed l) i s.calls ∧ Unsettled i s.calls ∧ s.world.nowMs ≤ l.claimedUntil

/-- The entry is there, with this `claimed_until`. -/
def World.LeasedUntil (w : World) (token : AckToken) (claimedUntil : Option Int) : Prop :=
  ∃ e ∈ w.queue, e.id = token ∧ e.claimedUntil = claimedUntil

instance (w : World) (token : AckToken) (claimedUntil : Option Int) :
    Decidable (w.LeasedUntil token claimedUntil) := inferInstanceAs (Decidable (∃ _ ∈ _, _))

def System.Exclusive (s : System ι) : Prop :=
  ∀ {i j l l'}, s.Holds i l → s.Holds j l' → l.token = l'.token → i = j

/-- Unless it comes from the holder itself, no ack, nack or other call touches
the entry of a delivery that holds its lease. -/
def Undisturbed (s s' : System ι) : Prop :=
  ∀ {i l}, s.Holds i l → (∀ c, s'.calls = s.calls ++ [(i, c)] → ¬ Settles c) →
    ∀ claimedUntil, s'.world.LeasedUntil l.token claimedUntil ↔ s.world.LeasedUntil l.token claimedUntil

def reportsFailure : Call Sys World → Bool
  | ⟨_, .insertEvent _ (.retrying ..), _, _⟩ | ⟨_, .insertEvent _ (.failed ..), _, _⟩ => true
  | _ => false

def delivers : Call Sys World → Bool
  | ⟨_, .process _, .ok _, _⟩ => true
  | _ => false

def AckedAsSent (i : ι) (token : AckToken) (calls : List (ι × Call Sys World)) : Prop :=
  Did (fun c => delivers c = true) i calls ∧ Did (Acked token) i calls

/-- No failure is published for a delivery after another one of the same entry
was acked as sent. -/
def NoLateFailure (s s' : System ι) : Prop :=
  ∀ {i c l}, s'.calls = s.calls ++ [(i, c)] → reportsFailure c = true → Did (Handed l) i s.calls →
    ∀ {j l'}, j ≠ i → Did (Handed l') j s.calls → l'.token = l.token → ¬ AckedAsSent j l.token s.calls

/-- The entry of the delivery was handed out again. -/
def Superseded (s : System ι) (i : ι) : Prop :=
  ∃ j l l', Did (Handed l) i s.calls ∧ Did (Handed l') j s.calls ∧ l.token = l'.token ∧
    l.attempt < l'.attempt

def Effect.IsRetrying : Effect → Prop
  | .insertEvent _ (.retrying ..) => True
  | _ => False

/-- For a delivery whose entry was handed out again no ack or nack takes effect or
returns `Ok`, and no Retrying event is published. -/
def InTime (s : System ι) (i : ι) (c : Choice) : Prop :=
  ∀ op next, s.task i = some (.await op next) → Superseded s i →
    ¬ op.IsRetrying ∧ (op.settles.isSome = true → c.fails = true ∧ c.lands = false)

def Punctual (s : System ι) : Act ι → Prop
  | .step i c | .abandon i (some c) => InTime s i c
  | _ => True

/-- Every ack, nack and Retrying event of a delivery comes before its entry is handed out again. -/
def Prompt (s : System ι) : Act ι → Prop
  | .step i _ | .abandon i (some _) => ∀ op next, s.task i = some (.await op next) →
      op.settles.isSome = true ∨ op.IsRetrying → ¬ Superseded s i
  | _ => True

theorem Prompt.punctual (h : Prompt s act) : Punctual s act := by
  cases act with
  | step i c =>
      exact fun op next ht hsup => ⟨fun hr => h op next ht (.inr hr) hsup, fun hs => absurd hsup (h op next ht (.inl hs))⟩
  | abandon i landed =>
      cases landed with
      | none => trivial
      | some c =>
          exact fun op next ht hsup => ⟨fun hr => h op next ht (.inr hr) hsup, fun hs => absurd hsup (h op next ht (.inl hs))⟩
  | drift => trivial

def LeasesKept (s : System ι) : Prop :=
  ∀ {i l}, s.Holds i l → ∃ e ∈ s.world.queue, e.id = l.token ∧ e.claimedUntil = some l.claimedUntil ∧
    e.attemptCount = l.attempt

def LastAcks (s : System ι) : Prop :=
  ∀ {i j l l'}, Did (Handed l) i s.calls → Did (Acked l.token) i s.calls → Did (Handed l') j s.calls →
    l'.token = l.token → l'.attempt ≤ l.attempt

theorem settle_failed {op : Effect} {c : Choice} {r : op.Reply} (h : perform w op c = some (w', r))
    (hs : op.settles.isSome = true) (hf : c.fails = true) (hl : c.lands = false) :
    w' = w ∧ ∀ heard token, ¬ Acked token ⟨w, op, r, heard⟩ := by
  cases op with
  | deleteEntry | leaseEntry =>
      simp only [perform, Choice.settle, hf, hl] at h
      cases h
      exact ⟨rfl, fun _ _ h => by cases h⟩
  | _ => cases hs

theorem eligible_eq_false {e : QueueEntry} {u now : Int} (he : e.claimedUntil = some u) (h : now ≤ u) :
    e.eligible now = false := by
  simp only [QueueEntry.eligible, he, decide_eq_false_iff_not]
  omega

section Steps

variable [DecidableEq ι]

theorem Punctual.inTime (hp : Punctual s act) (hs : Pool.Step machine s act s') {i : ι}
    {c : Call Sys World} (hc : s'.calls = s.calls ++ [(i, c)]) : Superseded s i → ¬ c.op.IsRetrying ∧
      (c.op.settles.isSome = true → s'.world = s.world ∧ ∀ token, ¬ Acked token c) := by
  intro hsup
  cases hs with
  | answer ht hperf =>
      obtain ⟨-, hx⟩ := List.append_inj' hc rfl
      cases hx
      obtain ⟨hretry, hsettle⟩ := hp _ _ ht hsup
      refine ⟨hretry, fun hop => ?_⟩
      obtain ⟨hf, hl⟩ := hsettle hop
      obtain ⟨hw, hack⟩ := settle_failed hperf hop hf hl
      exact ⟨hw, hack _⟩
  | lose ht hperf =>
      obtain ⟨-, hx⟩ := List.append_inj' hc rfl
      cases hx
      obtain ⟨hretry, hsettle⟩ := hp _ _ ht hsup
      refine ⟨hretry, fun hop => ?_⟩
      obtain ⟨hf, hl⟩ := hsettle hop
      obtain ⟨hw, hack⟩ := settle_failed hperf hop hf hl
      exact ⟨hw, hack _⟩
  | drop | drift => simp at hc

theorem LeasesKept.step (h : (deliveries a jobs).Holds s) (hk : LeasesKept s) (hp : Punctual s act)
    (hs : Pool.Step machine s act s') : LeasesKept s' := by
  intro i l ⟨hl, hun, hlive⟩
  rcases Pool.step_calls hs with hcalls | ⟨⟨j, c⟩, hcalls⟩
  · rw [hcalls] at hl hun
    have hw : s'.world.queue = s.world.queue ∧ s.world.nowMs ≤ s'.world.nowMs := by
      cases hs with
      | drop => exact ⟨rfl, Int.le_refl _⟩
      | drift hd => exact ⟨(drifts hd).queue, nowMs_le (drifts hd).now_le⟩
      | answer | lose => simp at hcalls
    rw [hw.1]
    exact hk ⟨hl, hun, Int.le_trans hw.2 hlive⟩
  · obtain ⟨hbefore, hperf, st, st', hm, ht⟩ := landing h hs hcalls
    obtain ⟨before, op, r, heard⟩ := c
    obtain rfl : before = s.world := hbefore
    rw [hcalls] at hl hun
    have hnow : s.world.nowMs ≤ l.claimedUntil := by
      rwa [World.nowMs, hperf.now_eq] at hlive
    rcases did_snoc.mp hl with hold | ⟨rfl, hh⟩
    · obtain ⟨e, he, hid, huntil, hat⟩ := hk ⟨hold, fun hd => hun (hd.append _), hnow⟩
      refine ⟨e, ?_, hid, huntil, hat⟩
      by_cases hsettle : op.settles = some e.id
      · have hsome : op.settles.isSome = true := by rw [hsettle]; rfl
        obtain ⟨-, n, ⟨u, hu⟩, -⟩ := settles_moves hm ht hsettle
        have hij : i ≠ j := by
          rintro rfl
          exact hun (did_snoc_self.mpr (.inr hsome))
        have hle : n ≤ e.attemptCount := (h.1.bound hu).2.2 e he rfl
        have hne : n ≠ l.attempt := fun hn => hij (h.1.distinct hold hu hid.symm hn.symm)
        have hlt : n < l.attempt := by omega
        rw [((hp.inTime hs hcalls ⟨i, _, l, hu, hold, hid, hlt⟩).2 hsome).1]
        exact he
      · refine hperf.entry_kept h.1.fresh he ?_ ?_ ?_
        · rintro rfl
          exact hsettle rfl
        · rintro claimedUntil rfl
          exact hsettle rfl
        · intro now claimUntil hop
          exact eligible_eq_false huntil (Int.le_trans (claim_moves hm ht hop) hnow)
    · obtain ⟨now, e, -, he, -, htok, hat, hq⟩ := handed_performs hperf hh
      rw [hq]
      exact ⟨_, claimed_mem he _, htok.symm, rfl, hat.symm⟩

theorem LastAcks.step (h : (deliveries a jobs).Holds s) (hk : LastAcks s) (hp : Punctual s act)
    (hs : Pool.Step machine s act s') : LastAcks s' := by
  intro i j l l' hl hack hl' htok
  rcases Pool.step_calls hs with hcalls | ⟨⟨k, c⟩, hcalls⟩
  · rw [hcalls] at hl hack hl'
    exact hk hl hack hl' htok
  · obtain ⟨hbefore, hperf, st, st', hm, ht⟩ := landing h hs hcalls
    obtain ⟨before, op, r, heard⟩ := c
    obtain rfl : before = s.world := hbefore
    rw [hcalls] at hl hack hl'
    have hgone : ∀ {l₀ : Lease}, Seen (Acked l₀.token) s.calls → ¬ Handed l₀ ⟨s.world, op, r, heard⟩ := by
      intro l₀ hseen hh
      obtain ⟨now, e, -, he, -, hid, -⟩ := handed_performs hperf hh
      exact (h.1.gone hseen).2 e he hid.symm
    rcases did_snoc.mp hack with hack | ⟨rfl, hc⟩
    · have hl := (did_snoc.mp hl).resolve_right fun hh => hgone ⟨i, hack⟩ hh.2
      have hl' := (did_snoc.mp hl').resolve_right fun hh => hgone ⟨i, htok ▸ hack⟩ hh.2
      exact hk hl hack hl' htok
    · obtain ⟨rfl, -⟩ := acked_performs hperf hc
      have hl := (did_snoc.mp hl).resolve_right fun hh => by cases r <;> cases hh.2
      have hl' := (did_snoc.mp hl').resolve_right fun hh => by cases r <;> cases hh.2
      by_contra hlt
      have hsup : Superseded s i := ⟨j, l, l', hl, hl', htok.symm, by omega⟩
      exact ((hp.inTime hs hcalls hsup).2 rfl).2 _ hc

omit [DecidableEq ι] in
theorem leasedUntil_iff (h : (deliveries a jobs).Holds s) (hk : LeasesKept s) {i : ι} {l : Lease}
    (hl : s.Holds i l) (claimedUntil : Option Int) :
    s.world.LeasedUntil l.token claimedUntil ↔ claimedUntil = some l.claimedUntil := by
  obtain ⟨e, he, hid, huntil, -⟩ := hk hl
  constructor
  · rintro ⟨e', he', hid', rfl⟩
    rw [h.1.fresh.unique he' he (hid'.trans hid.symm), huntil]
  · rintro rfl
    exact ⟨e, he, hid, huntil⟩

omit [DecidableEq ι] in
theorem LeasesKept.exclusive (h : (deliveries a jobs).Holds s) (hk : LeasesKept s) : s.Exclusive := by
  intro i j l l' hl hl' htok
  obtain ⟨e, he, hid, -, hat⟩ := hk hl
  obtain ⟨e', he', hid', -, hat'⟩ := hk hl'
  obtain rfl := h.1.fresh.unique he he' (by rw [hid, hid', htok])
  exact h.1.distinct hl.1 hl'.1 htok (hat.symm.trans hat')

theorem LeasesKept.undisturbed (h : (deliveries a jobs).Holds s) (hk : LeasesKept s)
    (h' : (deliveries a jobs).Holds s') (hk' : LeasesKept s') (hs : Pool.Step machine s act s') :
    Undisturbed s s' := by
  intro i l hl hown claimedUntil
  rcases Pool.step_calls hs with hcalls | ⟨⟨j, c⟩, hcalls⟩
  · have hq : s'.world.queue = s.world.queue := by
      cases hs with
      | drop => rfl
      | drift hd => exact (drifts hd).queue
      | answer | lose => simp at hcalls
    simp only [World.LeasedUntil, hq]
  · obtain ⟨-, hperf, -⟩ := landing h hs hcalls
    have hun : Unsettled i s'.calls := by
      rw [hcalls]
      by_cases hij : i = j
      · subst hij
        exact hl.2.1.snoc (hown c hcalls)
      · rw [Unsettled, did_snoc_of_ne hij]
        exact hl.2.1
    have hl' : s'.Holds i l := by
      refine ⟨by rw [hcalls]; exact hl.1.append _, hun, ?_⟩
      rw [World.nowMs, hperf.now_eq]
      exact hl.2.2
    rw [leasedUntil_iff h hk hl, leasedUntil_iff h' hk' hl']

omit [DecidableEq ι] in
theorem reportsFailure_moves {job : Job} {st st' : Stage} {op : Effect} {r : op.Reply} {heard : Bool}
    (hm : JobMoves a job st op r st') (hr : reportsFailure ⟨w, op, r, heard⟩ = true) :
    ∃ item outcome uuid, st = .turn (.closingDrawn item outcome uuid) ∧
      (op.IsRetrying ∨ ∃ e, outcome = .failed e) := by
  cases hm with
  | submit hm => cases hm <;> cases hr
  | turn hm =>
      cases hm with
      | @closed item outcome uuid r =>
          cases outcome with
          | sent => cases hr
          | failed e => exact ⟨item, _, uuid, rfl, .inr ⟨e, rfl⟩⟩
          | retrying e => exact ⟨item, _, uuid, rfl, .inl trivial⟩
      | _ => cases hr
  | sweep hm => cases hm <;> cases hr

theorem LastAcks.noLateFailure (h : (deliveries a jobs).Holds s) (hk : LastAcks s) (hp : Punctual s act)
    (hs : Pool.Step machine s act s') : NoLateFailure s s' := by
  intro i c l hcalls hreport hl j l' hji hl' htok hsent
  obtain ⟨hbefore, hperf, st, st', hm, ht⟩ := landing h hs hcalls
  have hle : l.attempt ≤ l'.attempt := hk hl' (htok ▸ hsent.2) hl htok.symm
  have hne : l.attempt ≠ l'.attempt := fun hat => hji (h.1.distinct hl' hl htok hat.symm)
  have hsup : Superseded s i := ⟨j, l, l', hl, hl', htok.symm, by omega⟩
  obtain ⟨item, outcome, uuid, rfl, hretry | ⟨e, rfl⟩⟩ := reportsFailure_moves hm hreport
  · exact (hp.inTime hs hcalls hsup).1 hretry
  · obtain ⟨⟨u, hu⟩, hack | ⟨⟨e', he'⟩, -⟩⟩ := ht
    · obtain rfl := h.1.single hl hu
      have hle' : l'.attempt ≤ _ := hk hl hack hl' htok
      omega
    · cases he'

structure LeasesInOrder (a : Adapters) (jobs : ι → Job) (s : System ι) : Prop where
  held : (deliveries a jobs).Holds s
  kept : LeasesKept s
  lastAcks : LastAcks s

theorem LeasesInOrder.step (hq : a.queue ≠ .memory) (h : LeasesInOrder a jobs s) (hp : Punctual s act)
    (hs : Pool.Step machine s act s') : LeasesInOrder a jobs s' where
  held := Pool.Outline.step h.held (deliveries_keeps hq) hs
  kept := LeasesKept.step h.held h.kept hp hs
  lastAcks := LastAcks.step h.held h.lastAcks hp hs

theorem leasesInOrder_of_run {as : List (Act ι)} (hq : a.queue ≠ .memory) (hw : w.EntriesFresh)
    (hr : Reaches a w jobs as s) (hm : (System.start a w jobs).Meets machine Punctual as) : LeasesInOrder a jobs s :=
  Pool.run_preserves (fun h hp hs => h.step hq hp hs)
    ⟨deliveries_start hw, fun hl => absurd hl.1 did_nil, fun hl => absurd hl did_nil⟩ hm hr

theorem LeasesInOrder.next (hq : a.queue ≠ .memory) (h : LeasesInOrder a jobs s) (hp : Punctual s act)
    (hn : s.next machine act = some s') : Undisturbed s s' ∧ NoLateFailure s s' := by
  have hs := Pool.next_iff.mp hn
  have h' := h.step hq hp hs
  exact ⟨LeasesKept.undisturbed h.held h.kept h'.held h'.kept hs, LastAcks.noLateFailure h.held h.lastAcks hp hs⟩

/-- Where acks, nacks and Retrying events come in time, a delivery that holds its
lease is the only holder and is not disturbed, and no failure is published after
another delivery was acked as sent. -/
theorem leases_undisturbed {as : List (Act ι)} (hq : a.queue ≠ .memory) (hw : w.EntriesFresh)
    (hr : Reaches a w jobs as s) (hm : (System.start a w jobs).Meets machine Punctual as) :
    s.Exclusive ∧ ∀ act s', Punctual s act → s.next machine act = some s' →
      Undisturbed s s' ∧ NoLateFailure s s' := by
  have h := leasesInOrder_of_run hq hw hr hm
  exact ⟨LeasesKept.exclusive h.held h.kept, fun act s' hp hn => h.next hq hp hn⟩

theorem prompt_undisturbed {as : List (Act ι)} (hq : a.queue ≠ .memory) (hw : w.EntriesFresh)
    (hr : Reaches a w jobs as s) (hm : (System.start a w jobs).Meets machine Prompt as) :
    s.Exclusive ∧ ∀ act s', Prompt s act → s.next machine act = some s' → Undisturbed s s' ∧ NoLateFailure s s' := by
  have h := leasesInOrder_of_run hq hw hr (hm.mono fun _ _ => Prompt.punctual)
  exact ⟨LeasesKept.exclusive h.held h.kept, fun act s' hp hn => h.next hq hp.punctual hn⟩

end Steps

theorem punctual_of_first [DecidableEq ι] {as : List (Act ι)} (hr : Reaches a w jobs as s)
    (h : ∀ x ∈ s.calls, (handed x.2).all (fun l => decide (l.attempt = 1)) = true) :
    (System.start a w jobs).Meets machine Punctual as := by
  refine Pool.meets_of_calls hr fun t act ht => ?_
  have hone : ∀ {i l}, Did (Handed l) i t.calls → l.attempt = 1 := by
    rintro i l ⟨c, hc, hh⟩
    have hx := h (i, c) (ht _ hc)
    simpa only [show handed c = some l from hh, Option.all_some, decide_eq_true_eq] using hx
  have hnot : ∀ i, ¬ Superseded t i := by
    rintro i ⟨j, l, l', hl, hl', -, hlt⟩
    rw [hone hl, hone hl'] at hlt
    exact absurd hlt (Nat.lt_irrefl 1)
  cases act with
  | step i c => exact fun _ _ _ hsup => absurd hsup (hnot i)
  | abandon i landed =>
      cases landed with
      | none => trivial
      | some c => exact fun _ _ _ hsup => absurd hsup (hnot i)
  | drift => trivial

theorem leases_undisturbed_delivered : ∃ s, Reaches sqliteOnly .empty oneEmail
    (submitting ++ executing 1 3 (.ok ⟨"smtp"⟩)) s ∧ s.Holds 1 ⟨1, 1, 300000⟩ ∧
    s.Exclusive ∧ ∀ act s', Punctual s act → s.next machine act = some s' →
      Undisturbed s s' ∧ NoLateFailure s s' := by
  have hrun : ∃ s, Reaches sqliteOnly .empty oneEmail
      (submitting ++ executing 1 3 (.ok ⟨"smtp"⟩)) s ∧ s.Holds 1 ⟨1, 1, 300000⟩ ∧
      ∀ x ∈ s.calls, (handed x.2).all (fun l => decide (l.attempt = 1)) = true := by
    refine ⟨_, rfl, ⟨by decide, by decide, by decide⟩, ?_⟩
    decide
  obtain ⟨s, hr, hholds, hfirst⟩ := hrun
  exact ⟨s, hr, hholds, leases_undisturbed (by decide) entriesFresh_empty hr (punctual_of_first hr hfirst)⟩

/-- The second turn overtakes the first one, whose lease ran out. -/
def overtaken (first second : Except ProcessQueuedEmailError SenderName) : List (Act Nat) :=
  submitting ++ executing 1 3 first ++ [.drift (.tick 301000000000)] ++ executing 2 4 second

/-- After a late ack the entry of the second turn is gone, and the second turn
reports a failure of the email that was acked as sent. After a late nack a third
turn shares the entry with the second one. -/
theorem late_settles_disturb :
    (∃ s s', Reaches sqliteOnly .empty oneEmail (overtaken (.ok ⟨"smtp"⟩) (.error (.render "tag"))) s ∧
      s.next machine (.step 1 {}) = some s' ∧ ¬ Undisturbed s s') ∧
    (∃ s s', Reaches sqliteOnly .empty oneEmail (overtaken (.ok ⟨"smtp"⟩) (.error (.render "tag")) ++
        [.step 1 {}, .step 2 {}, .step 2 {}, .step 2 { uuid := 5 }]) s ∧
      s.next machine (.step 2 {}) = some s' ∧ ¬ NoLateFailure s s') ∧
    ∃ s, Reaches sqliteOnly .empty oneEmail (overtaken (.error (.render "tag")) (.ok ⟨"smtp"⟩) ++
        [.step 1 {}, .step 1 {}, .drift (.tick 31000000000), .step 3 {}, .step 3 { uuid := 1 }]) s ∧
      ¬ s.Exclusive := by
  refine ⟨⟨_, _, rfl, rfl, fun h => ?_⟩, ⟨_, _, rfl, rfl, fun h => ?_⟩, ⟨_, rfl, fun h => ?_⟩⟩
  · have hholds := @h 2 ⟨1, 2, 601000⟩ ⟨by decide, by decide, by decide⟩ ?_ (some 601000)
    · exact absurd (hholds.mpr (by decide)) (by decide)
    · intro c hc
      obtain ⟨-, hx⟩ := List.append_inj' hc rfl
      cases hx
  · exact @h 2 _ ⟨1, 2, 601000⟩ rfl rfl (by decide) 1 ⟨1, 1, 300000⟩ (by decide) (by decide) rfl
      ⟨by decide, by decide⟩
  · have htwo := @h 2 3 ⟨1, 2, 601000⟩ ⟨1, 3, 632000⟩ ⟨by decide, by decide, by decide⟩
      ⟨by decide, by decide, by decide⟩ rfl
    cases htwo

end Catapulte
