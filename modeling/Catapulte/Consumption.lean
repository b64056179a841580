import Catapulte.Attempts
import Catapulte.Storage.Dequeue

namespace Catapulte

open Async

variable {ι : Type} {a : Adapters} {jobs : ι → Job} {w w' : World} {s s' : System ι} {act : Act ι}
  {calls : List (ι × Call Sys World)} {i j : ι} {op : Effect} {r : op.Reply} {c : Choice} {heard : Bool}

/-- The statement would claim the entry. An orphan is removed by the transaction instead. -/
def Claims (w : World) (c : Choice) (e : QueueEntry) : Effect → Prop
  | .claimNext now _ => w.pickEntry now c.uuid = some (some e)
  | .claimTransaction now _ => w.pickEntry now c.uuid = some (some e) ∧ (w.findEmail e.emailId).isSome = true
  | _ => False

/-- A claim that takes effect is reported to its caller, and an entry is only claimed
when each earlier claim of it has led to an execution of the use case. -/
def Served (s : System ι) : Act ι → Prop
  | .step i c => ∀ op next e, s.task i = some (.await op next) → Claims s.world c e op →
      (c.fails = true → c.lands = false) ∧
      (c.fails = false → ∀ j l, Did (Handed l) j s.calls → l.token = e.id → Did Executes j s.calls)
  | .abandon i (some c) => ∀ op next e, s.task i = some (.await op next) → Claims s.world c e op →
      c.fails = true ∧ c.lands = false
  | _ => True

/-- The attempt with which the use case is executed is one more than the number of
executions of the entry so far. -/
def Numbered [DecidableEq ι] (s : System ι) : Prop :=
  ∀ pre x post, s.calls = pre ++ x :: post → Executes x.2 → ∀ l, Did (Handed l) x.1 pre →
    l.attempt = executions { s with calls := pre } l.token + 1

def FailsWith (e : ProcessQueuedEmailError) : Call Sys World → Prop
  | ⟨_, .process _, .error e', _⟩ => e' = e
  | _ => False

def ProcessQueuedEmailError.Transient (e : ProcessQueuedEmailError) : Prop := ∀ s, e = .send s → s.isTransient = true

def Effect.IsFailed : Effect → Prop
  | .insertEvent _ (.failed ..) => True
  | _ => False

/-- A delivery that failed transiently is only published as failed when its entry
was executed as often as the worker may try. -/
def FailedLate [DecidableEq ι] (s : System ι) : Prop :=
  ∀ pre x post, s.calls = pre ++ x :: post → x.2.op.IsFailed → (∀ e, Did (FailsWith e) x.1 pre → e.Transient) →
    ∀ l, Did (Handed l) x.1 pre → maxAttempts ≤ executions { s with calls := pre } l.token

theorem handed_claims {l : Lease} (h : perform w op c = some (w', r)) (hh : Handed l ⟨w, op, r, heard⟩) :
    ∃ e ∈ w.queue, Claims w c e op ∧ c.fails = false ∧ l.token = e.id ∧ l.attempt = e.attemptCount + 1 := by
  cases op with
  | claimNext now claimUntil =>
      simp only [perform, Option.map_eq_some_iff] at h
      obtain ⟨p, hp, h⟩ := h
      rcases pickEntry_eq_some hp with ⟨rfl, -⟩ | ⟨e, rfl, he, -⟩
      · cases hf : c.fails <;> simp only [Choice.settle, hf, if_true, Bool.false_eq_true, if_false] at h <;>
          cases h <;> cases hh
      · cases hf : c.fails <;> simp only [Choice.settle, hf, if_true, Bool.false_eq_true, if_false] at h <;> cases h
        · cases hh
          exact ⟨e, he, hp, rfl, rfl, rfl⟩
        · cases hh
  | claimTransaction now claimUntil =>
      simp only [perform, Option.map_eq_some_iff] at h
      obtain ⟨p, hp, h⟩ := h
      rcases pickEntry_eq_some hp with ⟨rfl, -⟩ | ⟨e, rfl, he, -⟩
      · cases hf : c.fails <;> simp only [Choice.settle, hf, if_true, Bool.false_eq_true, if_false] at h <;>
          cases h <;> cases hh
      · cases hf : c.fails <;> simp only [Choice.settle, hf, if_true, Bool.false_eq_true, if_false] at h <;> cases h
        · cases hrow : w.findEmail e.emailId with
          | none =>
              simp only [World.claimInTransaction, hrow] at hh
              cases hh
          | some row =>
              simp only [World.claimInTransaction, hrow] at hh
              cases hh
              exact ⟨e, he, ⟨hp, by rw [hrow]; rfl⟩, rfl, rfl, rfl⟩
        · cases hh
  | _ => cases hh

theorem claims_handed {e : QueueEntry} (heard : Bool) (h : perform w op c = some (w', r)) (hc : Claims w c e op)
    (hf : c.fails = false) : ∃ claimedUntil, Handed ⟨e.id, e.attemptCount + 1, claimedUntil⟩ ⟨w, op, r, heard⟩ := by
  cases op with
  | claimNext now claimUntil =>
      have hpick : w.pickEntry now c.uuid = some (some e) := hc
      simp only [perform, hpick, Option.map_some, Choice.settle, hf] at h
      cases h
      exact ⟨claimUntil, rfl⟩
  | claimTransaction now claimUntil =>
      obtain ⟨hpick, hrow⟩ := hc
      obtain ⟨row, hrow⟩ := Option.isSome_iff_exists.mp hrow
      simp only [perform, hpick, Option.map_some, Choice.settle, hf] at h
      cases h
      refine ⟨claimUntil, ?_⟩
      simp only [World.claimInTransaction, hrow]
      rfl
  | _ => exact hc.elim

/-- Where the attempt count of an entry comes from. -/
inductive Counted (w : World) (op : Effect) (c : Choice) (e' : QueueEntry) : Prop
  | kept (e) (he : e ∈ w.queue) (hid : e.id = e'.id) (hat : e.attemptCount = e'.attemptCount)
  | new (hat : e'.attemptCount = 0)
  | claimed (e) (he : e ∈ w.queue) (hc : Claims w c e op) (hl : c.fails = true → c.lands = true) (hid : e.id = e'.id)
      (hat : e'.attemptCount = e.attemptCount + 1)

theorem counted_claimEntry {e e' : QueueEntry} {claimUntil : Int} (hw : w.EntriesFresh) (he : e ∈ w.queue)
    (hc : Claims w c e op) (hl : c.fails = true → c.lands = true) (he' : e' ∈ (w.claimEntry e.id claimUntil).queue) :
    Counted w op c e' := by
  obtain ⟨e₀, he₀, hid, -, -, hne, heq⟩ := mem_claimEntry he'
  by_cases h : e₀.id = e.id
  · obtain rfl := hw.unique he₀ he h
    exact .claimed e₀ he hc hl hid (heq rfl).2
  · obtain rfl := hne h
    exact .kept e' he₀ rfl rfl

theorem settle_lands {α : Type} {w₁ : World} {x : EmailQueueError} {y : α} {r : Except EmailQueueError α}
    (h : c.settle w w₁ x y = (w', r)) : w' = w ∨ w' = w₁ ∧ (c.fails = true → c.lands = true) := by
  simp only [Choice.settle] at h
  split at h
  · split at h <;> cases h
    · exact .inr ⟨rfl, fun _ => ‹_›⟩
    · exact .inl rfl
  · cases h
    exact .inr ⟨rfl, fun hf => absurd hf ‹_›⟩

theorem counted_claimNext {now claimUntil : Int} {r : Except EmailQueueError (Option ClaimedEntry)} {e' : QueueEntry}
    (hw : w.EntriesFresh) (h : perform w (.claimNext now claimUntil) c = some (w', r)) (he' : e' ∈ w'.queue) :
    Counted w (.claimNext now claimUntil) c e' := by
  simp only [perform, Option.map_eq_some_iff] at h
  obtain ⟨p, hp, h⟩ := h
  rcases pickEntry_eq_some hp with ⟨rfl, -⟩ | ⟨e, rfl, he, -⟩
  · rcases settle_lands h with rfl | ⟨rfl, -⟩ <;> exact .kept e' he' rfl rfl
  · rcases settle_lands h with rfl | ⟨rfl, hl⟩
    · exact .kept e' he' rfl rfl
    · exact counted_claimEntry hw he hp hl he'

theorem counted_claimTransaction {now claimUntil : Int} {r : Except EmailQueueError (Option DequeuedEmail)}
    {e' : QueueEntry} (hw : w.EntriesFresh) (h : perform w (.claimTransaction now claimUntil) c = some (w', r))
    (he' : e' ∈ w'.queue) : Counted w (.claimTransaction now claimUntil) c e' := by
  simp only [perform, Option.map_eq_some_iff] at h
  obtain ⟨p, hp, h⟩ := h
  rcases pickEntry_eq_some hp with ⟨rfl, -⟩ | ⟨e, rfl, he, -⟩
  · rcases settle_lands h with rfl | ⟨rfl, -⟩ <;> exact .kept e' he' rfl rfl
  · rcases settle_lands h with rfl | ⟨rfl, hl⟩
    · exact .kept e' he' rfl rfl
    · cases hrow : w.findEmail e.emailId with
      | none =>
          simp only [World.claimInTransaction, hrow] at he'
          obtain ⟨hmem, hne⟩ := mem_deleteEntry.mp he'
          obtain ⟨e₀, he₀, hid, -, -, hother, -⟩ := mem_claimEntry hmem
          obtain rfl := hother (hid ▸ hne)
          exact .kept e' he₀ rfl rfl
      | some row =>
          simp only [World.claimInTransaction, hrow] at he'
          exact counted_claimEntry hw he ⟨hp, by rw [hrow]; rfl⟩ hl he'

theorem counted_perform {e' : QueueEntry} (hw : w.EntriesFresh) (h : perform w op c = some (w', r))
    (he' : e' ∈ w'.queue) : Counted w op c e' := by
  rcases (performs h).queue with hq | hq
  · exact .kept e' (hq ▸ he') rfl rfl
  · cases hq with
    | insertEntry =>
        simp only [World.insertEntry_queue, List.mem_append, List.mem_singleton] at he'
        rcases he' with he' | rfl
        · exact .kept e' he' rfl rfl
        · exact .new rfl
    | claimNext => exact counted_claimNext hw h he'
    | claimTransaction => exact counted_claimTransaction hw h he'
    | deleteEntry => exact .kept e' (mem_deleteEntry.mp he').1 rfl rfl
    | leaseEntry =>
        obtain ⟨e, he, hid, -, hat, -⟩ := mem_leaseEntry he'
        exact .kept e he hid hat

/-- Every attempt counted so far was handed out, and each but the last of a
delivery's own was executed. -/
structure Accounted (s : System ι) : Prop where
  entries : ∀ e ∈ s.world.queue, ∀ k, 1 ≤ k → k ≤ e.attemptCount →
    ∃ j l, Did (Handed l) j s.calls ∧ l.token = e.id ∧ l.attempt = k
  served : ∀ i l, Did (Handed l) i s.calls → ∀ k, 1 ≤ k → k < l.attempt →
    ∃ j l', Did (Handed l') j s.calls ∧ l'.token = l.token ∧ l'.attempt = k ∧ Did Executes j s.calls

theorem Served.claim {e : QueueEntry} {next : op.Reply → Prog JobResult} (h : Served s act)
    (htask : s.task i = some (.await op next)) (hact : act = if heard then .step i c else .abandon i (some c))
    (hclaims : Claims s.world c e op) (hl : c.fails = true → c.lands = true) :
    c.fails = false ∧ ∀ j l, Did (Handed l) j s.calls → l.token = e.id → Did Executes j s.calls := by
  subst hact
  cases heard with
  | false =>
      obtain ⟨hf, hno⟩ := h op next e htask hclaims
      rw [hl hf] at hno
      cases hno
  | true =>
      obtain ⟨hno, hserved⟩ := h op next e htask hclaims
      have hf : c.fails = false := by
        cases hf : c.fails with
        | false => rfl
        | true => exact absurd ((hl hf).symm.trans (hno hf)) (by decide)
      exact ⟨hf, hserved hf⟩

section Steps

variable [DecidableEq ι]

theorem Accounted.step (hd : (deliveries a jobs).Holds s) (h : Accounted s) (hserved : Served s act)
    (hs : Pool.Step machine s act s') : Accounted s' := by
  rcases Pool.step_calls hs with hcalls | ⟨⟨i, call⟩, hcalls⟩
  · have hq : s'.world.queue = s.world.queue := by
      cases hs with
      | drop => rfl
      | drift hd => exact (drifts hd).queue
      | answer | lose => simp at hcalls
    exact ⟨by rw [hq, hcalls]; exact h.entries, by rw [hcalls]; exact h.served⟩
  · obtain ⟨next, c, htask, hp, hact⟩ := Pool.step_lands hs hcalls
    obtain ⟨before, op, r, heard⟩ := call
    obtain rfl : before = s.world := Pool.before_of_step hs hcalls
    refine ⟨fun e' he' k hk hle => ?_, fun j l hl k hk hlt => ?_⟩ <;> rw [hcalls] at *
    · cases counted_perform hd.1.fresh hp he' with
      | kept e he hid hat =>
          obtain ⟨j, l, hl, htok, hattempt⟩ := h.entries e he k hk (hat ▸ hle)
          exact ⟨j, l, hl.append _, htok.trans hid, hattempt⟩
      | new hat => omega
      | claimed e he hclaims hlands hid hat =>
          obtain ⟨hf, -⟩ := hserved.claim htask hact hclaims hlands
          rcases Nat.lt_or_eq_of_le hle with hlt | rfl
          · obtain ⟨j, l, hl, htok, hattempt⟩ := h.entries e he k hk (by omega)
            exact ⟨j, l, hl.append _, htok.trans hid, hattempt⟩
          · obtain ⟨claimedUntil, hh⟩ := claims_handed heard hp hclaims hf
            exact ⟨i, _, did_snoc_self.mpr (.inr hh), hid, hat.symm⟩
    · rcases did_snoc.mp hl with hl | ⟨rfl, hh⟩
      · obtain ⟨j', l', hl', htok, hattempt, hx⟩ := h.served j l hl k hk hlt
        exact ⟨j', l', hl'.append _, htok, hattempt, hx.append _⟩
      · obtain ⟨e, he, hclaims, hf, htok, hat⟩ := handed_claims hp hh
        obtain ⟨j', l', hl', htok', hattempt⟩ := h.entries e he k hk (by omega)
        have hx := (hserved.claim htask hact hclaims fun hf' => absurd (hf.symm.trans hf') (by decide)).2 j' l' hl' htok'
        exact ⟨j', l', hl'.append _, htok'.trans htok.symm, hattempt, hx.append _⟩

theorem mem_executions {l : Lease} (hl : Did (Handed l) i s.calls) (hx : Did Executes i s.calls) :
    i ∈ (executionsOf s l.token).map Prod.fst := by
  obtain ⟨c, hc, hx⟩ := hx
  obtain ⟨d, hd, hh⟩ := hl
  refine List.mem_map.mpr ⟨(i, c), List.mem_filter.mpr ⟨hc, ?_⟩, rfl⟩
  simp only [Bool.and_eq_true, List.any_eq_true, decide_eq_true_eq]
  exact ⟨hx, (i, d), hd, rfl, by rw [hh]; simp⟩

theorem le_executions (hd : (deliveries a jobs).Holds s) {token : AckToken} {n : Nat}
    (h : ∀ k, 1 ≤ k → k ≤ n → ∃ j l, Did (Handed l) j s.calls ∧ l.token = token ∧ l.attempt = k ∧
      Did Executes j s.calls) : n ≤ executions s token := by
  have hle := length_le_of_keys (L := List.range' 1 n) (K := (executionsOf s token).map Prod.fst)
    (fun k j => ∃ l, Did (Handed l) j s.calls ∧ l.attempt = k) (List.nodup_range' ..) ?_ ?_
  · simpa [executions] using hle
  · intro k hk
    rw [List.mem_range'_1] at hk
    obtain ⟨j, l, hl, rfl, hattempt, hx⟩ := h k hk.1 (by omega)
    exact ⟨j, mem_executions hl hx, l, hl, hattempt⟩
  · rintro k k' j ⟨l, hl, rfl⟩ ⟨l', hl', rfl⟩
    rw [hd.1.single hl hl']

theorem Accounted.numbered (hd : (deliveries a jobs).Holds s) (h : Accounted s) {l : Lease}
    (hl : Did (Handed l) i s.calls) (hx : ¬ Did Executes i s.calls) : l.attempt = executions s l.token + 1 := by
  have hpos : 1 ≤ l.attempt := (hd.1.bound hl).2.1
  have hge : l.attempt - 1 ≤ executions s l.token :=
    le_executions hd fun k hk hle => h.served i l hl k hk (by omega)
  have hle := length_le_of_keys (K := List.range' 1 (l.attempt - 1)) (fun j k => Did Executes j s.calls ∧
    ∃ l', Did (Handed l') j s.calls ∧ l'.token = l.token ∧ k = l'.attempt) (executionsOf_nodup hd l.token) ?_ ?_
  · have hcount : executions s l.token ≤ l.attempt - 1 := by simpa [executions] using hle
    omega
  · intro j hj
    obtain ⟨hxj, l', hl', htok⟩ := mem_executionsOf hj
    refine ⟨_, ?_, hxj, l', hl', htok, rfl⟩
    have hpos' : 1 ≤ l'.attempt := (hd.1.bound hl').2.1
    have hlt : l'.attempt < l.attempt := by
      by_contra hnot
      rcases Nat.lt_or_eq_of_le (Nat.not_lt.mp hnot) with hlt | heq
      · obtain ⟨k, l'', hl'', htok'', hattempt, hxk⟩ := h.served j l' hl' l.attempt hpos hlt
        obtain rfl := hd.1.distinct hl hl'' (htok.symm.trans htok''.symm) hattempt.symm
        exact hx hxk
      · obtain rfl := hd.1.distinct hl hl' htok.symm heq
        exact hx hxj
    rw [List.mem_range'_1]
    omega
  · rintro j j' k ⟨-, l₁, hl₁, htok₁, rfl⟩ ⟨-, l₂, hl₂, htok₂, heq⟩
    exact hd.1.distinct hl₁ hl₂ (htok₁.trans htok₂.symm) heq

/-- A delivery that is on its way to a Failed event had this error as its last word. -/
def VerdictAt (i : ι) : TurnStage → List (ι × Call Sys World) → Prop
  | .acking item (.failed e), calls | .closing item (.failed e), calls | .closingDrawn item (.failed e) _, calls =>
      Did (FailsWith e) i calls ∧ isTerminal e item.attempt = true
  | _, _ => True

def VerdictTask (i : ι) : Stage → World → List (ι × Call Sys World) → Prop
  | .turn st, _, calls => VerdictAt i st calls
  | _, _, _ => True

def verdicts (a : Adapters) (jobs : ι → Job) : Outlines ι := outline a jobs (fun _ _ => True) VerdictTask

omit [DecidableEq ι] in
theorem VerdictAt.append {st : TurnStage} (h : VerdictAt i st calls) (calls' : List (ι × Call Sys World)) :
    VerdictAt i st (calls ++ calls') := by
  cases st with
  | acking item outcome | closing item outcome | closingDrawn item outcome uuid =>
      cases outcome with
      | failed e => exact ⟨h.1.append _, h.2⟩
      | sent | retrying => trivial
  | _ => trivial

omit [DecidableEq ι] in
theorem VerdictAt.step {st st' : TurnStage} (h : VerdictAt i st calls) (hm : TurnMoves a st op r st') :
    VerdictAt i st' (calls ++ [(i, ⟨w, op, r, heard⟩)]) := by
  cases hm with
  | @processed item r =>
      cases r with
      | ok => trivial
      | error e =>
          simp only [TurnStage.afterProcess]
          split
          · exact ⟨did_snoc_self.mpr (.inr rfl), ‹_›⟩
          · trivial
  | @acked item outcome | @removed item outcome =>
      cases outcome with
      | failed e => exact ⟨h.1.append _, h.2⟩
      | sent | retrying => trivial
  | @closingDrawn item outcome uuid =>
      cases outcome with
      | failed e => exact ⟨h.1.append _, h.2⟩
      | sent | retrying => trivial
  | @claimed now r hq =>
      cases r with
      | none => trivial
      | some row =>
          simp only [TurnStage.afterClaim]
          split <;> trivial
  | @received r | @committed now r | @read row r => cases r <;> trivial
  | _ => trivial

omit [DecidableEq ι] in
theorem verdicts_keeps : (verdicts a jobs).Keeps machine s act where
  shared _ _ _ := trivial
  own := by
    intro i op w r st st' _ hm ht
    have hmoves : JobMoves a (jobs i) st op r st' := hm
    clear hm
    generalize jobs i = job at hmoves
    cases hmoves with
    | turn hm => exact VerdictAt.step ht hm
    | submit | sweep => trivial
  other := by
    intro i op w r heard st st' _ _ _ j stj p _ _ _ htj
    cases stj with
    | turn => exact VerdictAt.append htj _
    | submit | sweep => trivial
  drift _ := ⟨trivial, fun {j stj} htj => by cases stj <;> exact htj⟩

omit [DecidableEq ι] in
theorem verdicts_start : (verdicts a jobs).Holds (System.start a w jobs) := by
  refine outline_start trivial fun i => ?_
  cases jobs i <;> trivial

omit [DecidableEq ι] in
theorem failed_moves {job : Job} {st st' : Stage} (hm : JobMoves a job st op r st') (hop : op.IsFailed) :
    ∃ item e uuid, st = .turn (.closingDrawn item (.failed e) uuid) ∧ op = .insertEvent uuid (item.failedEvent e) := by
  cases hm with
  | submit hm => cases hm <;> exact hop.elim
  | turn hm =>
      cases hm with
      | @closed item outcome uuid r =>
          cases outcome with
          | failed e => exact ⟨item, e, uuid, rfl, rfl⟩
          | sent | retrying => exact hop.elim
      | _ => exact hop.elim
  | sweep hm => cases hm <;> exact hop.elim

omit [DecidableEq ι] in
theorem FailsWith.executes {e : ProcessQueuedEmailError} {c : Call Sys World} (h : FailsWith e c) : Executes c := by
  obtain ⟨before, op, r, heard⟩ := c
  cases op with
  | process => rfl
  | _ => exact h.elim

omit [DecidableEq ι] in
theorem ProcessQueuedEmailError.Transient.attempts {e : ProcessQueuedEmailError} (h : e.Transient) {attempt : Nat}
    (ht : isTerminal e attempt = true) : maxAttempts ≤ attempt := by
  cases e with
  | send s =>
      have hs := h s rfl
      simpa [isTerminal, hs] using ht
  | _ => simpa [isTerminal] using ht

theorem Numbered.step (hd : (deliveries a jobs).Holds s) (ha : Accounted s) (h : Numbered s)
    (hs : Pool.Step machine s act s') : Numbered s' := by
  intro pre x post hcalls hx l hl
  rcases Pool.step_calls hs with hsame | ⟨y, hnew⟩
  · exact h pre x post (hsame ▸ hcalls) hx l hl
  · rcases snoc_eq (hnew.symm.trans hcalls) with ⟨rfl, rfl, -⟩ | ⟨post, -, hold⟩
    · obtain ⟨-, -, st, st', hm, ht⟩ := landing hd hs hnew
      obtain ⟨item, rfl⟩ := executes_moves hm (show Executes ⟨x.2.before, _, _, x.2.heard⟩ from hx)
      exact ha.numbered hd hl ht.2.1
    · exact h pre x post hold hx l hl

theorem FailedLate.step (hd : (deliveries a jobs).Holds s) (hv : (verdicts a jobs).Holds s) (ha : Accounted s)
    (h : FailedLate s) (hs : Pool.Step machine s act s') : FailedLate s' := by
  intro pre x post hcalls hx htransient l hl
  rcases Pool.step_calls hs with hsame | ⟨y, hnew⟩
  · exact h pre x post (hsame ▸ hcalls) hx htransient l hl
  · rcases snoc_eq (hnew.symm.trans hcalls) with ⟨rfl, rfl, -⟩ | ⟨post, -, hold⟩
    · obtain ⟨-, -, st, st', hm, ht⟩ := landing hd hs hnew
      obtain ⟨-, -, stv, stv', hmv, htv⟩ := landing hv hs hnew
      obtain ⟨item, e, uuid, rfl, hop⟩ := failed_moves hm hx
      obtain ⟨itemv, ev, uuidv, rfl, hopv⟩ := failed_moves hmv hx
      have hattempt : item.attempt = itemv.attempt := by
        have heq := hop.symm.trans hopv
        simp only [DequeuedEmail.failedEvent, Effect.insertEvent.injEq, LifecycleEvent.failed.injEq] at heq
        exact heq.2.2.1
      obtain ⟨hfails, hterminal⟩ := htv
      obtain ⟨⟨u, hu⟩, -⟩ := ht
      obtain rfl := hd.1.single hl hu
      have hmax : maxAttempts ≤ item.attempt := hattempt ▸ (htransient ev hfails).attempts hterminal
      have hexecutes : Did Executes x.1 s.calls := hfails.mono fun c hc => hc.executes
      refine Nat.le_trans hmax (le_executions hd fun k hk hle => ?_)
      rcases Nat.lt_or_eq_of_le hle with hlt | rfl
      · exact ha.served x.1 _ hl k hk hlt
      · exact ⟨x.1, _, hl, rfl, rfl, hexecutes⟩
    · exact h pre x post hold hx htransient l hl

omit [DecidableEq ι] in
theorem accounted_start (hzero : ∀ e ∈ w.queue, e.attemptCount = 0) : Accounted (System.start a w jobs) := by
  refine ⟨fun e he k hk hle => ?_, fun i l hl => absurd hl did_nil⟩
  have hz := hzero e he
  omega

/-- A dequeue of either backend that delivers nothing consumes nothing exactly when
nothing goes wrong after a claim that took effect. In runs in which that is so, the
attempts number the executions, and a transient failure is final only after the last. -/
theorem dequeue_lossless :
    (∀ parseUrl faults now db, Lossless db (SqliteAdapter.tryDequeueRow parseUrl faults now db) ↔
      ∀ e, nextEntry now db.queue = some e → (faults .claim).lands = true →
        faults .claim = .none ∧ SqliteAdapter.Unbroken parseUrl faults db e) ∧
    (∀ parseUrl faults now db locked, Lossless db (PostgresAdapter.tryDequeueRow parseUrl faults now db locked) ↔
      ∀ e row, nextEntry now (db.queue.filter fun e => e.id ∉ locked) = some e → PostgresAdapter.Succeeds faults e →
        db.emails.find e.emailId = some row → (faults .commit).lands = true →
          faults .commit = .none ∧ ∃ envelope, parseEnvelope parseUrl row = .ok envelope) ∧
    ∀ (a : Adapters) (jobs : ι → Job) w as s, a.queue ≠ .memory → w.EntriesFresh →
      (∀ e ∈ w.queue, e.attemptCount = 0) → Reaches a w jobs as s →
      (System.start a w jobs).Meets machine Served as → Numbered s ∧ FailedLate s := by
  refine ⟨fun _ _ _ _ => SqliteAdapter.tryDequeueRow_lossless,
    fun _ _ _ _ _ => PostgresAdapter.tryDequeueRow_lossless, fun a jobs w as s hq hw hzero hr hm => ?_⟩
  have hinv := Pool.run_preserves (J := fun s : System ι => ((deliveries a jobs).Holds s ∧ (verdicts a jobs).Holds s) ∧
    Accounted s ∧ Numbered s ∧ FailedLate s)
    (fun ⟨⟨hd, hv⟩, ha, hn, hf⟩ hserved hs =>
      ⟨⟨Pool.Outline.step hd (deliveries_keeps hq) hs, Pool.Outline.step hv (fun _ => verdicts_keeps) hs⟩,
        ha.step hd hserved hs, hn.step hd ha hs, hf.step hd hv ha hs⟩)
    ⟨⟨deliveries_start hw, verdicts_start⟩, accounted_start hzero,
      fun pre x post heq => absurd heq (by simp [System.start, Pool.start]),
      fun pre x post heq => absurd heq (by simp [System.start, Pool.start])⟩ hm hr
  exact hinv.2.2

end Steps

def Effect.isClaim : Effect → Bool
  | .claimNext .. | .claimTransaction .. => true
  | _ => false

def claiming (s : System ι) (i : ι) : Bool :=
  match s.task i with
  | some (.await op _) => op.isClaim
  | _ => false

/-- Nothing is abandoned, and a claim succeeds after an execution for each earlier one. -/
def Tidy [DecidableEq ι] (s : System ι) : Act ι → Prop
  | .step i c => claiming s i = true → c.fails = false ∧
      ∀ x ∈ s.calls, (handed x.2).isSome = true → Did Executes x.1 s.calls
  | .abandon .. => False
  | .drift _ => True

instance [DecidableEq ι] : ∀ (s : System ι) (act : Act ι), Decidable (Tidy s act)
  | _, .step .. => inferInstanceAs (Decidable (_ → _))
  | _, .abandon .. => isFalse fun h => h
  | _, .drift _ => isTrue trivial

theorem served_of_tidy [DecidableEq ι] (h : Tidy s act) : Served s act := by
  cases act with
  | step i c =>
      intro op next e htask hclaims
      have hclaiming : claiming s i = true := by
        rw [claiming, htask]
        cases op with
        | claimNext | claimTransaction => rfl
        | _ => exact hclaims.elim
      obtain ⟨hf, hall⟩ := h hclaiming
      refine ⟨fun hf' => absurd (hf.symm.trans hf') (by decide), fun _ j l hl _ => ?_⟩
      obtain ⟨d, hd, hh⟩ := hl
      exact hall (j, d) hd (by rw [hh]; rfl)
  | abandon => exact h.elim
  | drift => trivial

/-- A transient failure, the nack with its Retrying event, and the second attempt. -/
def retried : List (Act Nat) :=
  submitting ++ executing 1 3 (.error (.render "unclosed tag")) ++
    [.step 1 {}, .step 1 {}, .drift (.tick 31000000000)] ++ executing 2 4 (.ok ⟨"smtp"⟩)

theorem dequeue_lossless_retried : ∃ s, Reaches sqliteOnly .empty oneEmail retried s ∧ executions s 1 = 2 ∧
    Numbered s ∧ FailedLate s := by
  have hrun : ∃ s, Reaches sqliteOnly .empty oneEmail retried s ∧ executions s 1 = 2 := ⟨_, rfl, by decide⟩
  obtain ⟨s, hr, htwo⟩ := hrun
  refine ⟨s, hr, htwo, dequeue_lossless.2.2 sqliteOnly oneEmail .empty retried s (by decide) entriesFresh_empty
    nofun hr (Pool.Meets.mono ?_ fun _ _ => served_of_tidy)⟩
  decide

/-- The turn claims the entry, cannot read its email, and the lease runs out. -/
def losing (k : Nat) : List (Act Nat) :=
  [.step k {}, .step k { uuid := 1 }, .step k { fails := true }, .drift (.tick 301000000000)]

def queuedLetter : QueueTables :=
  ⟨[⟨1, ⟨1⟩, 0, none, 0, []⟩], [⟨⟨1⟩, none, none, none, "a@example.com", .array [], .null, .object []⟩], by decide⟩

def undelivered : Call Sys World → Bool
  | ⟨_, .process _, .error (.send _), _⟩ => true
  | _ => false

theorem FailsWith.transient {e : ProcessQueuedEmailError} {x : Call Sys World} (h : FailsWith e x)
    (hx : undelivered x = false) : e.Transient := by
  rintro s rfl
  obtain ⟨before, op, r, heard⟩ := x
  cases op with
  | process id =>
      cases r with
      | ok sender => exact h.elim
      | error e =>
          cases h
          cases hx
  | _ => exact h.elim

theorem split_at {x : ι × Call Sys World} {n : Nat} (h : calls[n]? = some x) :
    calls = calls.take n ++ x :: calls.drop (n + 1) := by
  obtain ⟨hlt, rfl⟩ := List.getElem?_eq_some_iff.mp h
  rw [← List.drop_eq_getElem_cons hlt, List.take_append_drop]

theorem did_of_handed {l : Lease} (h : (i, some l) ∈ calls.map fun x => (x.1, handed x.2)) : Did (Handed l) i calls := by
  obtain ⟨x, hx, heq⟩ := List.mem_map.mp h
  obtain ⟨rfl, hh⟩ := Prod.mk.inj heq
  exact ⟨x.2, hx, hh⟩

/-- A failed SELECT on SQLite and a body that does not parse on Postgres both leave
the entry claimed; and an email is published as failed after one execution. -/
theorem dequeue_consumes :
    (¬ Lossless queuedLetter (SqliteAdapter.tryDequeueRow (fun s => some ⟨s⟩)
      (fun st => if st = .fetch then .error false else .none) 0 queuedLetter)) ∧
    (¬ Lossless queuedLetter (PostgresAdapter.tryDequeueRow (fun s => some ⟨s⟩) (fun _ => .none) 0 queuedLetter [])) ∧
    ∃ s, Reaches sqliteOnly .empty oneEmail (submitting ++ losing 1 ++ losing 2 ++
        executing 3 3 (.error (.render "unclosed tag")) ++ [.step 3 {}, .step 3 { uuid := 4 }, .step 3 {}]) s ∧
      executions s 1 = 1 ∧ ¬ Numbered s ∧ ¬ FailedLate s := by
  refine ⟨fun h => ?_, fun h => ?_, ?_⟩
  · have hfetch := (SqliteAdapter.tryDequeueRow_lossless.mp h _ rfl rfl).2.2.1
    cases hfetch
  · obtain ⟨-, envelope, hparse⟩ := PostgresAdapter.tryDequeueRow_lossless.mp h _ _ rfl
      ⟨rfl, rfl, ⟨0, rfl⟩, rfl, by decide, rfl⟩ rfl rfl
    cases hparse
  have hrun : ∃ s, Reaches sqliteOnly .empty oneEmail (submitting ++ losing 1 ++ losing 2 ++
        executing 3 3 (.error (.render "unclosed tag")) ++ [.step 3 {}, .step 3 { uuid := 4 }, .step 3 {}]) s ∧
      executions s 1 = 1 ∧
      (∃ x, s.calls[15]? = some x ∧ Executes x.2 ∧ executions { s with calls := s.calls.take 15 } 1 = 0 ∧
        (x.1, some ⟨1, 3, 902000⟩) ∈ (s.calls.take 15).map fun y => (y.1, handed y.2)) ∧
      ∃ x, s.calls[18]? = some x ∧ x.2.op.IsFailed ∧ executions { s with calls := s.calls.take 18 } 1 = 1 ∧
        (x.1, some ⟨1, 3, 902000⟩) ∈ ((s.calls.take 18).map fun y => (y.1, handed y.2)) ∧
        ∀ y ∈ s.calls.take 18, undelivered y.2 = false :=
    ⟨_, rfl, by decide, ⟨_, rfl, rfl, by decide, by decide⟩, _, rfl, trivial, by decide, by decide, by decide⟩
  obtain ⟨s, hr, hone, ⟨x, hx, hexecutes, hnone, hhanded⟩, y, hy, hfailed, honce, hgiven, hsent⟩ := hrun
  refine ⟨s, hr, hone, fun h => ?_, fun h => ?_⟩
  · have hattempt := h _ x _ (split_at hx) hexecutes ⟨1, 3, 902000⟩ (did_of_handed hhanded)
    rw [hnone] at hattempt
    cases hattempt
  · have hlate := h _ y _ (split_at hy) hfailed ?_ ⟨1, 3, 902000⟩ (did_of_handed hgiven)
    · rw [honce] at hlate
      exact absurd hlate (by decide)
    · rintro e ⟨d, hd, hfails⟩
      exact hfails.transient (hsent _ hd)

end Catapulte
