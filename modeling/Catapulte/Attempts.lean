import Mathlib.Data.List.Perm.Subperm
import Catapulte.Delivery
import Catapulte.Idempotency

namespace Catapulte

open Async

variable {ι : Type} {a : Adapters} {jobs : ι → Job} {w : World} {s s' : System ι} {act : Act ι}

/-- The calls with which turns executed the use case for the entry. -/
def executionsOf [DecidableEq ι] (s : System ι) (token : AckToken) : List (ι × Call Sys World) :=
  s.calls.filter fun x => executes x.2 &&
    s.calls.any fun y => decide (y.1 = x.1) && (handed y.2).any fun l => decide (l.token = token)

def executions [DecidableEq ι] (s : System ι) (token : AckToken) : Nat := (executionsOf s token).length

def Takes (s : System ι) (act : Act ι) (e : QueueEntry) : Prop :=
  ∃ i c now claimUntil, act = .step i c ∧ c.fails = false ∧
    ((∃ next, s.task i = some (.await (.claimNext now claimUntil) next)) ∨
      ∃ next, s.task i = some (.await (.claimTransaction now claimUntil) next)) ∧
    s.world.pickEntry now c.uuid = some (some e)

/-- A last attempt at the entry that is still running, or that executed the use
case and was then abandoned or could not ack. -/
def Unfinished (s : System ι) (e : QueueEntry) (i : ι) : Prop :=
  ∃ l, Did (Handed l) i s.calls ∧ l.token = e.id ∧ maxAttempts ≤ l.attempt ∧
    (Running s i ∨ (Did Executes i s.calls ∧ (s.task i = none ∨ Did (AckFails l.token) i s.calls)))

/-- No entry is claimed that has an unfinished last attempt. -/
def Bounded (s : System ι) (act : Act ι) : Prop := ∀ e, Takes s act e → ∀ i, ¬ Unfinished s e i

def Active (s : System ι) (i : ι) : Prop := Running s i ∨ Did Executes i s.calls

def OneLastAttempt (s : System ι) : Prop :=
  ∀ {i j l l'}, Did (Handed l) i s.calls → Did (Handed l') j s.calls → l.token = l'.token →
    maxAttempts ≤ l.attempt → maxAttempts ≤ l'.attempt → Active s i → Active s j → i = j

theorem takes_of_handed {w w' : World} {op : Effect} {c : Choice} {r : op.Reply} {heard : Bool}
    {l : Lease} (h : perform w op c = some (w', r)) (hh : Handed l ⟨w, op, r, heard⟩) :
    ∃ now claimUntil e, (op = .claimNext now claimUntil ∨ op = .claimTransaction now claimUntil) ∧
      c.fails = false ∧ w.pickEntry now c.uuid = some (some e) ∧ l.token = e.id ∧ e ∈ w.queue := by
  have hpick : ∀ {now e}, w.pickEntry now c.uuid = some (some e) → e ∈ w.queue := by
    intro now e hp
    rcases pickEntry_eq_some hp with ⟨hn, -⟩ | ⟨e', he', hmem, -⟩
    · cases hn
    · cases he'; exact hmem
  cases op with
  | claimNext now claimUntil =>
      simp only [perform, Option.map_eq_some_iff] at h
      obtain ⟨p, hp, h⟩ := h
      cases p with
      | none => simp only [Choice.settle] at h; split at h <;> cases h <;> cases hh
      | some e =>
          simp only [Choice.settle] at h
          split at h <;> cases h
          · cases hh
          · rename_i hf
            cases hh
            exact ⟨now, claimUntil, e, .inl rfl, Bool.eq_false_iff.mpr hf, hp, rfl, hpick hp⟩
  | claimTransaction now claimUntil =>
      simp only [perform, Option.map_eq_some_iff] at h
      obtain ⟨p, hp, h⟩ := h
      cases p with
      | none => simp only [Choice.settle] at h; split at h <;> cases h <;> cases hh
      | some e =>
          simp only [Choice.settle, World.claimInTransaction] at h
          split at h <;> cases h
          · cases hh
          · rename_i hf
            cases hrow : w.findEmail e.emailId with
            | none => simp only [hrow] at hh; cases hh
            | some row =>
                simp only [hrow] at hh
                cases hh
                exact ⟨now, claimUntil, e, .inr rfl, Bool.eq_false_iff.mpr hf, hp, rfl, hpick hp⟩
  | _ => cases hh

section Steps

variable [DecidableEq ι]

theorem active_of_step (h : Pool.Step machine s act s') {i : ι} (ha : Active s' i) : Active s i := by
  rcases ha with hr | hx
  · exact .inl (running_of_step h hr)
  · rcases Pool.step_calls h with hc | ⟨⟨j, c⟩, hc⟩
    · exact .inr (hc ▸ hx)
    · rw [hc] at hx
      rcases did_snoc.mp hx with hx | ⟨rfl, -⟩
      · exact .inr hx
      · obtain ⟨next, ch, ht, -, -⟩ := Pool.step_lands h hc
        exact .inl ⟨_, _, ht⟩

omit [DecidableEq ι] in
theorem ended_of_executed (h : (deliveries a jobs).Holds s) {i : ι} {l : Lease} {x : JobResult}
    (hi : s.task i = some (.done x)) (hl : Did (Handed l) i s.calls) (hx : Did Executes i s.calls)
    (hmax : maxAttempts ≤ l.attempt) :
    Did (Acked l.token) i s.calls ∨ Did (AckFails l.token) i s.calls := by
  obtain ⟨st, hends, ht⟩ := h.2 i _ hi
  have hends : JobEnds (jobs i) st x := hends
  generalize jobs i = job at hends
  cases hends with
  | submit | sweep =>
      have hnone : ∀ l, ¬ Did (Handed l) i s.calls := ht
      exact absurd hl (hnone l)
  | turn =>
      rcases ht l hl hx with hacked | hfails | hlt
      · exact .inl hacked
      · exact .inr hfails
      · omega

omit [DecidableEq ι] in
theorem unfinished_of_active (h : (deliveries a jobs).Holds s) {i : ι} {l : Lease} {e : QueueEntry}
    (hl : Did (Handed l) i s.calls) (htok : l.token = e.id) (he : e ∈ s.world.queue)
    (hmax : maxAttempts ≤ l.attempt) (ha : Active s i) : Unfinished s e i := by
  refine ⟨l, hl, htok, hmax, ?_⟩
  rcases ha with hr | hx
  · exact .inl hr
  · cases hi : s.task i with
    | none => exact .inr ⟨hx, .inl rfl⟩
    | some p =>
        cases p with
        | await op next => exact .inl ⟨op, next, hi⟩
        | done x =>
            rcases ended_of_executed h hi hl hx hmax with hacked | hfails
            · exact absurd htok.symm ((h.1.gone ⟨i, hacked⟩).2 e he)
            · exact .inr ⟨hx, .inr hfails⟩

theorem inactive_of_claim (h : (deliveries a jobs).Holds s) (hb : Bounded s act)
    (hs : Pool.Step machine s act s') {i j : ι} {c : Call Sys World} {l l' : Lease}
    (hc : s'.calls = s.calls ++ [(i, c)]) (hh : Handed l c) (hi : Active s' i)
    (hl' : Did (Handed l') j s.calls) (htok : l.token = l'.token) (hmax : maxAttempts ≤ l'.attempt) :
    ¬ Active s j := by
  intro hj
  cases hs with
  | answer ht hp =>
      obtain ⟨-, hx⟩ := List.append_inj' hc rfl
      cases hx
      obtain ⟨now, claimUntil, e, hop, hok, hpick, hid, he⟩ := takes_of_handed hp hh
      refine hb e ⟨i, _, now, claimUntil, rfl, hok, ?_, hpick⟩ j
        (unfinished_of_active h hl' (htok.symm.trans hid) he hmax hj)
      rcases hop with rfl | rfl
      · exact .inl ⟨_, ht⟩
      · exact .inr ⟨_, ht⟩
  | @lose i' op next c' w r ht hp =>
      obtain ⟨-, hx⟩ := List.append_inj' hc rfl
      cases hx
      obtain ⟨st, hf, hat⟩ := h.2 i _ ht
      obtain ⟨st', hm, -⟩ := hf r
      obtain ⟨-, now, rfl, -⟩ := handed_moves hm hh
      rcases hi with ⟨op', next', hrun⟩ | hx
      · simp at hrun
      · rcases did_snoc_self.mp hx with hx | hx
        · exact hat.2.2.1 hx
        · obtain ⟨item, hst⟩ := executes_moves hm hx
          cases hst
  | drop | drift => simp at hc

theorem OneLastAttempt.step (h : (deliveries a jobs).Holds s) (hone : OneLastAttempt s)
    (hb : Bounded s act) (hs : Pool.Step machine s act s') : OneLastAttempt s' := by
  intro i j l l' hl hl' htok hmax hmax' hi hj
  have hi₀ := active_of_step hs hi
  have hj₀ := active_of_step hs hj
  rcases Pool.step_calls hs with hc | ⟨⟨k, c⟩, hc⟩
  · rw [hc] at hl hl'
    exact hone hl hl' htok hmax hmax' hi₀ hj₀
  · rw [hc] at hl hl'
    rcases did_snoc.mp hl with h₁ | ⟨rfl, hh⟩ <;> rcases did_snoc.mp hl' with h₂ | ⟨hk, hh'⟩
    · exact hone h₁ h₂ htok hmax hmax' hi₀ hj₀
    · subst hk
      exact absurd hi₀ (inactive_of_claim h hb hs hc hh' hj h₁ htok.symm hmax)
    · exact absurd hj₀ (inactive_of_claim h hb hs hc hh hi h₂ htok hmax')
    · exact hk.symm

end Steps

theorem length_le_of_keys {α β : Type} {L : List α} {K : List β} (R : α → β → Prop) (hL : L.Nodup)
    (hK : ∀ x ∈ L, ∃ k ∈ K, R x k) (hinj : ∀ {x y k}, R x k → R y k → x = y) :
    L.length ≤ K.length := by
  choose f hmem hf using hK
  have hnodup : (L.attach.map fun x => f x.1 x.2).Nodup :=
    (List.nodup_attach.mpr hL).map fun x y h => Subtype.ext (hinj (hf x.1 x.2) (h ▸ hf y.1 y.2))
  have hsub : (L.attach.map fun x => f x.1 x.2) ⊆ K := by
    intro k hk
    obtain ⟨x, -, rfl⟩ := List.mem_map.mp hk
    exact hmem x.1 x.2
  simpa using (List.subperm_of_subset hnodup hsub).length_le

section Runs

variable [DecidableEq ι]

theorem mem_executionsOf {token : AckToken} {i : ι} (h : i ∈ (executionsOf s token).map Prod.fst) :
    Did Executes i s.calls ∧ ∃ l, Did (Handed l) i s.calls ∧ l.token = token := by
  obtain ⟨⟨j, c⟩, hmem, rfl⟩ := List.mem_map.mp h
  simp only [executionsOf, List.mem_filter, Bool.and_eq_true, List.any_eq_true, decide_eq_true_eq,
    Option.any_eq_true] at hmem
  obtain ⟨hc, hx, ⟨k, d⟩, hd, rfl, l, hl, htok⟩ := hmem
  exact ⟨⟨c, hc, hx⟩, l, ⟨d, hd, hl⟩, htok⟩

theorem executionsOf_nodup (h : (deliveries a jobs).Holds s) (token : AckToken) :
    ((executionsOf s token).map Prod.fst).Nodup := by
  refine List.Nodup.sublist (List.Sublist.map _ (List.monotone_filter_right _ fun x hx => ?_)) h.1.once
  exact (Bool.and_eq_true _ _ ▸ hx).1

theorem executions_le (h : (deliveries a jobs).Holds s) (hone : OneLastAttempt s) (token : AckToken) :
    executions s token ≤ maxAttempts := by
  have hle := length_le_of_keys (K := List.range' 1 maxAttempts)
    (fun i k => Did Executes i s.calls ∧ ∃ l, Did (Handed l) i s.calls ∧ l.token = token ∧
      k = min l.attempt maxAttempts) (executionsOf_nodup h token) ?_ ?_
  · simpa [executions] using hle
  · intro i hi
    obtain ⟨hx, l, hl, htok⟩ := mem_executionsOf hi
    refine ⟨_, ?_, hx, l, hl, htok, rfl⟩
    have hpos := (h.1.bound hl).2.1
    rw [List.mem_range'_1]
    have hmax : 0 < maxAttempts := by decide
    omega
  · rintro i j k ⟨hxi, l, hl, htok, rfl⟩ ⟨hxj, l', hl', htok', hk⟩
    by_cases hmax : maxAttempts ≤ l.attempt
    · exact hone hl hl' (htok.trans htok'.symm) hmax (by omega) (.inr hxi) (.inr hxj)
    · exact h.1.distinct hl hl' (htok.trans htok'.symm) (by omega)

/-- Where no entry is claimed over an unfinished last attempt, the use case is
executed for an entry at most `maxAttempts` times. -/
theorem executions_bounded {as : List (Act ι)} (hq : a.queue ≠ .memory) (hw : w.EntriesFresh)
    (hr : Reaches a w jobs as s) (hm : (System.start a w jobs).Meets machine Bounded as)
    (token : AckToken) : executions s token ≤ maxAttempts := by
  have hinv := Pool.run_preserves
    (J := fun s : System ι => (deliveries a jobs).Holds s ∧ OneLastAttempt s)
    (fun hi hb hs => ⟨Pool.Outline.step hi.1 (deliveries_keeps hq) hs, OneLastAttempt.step hi.1 hi.2 hb hs⟩)
    ⟨deliveries_start hw, fun h => absurd h did_nil⟩ hm hr
  exact executions_le hinv.1 hinv.2 token

end Runs

/-- One submission, and turns over its queue entry. -/
def oneEmail (k : Nat) : Job := if k = 0 then .submit ⟨1⟩ (plainSubmission none []) else .turn

def submitting : List (Act Nat) :=
  [.step 0 {}, .step 0 { uuid := 1 }, .step 0 { uuid := 2 }, .step 0 {}]

def executing (k uuid : Nat) (result : Except ProcessQueuedEmailError SenderName) : List (Act Nat) :=
  [.step k {}, .step k { uuid := 1 }, .step k {}, .step k { uuid }, .step k {}, .step k { result }]

/-- The turn is abandoned, and the lease of the entry runs out. -/
def crashing (k : Nat) : List (Act Nat) := [.abandon k none, .drift (.tick 301000000000)]

/-- The worker crashes after each of three executions and executes a fourth time. -/
theorem executions_unbounded : ∃ s, Reaches sqliteOnly .empty oneEmail
    (submitting ++ executing 1 3 (.ok ⟨"smtp"⟩) ++ crashing 1 ++ executing 2 4 (.ok ⟨"smtp"⟩) ++
      crashing 2 ++ executing 3 5 (.ok ⟨"smtp"⟩) ++ crashing 3 ++ executing 4 6 (.ok ⟨"smtp"⟩)) s ∧
    ¬ executions s 1 ≤ maxAttempts := by
  refine ⟨_, rfl, ?_⟩
  decide

theorem bounded_of_early [DecidableEq ι] {as : List (Act ι)} (hr : Reaches a w jobs as s)
    (h : ∀ x ∈ s.calls, (handed x.2).all (fun l => decide (l.attempt < maxAttempts)) = true) :
    (System.start a w jobs).Meets machine Bounded as := by
  refine Pool.meets_of_calls hr fun t act ht e _ i => ?_
  rintro ⟨l, ⟨c, hc, hh⟩, -, hmax, -⟩
  have hlt := h (i, c) (ht _ hc)
  simp only [show handed c = some l from hh, Option.all_some, decide_eq_true_eq] at hlt
  omega

theorem executions_bounded_retried : ∃ s, Reaches sqliteOnly .empty oneEmail
    (submitting ++ executing 1 3 (.error (.render "unclosed tag")) ++
      [.step 1 {}, .step 1 {}, .drift (.tick 31000000000)] ++ executing 2 4 (.ok ⟨"smtp"⟩)) s ∧
    executions s 1 = 2 ∧ executions s 1 ≤ maxAttempts := by
  have hrun : ∃ s, Reaches sqliteOnly .empty oneEmail
      (submitting ++ executing 1 3 (.error (.render "unclosed tag")) ++
        [.step 1 {}, .step 1 {}, .drift (.tick 31000000000)] ++ executing 2 4 (.ok ⟨"smtp"⟩)) s ∧
      executions s 1 = 2 ∧
      ∀ x ∈ s.calls, (handed x.2).all (fun l => decide (l.attempt < maxAttempts)) = true := by
    refine ⟨_, rfl, by decide, ?_⟩
    decide
  obtain ⟨s, hr, htwo, hearly⟩ := hrun
  exact ⟨s, hr, htwo, executions_bounded (by decide) entriesFresh_empty hr
    (bounded_of_early hr hearly) 1⟩

end Catapulte
