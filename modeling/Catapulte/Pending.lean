import Mathlib.Data.List.MinMax
import Catapulte.Async.Triple
import Catapulte.Claims
import Catapulte.Session.QueueCall

namespace Catapulte

open Async

variable {backend : StorageAdapter} {w w' : World} {e : QueueEntry} {now : Int} {c : Choice}
  {r : Except EmailQueueError (Option DequeuedEmail)}

/-- `SELECT COUNT(*) FROM email_queue WHERE claimed_until IS NULL OR claimed_until < now`. -/
def World.countEligible (w : World) (now : Int) : Nat := w.queue.countP (·.eligible now)

def SqliteAdapter.pending (w : World) : Nat := w.countEligible w.nowMs

def PostgresAdapter.pending (w : World) : Nat := w.countEligible w.nowMs

def StorageAdapter.pending : StorageAdapter → World → Nat
  | sqlite => SqliteAdapter.pending
  | postgres => PostgresAdapter.pending

theorem pending_eq (backend : StorageAdapter) (w : World) : backend.pending w = w.countEligible w.nowMs := by
  cases backend <;> rfl

/-- The calls return no `Err`, and nothing else happens between them. -/
def atOnce : Solo Sys World Choice QueueDrift := ⟨fun c _ => c.fails = false, fun _ => False⟩

/-- One `try_dequeue` by itself, from `w` to `w'`. -/
def Dequeues (backend : StorageAdapter) (w w' : World) (r : Except EmailQueueError (Option DequeuedEmail)) : Prop :=
  ∃ l, Runs queueMachine atOnce w [] backend.emailQueue.poll w' l r

/-- Repeated `try_dequeue` calls change the queue `n` times and find no entry after that. -/
inductive Drains (backend : StorageAdapter) : World → Nat → Prop
  | found {w w' : World} (h : Dequeues backend w w' (.ok none)) (hq : w'.queue = w.queue) : Drains backend w 0
  | next {w w' : World} {r n} (h : Dequeues backend w w' r) (hq : w'.queue ≠ w.queue) (hd : Drains backend w' n) :
      Drains backend w (n + 1)

theorem exists_firstEligible (h : ∃ e ∈ w.queue, e.eligible now = true) : ∃ e ∈ w.queue, firstEligible now w.queue e = true := by
  obtain ⟨e₀, he₀, hel₀⟩ := h
  have hne : w.queue.filter (·.eligible now) ≠ [] := List.ne_nil_of_mem (List.mem_filter.mpr ⟨he₀, hel₀⟩)
  obtain ⟨e, he⟩ := Option.ne_none_iff_exists'.mp (mt (List.argmin_eq_none (f := QueueEntry.enqueuedAt)).mp hne)
  obtain ⟨hmem, hel⟩ := List.mem_filter.mp (List.argmin_mem he)
  refine ⟨e, hmem, Bool.and_eq_true_iff.mpr ⟨hel, List.all_eq_true.mpr fun e' he' => ?_⟩⟩
  cases hel' : e'.eligible now with
  | false => rfl
  | true => simpa using List.le_of_mem_argmin (List.mem_filter.mpr ⟨he', hel'⟩) he

theorem pickEntry_none (h : ∀ e ∈ w.queue, e.eligible now = false) (pick : Nat) : w.pickEntry now pick = some none := by
  rw [World.pickEntry, if_neg]
  simpa using h

theorem pickEntry_first (hw : w.EntriesFresh) (he : e ∈ w.queue) (hf : firstEligible now w.queue e = true) :
    w.pickEntry now e.id = some (some e) := by
  have hany : w.queue.any (·.eligible now) = true := List.any_eq_true.mpr ⟨e, he, (Bool.and_eq_true_iff.mp hf).1⟩
  have hfind : w.queue.find? (fun e' => e'.id = e.id && firstEligible now w.queue e') = some e := by
    have hsome : (w.queue.find? fun e' => e'.id = e.id && firstEligible now w.queue e').isSome = true :=
      List.find?_isSome.mpr ⟨e, he, by rw [hf]; simp⟩
    obtain ⟨e', he'⟩ := Option.isSome_iff_exists.mp hsome
    have hid := List.find?_some he'
    rw [Bool.and_eq_true, decide_eq_true_eq] at hid
    rw [he', hw.unique (List.mem_of_find?_eq_some he') he hid.1]
  rw [World.pickEntry, if_pos hany, hfind, Option.map_some]

theorem World.EntriesFresh.split (hw : w.EntriesFresh) (he : e ∈ w.queue) :
    ∃ pre post, w.queue = pre ++ e :: post ∧ ∀ e' ∈ pre ++ post, e'.id ≠ e.id := by
  obtain ⟨pre, post, hq⟩ := List.append_of_mem he
  refine ⟨pre, post, hq, fun e' he' => ?_⟩
  have hnodup := hw.nodup
  rw [hq, List.map_append, List.map_cons, List.nodup_middle, List.nodup_cons, ← List.map_append] at hnodup
  exact fun hid => hnodup.1 (hid ▸ List.mem_map_of_mem he')

/-- The entry was claimed at this instant, and perhaps deleted as an orphan. -/
def Taken (w : World) (e : QueueEntry) (w' : World) : Prop :=
  w' = w.claimEntry e.id (w.nowMs + processingTimeoutMs) ∨
    w' = (w.claimEntry e.id (w.nowMs + processingTimeoutMs)).deleteEntry e.id

theorem Taken.nowMs (h : Taken w e w') : w'.nowMs = w.nowMs := by
  rcases h with rfl | rfl <;> rfl

theorem Taken.fresh (h : Taken w e w') (hw : w.EntriesFresh) : w'.EntriesFresh := by
  rcases h with rfl | rfl
  · exact hw.of_sublist (Nat.le_refl _) (by rw [claimEntry_ids])
  · exact hw.of_sublist (Nat.le_refl _) ((deleteEntry_sublist _).trans (by rw [claimEntry_ids]))

theorem claimed_ineligible (w : World) (e : QueueEntry) :
    { e with claimedUntil := some (w.nowMs + processingTimeoutMs), attemptCount := e.attemptCount + 1 }.eligible w.nowMs
      = false := by
  have hlt : ¬ w.nowMs + processingTimeoutMs < w.nowMs := by
    unfold processingTimeoutMs
    omega
  exact decide_eq_false hlt

theorem Taken.countEligible (h : Taken w e w') (hw : w.EntriesFresh) (he : e ∈ w.queue) (hel : e.eligible w.nowMs = true) :
    w'.countEligible w'.nowMs + 1 = w.countEligible w.nowMs := by
  obtain ⟨pre, post, hq, hne⟩ := hw.split he
  have hmap : ∀ l : List QueueEntry, (∀ e' ∈ l, e' ∈ pre ++ post) → ∀ f : QueueEntry → QueueEntry,
      l.map (fun e' => if e'.id = e.id then f e' else e') = l := by
    intro l hl f
    refine (List.map_congr_left fun e' he' => ?_).trans (List.map_id l)
    rw [if_neg (hne e' (hl e' he')), id]
  have hclaim : (w.claimEntry e.id (w.nowMs + processingTimeoutMs)).queue =
      pre ++ { e with claimedUntil := some (w.nowMs + processingTimeoutMs), attemptCount := e.attemptCount + 1 } :: post := by
    rw [World.claimEntry_queue, hq, List.map_append, List.map_cons, if_pos rfl,
      hmap pre (fun e' he' => List.mem_append_left _ he'), hmap post (fun e' he' => List.mem_append_right _ he')]
  rw [h.nowMs]
  rcases h with rfl | rfl
  · rw [World.countEligible, World.countEligible, hclaim, hq, List.countP_append, List.countP_append,
      List.countP_cons_of_neg (by rw [claimed_ineligible]; exact Bool.false_ne_true), List.countP_cons_of_pos hel,
      Nat.add_assoc]
  · have hfilter : ∀ l : List QueueEntry, (∀ e' ∈ l, e' ∈ pre ++ post) → l.filter (fun e' => e'.id ≠ e.id) = l :=
      fun l hl => List.filter_eq_self.mpr fun e' he' => decide_eq_true (hne e' (hl e' he'))
    rw [World.countEligible, World.countEligible, World.deleteEntry_queue, hclaim, hq, List.filter_append,
      List.filter_cons_of_neg (by simp), hfilter pre (fun e' he' => List.mem_append_left _ he'),
      hfilter post (fun e' he' => List.mem_append_right _ he'), List.countP_append, List.countP_append,
      List.countP_cons_of_pos hel, Nat.add_assoc]

theorem fails_settle {ε α : Type} {w₁ : World} {err : ε} {a : α} (hc : c.fails = false) : c.settle w w₁ err a = (w₁, .ok a) := by
  rw [Choice.settle, hc]
  rfl

theorem runs_done_atOnce {α : Type} {a b : α} {l l' : List (Call Sys World)}
    (h : Runs queueMachine atOnce w l (.done a) w' l' b) : w' = w ∧ b = a := by
  cases h with
  | done => exact ⟨rfl, rfl⟩
  | drift ho => exact ho.elim

theorem runs_await_atOnce {α : Type} {b : α} {op : Effect} {next : op.Reply → Prog α} {l l' : List (Call Sys World)}
    (h : Runs queueMachine atOnce w l (.await op next) w' l' b) : ∃ c w₁ r l₁, c.fails = false ∧
      perform w op c = some (w₁, r) ∧ Runs queueMachine atOnce w₁ l₁ (next r) w' l' b := by
  cases h with
  | drift ho => exact ho.elim
  | await hp ho h => exact ⟨_, _, _, _, ho, hp, h⟩

def Runnable {α : Type} (w : World) (p : Prog α) : Prop := ∀ l, ∃ w' l' a, Runs queueMachine atOnce w l p w' l' a

theorem Runnable.done {α : Type} (a : α) : Runnable w (.done a) := fun l => ⟨w, l, a, .done⟩

theorem Runnable.await {α : Type} {op : Effect} {next : op.Reply → Prog α} {w₁ : World} {r : op.Reply} (hc : c.fails = false)
    (hp : perform w op c = some (w₁, r)) (h : Runnable w₁ (next r)) : Runnable w (.await op next) := by
  intro l
  obtain ⟨w', l', a, hr⟩ := h (l ++ [⟨w, op, r, true⟩])
  exact ⟨w', l', a, .await hp hc hr⟩

theorem fetchClaimed_taken {l l' : List (Call Sys World)}
    (h : Runs queueMachine atOnce (w.claimEntry e.id (w.nowMs + processingTimeoutMs)) l
      (SqliteAdapter.fetchClaimed ⟨e.id, e.emailId, e.attemptCount + 1⟩) w' l' r) : Taken w e w' := by
  unfold SqliteAdapter.fetchClaimed at h
  split at h
  · obtain ⟨c, w₁, r₁, l₁, hc, hp, h⟩ := runs_await_atOnce h
    obtain rfl : w₁ = w.claimEntry e.id (w.nowMs + processingTimeoutMs) := by
      simp only [perform] at hp
      split at hp <;> exact (Prod.mk.inj (Option.some.inj hp)).1.symm
    rcases r₁ with err | _ | envelope
    · exact .inl (runs_done_atOnce h).1
    · obtain ⟨c, w₂, r₂, l₂, hc, hp, h⟩ := runs_await_atOnce h
      obtain ⟨rfl, rfl⟩ := Prod.mk.inj ((fails_settle hc).symm.trans (Option.some.inj hp))
      exact .inr (runs_done_atOnce h).1
    · exact .inl (runs_done_atOnce h).1
  · exact .inl (runs_done_atOnce h).1

theorem claimInTransaction_taken : Taken w e (w.claimInTransaction e (w.nowMs + processingTimeoutMs)).1 := by
  unfold World.claimInTransaction
  split
  · exact .inr rfl
  · exact .inl rfl

theorem Dequeues.cases (h : Dequeues backend w w' r) : (w.countEligible w.nowMs = 0 ∧ w' = w ∧ r = .ok none) ∨
    ∃ e ∈ w.queue, e.eligible w.nowMs = true ∧ Taken w e w' := by
  obtain ⟨l, h⟩ := h
  have hpick {now : Int} {pick : Nat} {p : Option QueueEntry} (hp : w.pickEntry now pick = some p) :
      (p = none ∧ w.countEligible now = 0) ∨ ∃ e, p = some e ∧ e ∈ w.queue ∧ e.eligible now = true := by
    rcases pickEntry_eq_some hp with ⟨rfl, hnone⟩ | ⟨e, rfl, he, hf⟩
    · refine .inl ⟨rfl, List.countP_eq_zero.mpr fun e he => ?_⟩
      simpa using List.any_eq_false.mp hnone e he
    · exact .inr ⟨e, rfl, he, (Bool.and_eq_true_iff.mp hf).1⟩
  cases backend with
  | sqlite =>
      obtain ⟨c₀, w₀, now, l₀, -, hp₀, h⟩ := runs_await_atOnce h
      obtain ⟨rfl, rfl⟩ := Prod.mk.inj (Option.some.inj hp₀)
      obtain ⟨c, w₁, r₁, l₁, hc, hp, h⟩ := runs_await_atOnce h
      simp only [perform, Option.map_eq_some_iff] at hp
      obtain ⟨p, hp, hsettle⟩ := hp
      rcases hpick hp with ⟨rfl, hzero⟩ | ⟨e, rfl, he, hel⟩
      · obtain ⟨rfl, rfl⟩ := Prod.mk.inj ((fails_settle hc).symm.trans hsettle)
        obtain ⟨hw', hr⟩ := runs_done_atOnce h
        exact .inl ⟨hzero, hw', hr⟩
      · obtain ⟨rfl, rfl⟩ := Prod.mk.inj ((fails_settle hc).symm.trans hsettle)
        exact .inr ⟨e, he, hel, fetchClaimed_taken h⟩
  | postgres =>
      obtain ⟨c₀, w₀, now, l₀, -, hp₀, h⟩ := runs_await_atOnce h
      obtain ⟨rfl, rfl⟩ := Prod.mk.inj (Option.some.inj hp₀)
      obtain ⟨c, w₁, r₁, l₁, hc, hp, h⟩ := runs_await_atOnce h
      obtain ⟨hw', hr⟩ := runs_done_atOnce h
      simp only [perform, Option.map_eq_some_iff] at hp
      obtain ⟨p, hp, hsettle⟩ := hp
      rcases hpick hp with ⟨rfl, hzero⟩ | ⟨e, rfl, he, hel⟩
      · obtain ⟨rfl, rfl⟩ := Prod.mk.inj ((fails_settle hc).symm.trans hsettle)
        exact .inl ⟨hzero, hw', hr⟩
      · obtain ⟨rfl, rfl⟩ := Prod.mk.inj ((fails_settle hc).symm.trans hsettle)
        exact .inr ⟨e, he, hel, hw' ▸ claimInTransaction_taken⟩

theorem fetchClaimed_runnable (w : World) (row : ClaimedEntry) : Runnable w (SqliteAdapter.fetchClaimed row) := by
  unfold SqliteAdapter.fetchClaimed
  split
  · refine Runnable.await (c := {}) rfl rfl ?_
    cases w.findEmail row.emailId with
    | none => exact Runnable.await (c := {}) rfl rfl (.done _)
    | some r => exact .done _
  · exact .done _

theorem exists_dequeues (hw : w.EntriesFresh) : ∃ w' r, Dequeues backend w w' r := by
  have hpick : ∃ pick p, w.pickEntry w.nowMs pick = some p := by
    by_cases hany : ∃ e ∈ w.queue, e.eligible w.nowMs = true
    · obtain ⟨e, he, hf⟩ := exists_firstEligible hany
      exact ⟨e.id, _, pickEntry_first hw he hf⟩
    · refine ⟨0, _, pickEntry_none (fun e he => ?_) 0⟩
      exact Bool.eq_false_iff.mpr fun hel => hany ⟨e, he, hel⟩
  obtain ⟨pick, p, hpick⟩ := hpick
  have hrun : Runnable w backend.emailQueue.poll := by
    cases backend with
    | sqlite =>
        refine Runnable.await (c := {}) rfl rfl ?_
        refine Runnable.await (c := { uuid := pick }) rfl (congrArg (Option.map _) hpick) ?_
        cases p with
        | none => exact .done _
        | some e => exact fetchClaimed_runnable _ _
    | postgres =>
        refine Runnable.await (c := {}) rfl rfl ?_
        exact Runnable.await (c := { uuid := pick }) rfl (congrArg (Option.map _) hpick) (.done _)
  obtain ⟨w', l', r, h⟩ := hrun []
  exact ⟨w', r, l', h⟩

theorem Taken.queue_ne (h : Taken w e w') (hw : w.EntriesFresh) (he : e ∈ w.queue) (hel : e.eligible w.nowMs = true) :
    w'.queue ≠ w.queue := by
  intro hq
  have hcount := h.countEligible hw he hel
  rw [World.countEligible, World.countEligible, hq, h.nowMs] at hcount
  omega

theorem Drains.count {n : Nat} (h : Drains backend w n) (hw : w.EntriesFresh) : n = w.countEligible w.nowMs := by
  induction h with
  | found h hq =>
      rcases h.cases with ⟨hzero, -, -⟩ | ⟨e, he, hel, htaken⟩
      · exact hzero.symm
      · exact absurd hq (htaken.queue_ne hw he hel)
  | next h hq hd ih =>
      rcases h.cases with ⟨-, rfl, -⟩ | ⟨e, he, hel, htaken⟩
      · exact absurd rfl hq
      · rw [ih (htaken.fresh hw), htaken.countEligible hw he hel]

theorem drains_count (hw : w.EntriesFresh) : Drains backend w (w.countEligible w.nowMs) := by
  induction hn : w.countEligible w.nowMs generalizing w with
  | zero =>
      obtain ⟨w', r, h⟩ : ∃ w' r, Dequeues backend w w' r := exists_dequeues hw
      rcases h.cases with ⟨-, rfl, rfl⟩ | ⟨e, he, hel, htaken⟩
      · exact .found h rfl
      · rw [← htaken.countEligible hw he hel] at hn
        omega
  | succ n ih =>
      obtain ⟨w', r, h⟩ : ∃ w' r, Dequeues backend w w' r := exists_dequeues hw
      rcases h.cases with ⟨hzero, -, -⟩ | ⟨e, he, hel, htaken⟩
      · omega
      · have hcount := htaken.countEligible hw he hel
        exact .next h (htaken.queue_ne hw he hel) (ih (htaken.fresh hw) (by omega))

theorem drains_iff {n : Nat} (hw : w.EntriesFresh) : Drains backend w n ↔ n = backend.pending w := by
  rw [pending_eq]
  exact ⟨fun h => h.count hw, fun h => h ▸ drains_count hw⟩

end Catapulte
