namespace Catapulte.Async

/-- Tasks that come and go, interleaved over one shared state. `arrived` counts
the requests so far, and so gives each a number of its own. -/
structure Crew (σ τ : Type) where
  shared : σ
  tasks : List τ
  arrived : Nat

namespace Crew

/-- `step` is the next atomic step of a task: the shared state after it and the
tasks that stand in its place, those it spawned among them. A task that waits,
or that has ended, has no step. `drift` is what happens to the state by itself. -/
structure Rules (σ τ ρ κ ε : Type) where
  enter : Nat → ρ → τ
  step : σ → τ → κ → Option (σ × List τ)
  cancels : τ → Bool
  drift : σ → List τ → ε → Option σ

inductive Action (ρ κ ε : Type)
  | arrive (request : ρ)
  | step (k : Nat) (c : κ)
  | cancel (k : Nat)
  | drift (e : ε)

variable {σ τ ρ κ ε : Type} {R : Rules σ τ ρ κ ε} {s s' : Crew σ τ}

def next (R : Rules σ τ ρ κ ε) (s : Crew σ τ) : Action ρ κ ε → Option (Crew σ τ)
  | .arrive request => some ⟨s.shared, s.tasks ++ [R.enter s.arrived request], s.arrived + 1⟩
  | .step k c =>
      match s.tasks[k]? with
      | some t =>
          (R.step s.shared t c).map fun (w, ts) =>
            ⟨w, s.tasks.take k ++ ts ++ s.tasks.drop (k + 1), s.arrived⟩
      | none => none
  | .cancel k =>
      match s.tasks[k]? with
      | some t =>
          if R.cancels t then some ⟨s.shared, s.tasks.take k ++ s.tasks.drop (k + 1), s.arrived⟩ else none
      | none => none
  | .drift e => (R.drift s.shared s.tasks e).map fun w => ⟨w, s.tasks, s.arrived⟩

inductive Step (R : Rules σ τ ρ κ ε) : Crew σ τ → Crew σ τ → Prop
  | arrive {w ts n} (request : ρ) : Step R ⟨w, ts, n⟩ ⟨w, ts ++ [R.enter n request], n + 1⟩
  | step {w w' l t r ts n c} (h : R.step w t c = some (w', ts)) :
      Step R ⟨w, l ++ t :: r, n⟩ ⟨w', l ++ ts ++ r, n⟩
  | cancel {w l t r n} (h : R.cancels t) : Step R ⟨w, l ++ t :: r, n⟩ ⟨w, l ++ r, n⟩
  | drift {w w' ts n e} (h : R.drift w ts e = some w') : Step R ⟨w, ts, n⟩ ⟨w', ts, n⟩

theorem eq_take_append_cons_drop {ts : List τ} {k : Nat} {t : τ} (h : ts[k]? = some t) :
    ts = ts.take k ++ t :: ts.drop (k + 1) := by
  obtain ⟨hk, rfl⟩ := List.getElem?_eq_some_iff.mp h
  rw [← List.drop_eq_getElem_cons hk, List.take_append_drop]

theorem step_of_next {a : Action ρ κ ε} (h : s.next R a = some s') : Step R s s' := by
  obtain ⟨w, ts, n⟩ := s
  cases a with
  | arrive request => cases h; exact .arrive request
  | step k c =>
      simp only [next] at h
      split at h
      · rename_i t ht
        obtain ⟨⟨w', ts'⟩, hs, rfl⟩ := Option.map_eq_some_iff.mp h
        have hstep : Step R ⟨w, ts.take k ++ t :: ts.drop (k + 1), n⟩
            ⟨w', ts.take k ++ ts' ++ ts.drop (k + 1), n⟩ := .step hs
        rwa [← eq_take_append_cons_drop ht] at hstep
      · cases h
  | cancel k =>
      simp only [next] at h
      split at h
      · rename_i t ht
        split at h <;> cases h
        have hstep : Step R ⟨w, ts.take k ++ t :: ts.drop (k + 1), n⟩
            ⟨w, ts.take k ++ ts.drop (k + 1), n⟩ := .cancel ‹_›
        rwa [← eq_take_append_cons_drop ht] at hstep
      · cases h
  | drift e =>
      obtain ⟨w', hd, rfl⟩ := Option.map_eq_some_iff.mp h
      exact .drift hd

def run (R : Rules σ τ ρ κ ε) (s : Crew σ τ) : List (Action ρ κ ε) → Option (Crew σ τ)
  | [] => some s
  | a :: as => (s.next R a).bind fun s' => s'.run R as

theorem run_invariant {J : Crew σ τ → Prop} (hstep : ∀ {s s'}, J s → Step R s s' → J s')
    {as : List (Action ρ κ ε)} (h : J s) (hr : s.run R as = some s') : J s' := by
  induction as generalizing s with
  | nil => cases hr; exact h
  | cons a as ih =>
      obtain ⟨t, ht, hr⟩ := Option.bind_eq_some_iff.mp hr
      exact ih (hstep h (step_of_next ht)) hr

end Crew

end Catapulte.Async
