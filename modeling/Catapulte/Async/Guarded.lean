import Catapulte.Async.Handler

namespace Catapulte.Async

variable {I : Interface} {σ κ ε ι α : Type}

/-- Before each call, `P` holds of the trace and the call. The stage of this session is the trace. -/
def tracking (P : List (Exchange I) → I.Op → Prop) : Session I (List (Exchange I)) :=
  fun t op r t' => P t op ∧ t' = t ++ [⟨op, r⟩]

theorem Program.Only.tracks {P : List (Exchange I) → I.Op → Prop} {p : Program I α}
    (h : p.Only fun op => ∀ t, P t op) (t : List (Exchange I)) : p.Follows (tracking P) (fun _ _ => True) t := by
  induction p generalizing t with
  | done a => trivial
  | await op next ih => exact fun r => ⟨_, ⟨h.1 t, rfl⟩, ih r (h.2 r) _⟩

theorem Program.only_all {P : I.Op → Prop} (h : ∀ op, P op) (p : Program I α) : p.Only P := by
  induction p with
  | done a => trivial
  | await op next ih => exact ⟨h op, ih⟩

namespace Pool

variable [DecidableEq ι] {M : Machine I σ κ ε} {P : ι → List (Exchange I) → I.Op → Prop}
  {Q : ι → List (Exchange I) → α → Prop} {p : ι → Program I α}

theorem trace_subset (i : ι) (calls calls' : List (ι × Call I σ)) : trace i calls ⊆ trace i (calls ++ calls') := by
  rw [trace, trace, List.filterMap_append]
  exact List.subset_append_left _ _

theorem tracked_of_run {w : σ} {as : List (Action ι κ ε)} {s : Pool I σ ι α}
    (hp : ∀ i, (p i).Follows (tracking (P i)) (Q i) []) (hr : (start w p).run M as = some s) {i : ι} {op : I.Op}
    {next : I.Reply op → Program I α} (hi : s.task i = some (.await op next)) (r : I.Reply op) :
    P i (trace i s.calls) op := by
  have hkeeps : ∀ {s : Pool I σ ι α} {act : Action ι κ ε},
      Outline.Keeps M ⟨fun i => tracking (P i), Q, fun _ _ => True, fun i t _ calls => t = trace i calls⟩ s act := by
    intro s act
    refine ⟨fun _ _ _ => trivial, ?_, ?_, fun _ => ⟨trivial, id⟩⟩
    · rintro i op w r st st' - ⟨-, rfl⟩ rfl
      exact (trace_snoc_self i s.calls ⟨s.world, op, r, true⟩).symm
    · rintro i op w r heard st st' - - - j stj p hji - - rfl
      exact (trace_snoc_of_ne (Ne.symm hji) s.calls ⟨s.world, op, r, heard⟩).symm
  have hend := Outline.run (C := fun _ _ => True) (fun _ _ => hkeeps) (s := start w p)
    ⟨trivial, fun i q hq => ⟨[], Option.some.inj hq ▸ hp i, rfl⟩⟩ (meets_of_calls hr fun _ _ _ => trivial) hr
  obtain ⟨t, hf, rfl⟩ := hend.2 i _ hi
  obtain ⟨-, ⟨hP, -⟩, -⟩ := hf r
  exact hP

end Pool

end Catapulte.Async
