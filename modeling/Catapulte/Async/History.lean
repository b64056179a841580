import Mathlib.Data.List.Induction
import Catapulte.Async.Pool

namespace Catapulte.Async

variable {I : Interface} {σ κ ε ι α : Type} {P : Call I σ → Prop} {i j : ι} {c : Call I σ}
  {calls : List (ι × Call I σ)}

/-- Task `i` made a call that satisfies `P`. -/
def Did (P : Call I σ → Prop) (i : ι) (calls : List (ι × Call I σ)) : Prop :=
  ∃ c, (i, c) ∈ calls ∧ P c

/-- Some task made a call that satisfies `P`. -/
def Seen (P : Call I σ → Prop) (calls : List (ι × Call I σ)) : Prop := ∃ i, Did P i calls

instance [DecidableEq ι] [DecidablePred P] : Decidable (Did P i calls) :=
  decidable_of_iff (∃ x ∈ calls, x.1 = i ∧ P x.2)
    ⟨fun ⟨x, hx, hi, hp⟩ => ⟨x.2, hi ▸ hx, hp⟩, fun ⟨c, hc, hp⟩ => ⟨(i, c), hc, rfl, hp⟩⟩

theorem seen_iff : Seen P calls ↔ ∃ x ∈ calls, P x.2 :=
  ⟨fun ⟨i, c, hc, hp⟩ => ⟨(i, c), hc, hp⟩, fun ⟨x, hx, hp⟩ => ⟨x.1, x.2, hx, hp⟩⟩

instance [DecidablePred P] : Decidable (Seen P calls) := decidable_of_iff _ seen_iff.symm

@[simp] theorem did_nil : ¬ Did P i [] := by
  rintro ⟨c, hc, -⟩
  cases hc

@[simp] theorem seen_nil : ¬ Seen P ([] : List (ι × Call I σ)) := fun ⟨_, h⟩ => did_nil h

theorem did_snoc : Did P i (calls ++ [(j, c)]) ↔ Did P i calls ∨ (i = j ∧ P c) := by
  constructor
  · rintro ⟨d, hd, hp⟩
    simp only [List.mem_append, List.mem_singleton, Prod.mk.injEq] at hd
    rcases hd with hd | ⟨rfl, rfl⟩
    · exact .inl ⟨d, hd, hp⟩
    · exact .inr ⟨rfl, hp⟩
  · rintro (⟨d, hd, hp⟩ | ⟨rfl, hp⟩)
    · exact ⟨d, List.mem_append_left _ hd, hp⟩
    · exact ⟨c, List.mem_append_right _ (List.mem_singleton_self _), hp⟩

@[simp] theorem did_snoc_self : Did P i (calls ++ [(i, c)]) ↔ Did P i calls ∨ P c := by
  simp [did_snoc]

theorem not_did_snoc (h : ¬ Did P i calls) (hc : ¬ P c) : ¬ Did P i (calls ++ [(i, c)]) := by
  simp [h, hc]

theorem did_snoc_of_ne (h : i ≠ j) : Did P i (calls ++ [(j, c)]) ↔ Did P i calls := by
  simp [did_snoc, h]

theorem Did.append (h : Did P i calls) (calls' : List (ι × Call I σ)) : Did P i (calls ++ calls') := by
  obtain ⟨d, hd, hp⟩ := h
  exact ⟨d, List.mem_append_left _ hd, hp⟩

theorem Did.mono {Q : Call I σ → Prop} (h : Did P i calls) (hPQ : ∀ c, P c → Q c) : Did Q i calls := by
  obtain ⟨d, hd, hp⟩ := h
  exact ⟨d, hd, hPQ d hp⟩

theorem seen_snoc : Seen P (calls ++ [(j, c)]) ↔ Seen P calls ∨ P c := by
  constructor
  · rintro ⟨i, h⟩
    rcases did_snoc.mp h with h | ⟨-, h⟩
    · exact .inl ⟨i, h⟩
    · exact .inr h
  · rintro (⟨i, h⟩ | h)
    · exact ⟨i, h.append _⟩
    · exact ⟨j, did_snoc.mpr (.inr ⟨rfl, h⟩)⟩

theorem Seen.append (h : Seen P calls) (calls' : List (ι × Call I σ)) : Seen P (calls ++ calls') := by
  obtain ⟨i, h⟩ := h
  exact ⟨i, h.append calls'⟩

theorem snoc_eq {β : Type} {x y : β} {l pre post : List β} (h : l ++ [y] = pre ++ x :: post) :
    (pre = l ∧ x = y ∧ post = []) ∨ ∃ post', post = post' ++ [y] ∧ l = pre ++ x :: post' := by
  rcases List.eq_nil_or_concat post with rfl | ⟨post, z, rfl⟩
  · obtain ⟨rfl, hx⟩ := List.append_inj' h rfl
    exact .inl ⟨rfl, (List.singleton_inj.mp hx).symm, rfl⟩
  · rw [List.concat_eq_append] at h ⊢
    obtain ⟨rfl, hz⟩ := List.append_inj' (h.trans (by simp : _ = (pre ++ x :: post) ++ [z])) rfl
    exact .inr ⟨post, by rw [List.singleton_inj.mp hz], rfl⟩

namespace Pool

variable [DecidableEq ι]

theorem done_step {M : Machine I σ κ ε} {s s' : Pool I σ ι α} {a : Action ι κ ε} {x : α}
    (h : Step M s a s') (hi : s.task i = some (.done x)) : s'.task i = some (.done x) := by
  cases h with
  | @answer j op next c w r ht | @drop j op next ht | @lose j op next c w r ht =>
      have hij : i ≠ j := by
        rintro rfl
        rw [hi] at ht
        cases ht
      simpa [hij] using hi
  | drift => exact hi

theorem task_of_step {M : Machine I σ κ ε} {s s' : Pool I σ ι α} {a : Action ι κ ε}
    {p : Program I α} (h : Step M s a s') (hi : s'.task i = some p) : ∃ q, s.task i = some q := by
  cases h with
  | @answer j op next c w r ht | @drop j op next ht | @lose j op next c w r ht =>
      by_cases hij : i = j
      · exact ⟨_, hij ▸ ht⟩
      · exact ⟨p, by simpa [hij] using hi⟩
  | drift => exact ⟨p, hi⟩

theorem task_cases {M : Machine I σ κ ε} {s s' : Pool I σ ι α} {a : Action ι κ ε} {p : Program I α}
    (h : Step M s a s') (hi : s'.task i = some p) : s.task i = some p ∨
      ∃ op next r, s.task i = some (.await op next) ∧ p = next r ∧
        s'.calls = s.calls ++ [(i, ⟨s.world, op, r, true⟩)] := by
  cases h with
  | @answer j op next c w r ht =>
      by_cases hij : i = j
      · subst hij
        simp only [Function.update_self, Option.some.injEq] at hi
        exact .inr ⟨op, next, r, ht, hi.symm, rfl⟩
      · exact .inl (by simpa [hij] using hi)
  | @drop j | @lose j =>
      by_cases hij : i = j
      · simp [hij] at hi
      · exact .inl (by simpa [hij] using hi)
  | drift => exact .inl hi

theorem step_calls {M : Machine I σ κ ε} {s s' : Pool I σ ι α} {a : Action ι κ ε} (h : Step M s a s') :
    s'.calls = s.calls ∨ ∃ x, s'.calls = s.calls ++ [x] := by
  cases h with
  | answer | lose => exact .inr ⟨_, rfl⟩
  | drop | drift => exact .inl rfl

theorem world_of_step {M : Machine I σ κ ε} {s s' : Pool I σ ι α} {a : Action ι κ ε} (h : Step M s a s')
    (hc : s'.calls = s.calls) : s'.world = s.world ∨ ∃ e, M.drift s.world e = some s'.world := by
  cases h with
  | answer | lose => simp at hc
  | drop => exact .inl rfl
  | drift hd => exact .inr ⟨_, hd⟩

theorem did_step {M : Machine I σ κ ε} {s s' : Pool I σ ι α} {a : Action ι κ ε} (h : Step M s a s')
    (hd : Did P i s.calls) : Did P i s'.calls := by
  rcases step_calls h with hc | ⟨x, hc⟩ <;> rw [hc]
  · exact hd
  · exact hd.append _

theorem seen_step {M : Machine I σ κ ε} {s s' : Pool I σ ι α} {a : Action ι κ ε} (h : Step M s a s')
    (hs : Seen P s.calls) : Seen P s'.calls :=
  hs.imp fun _ => did_step h

theorem run_snoc {M : Machine I σ κ ε} {s t s' : Pool I σ ι α} {as : List (Action ι κ ε)}
    {a : Action ι κ ε} (hr : s.run M as = some t) (hs : Step M t a s') :
    s.run M (as ++ [a]) = some s' :=
  run_append.mpr ⟨t, hr, run_cons.mpr ⟨s', next_iff.mpr hs, rfl⟩⟩

theorem mem_calls_run {M : Machine I σ κ ε} {s s' : Pool I σ ι α} {as : List (Action ι κ ε)}
    (hr : s.run M as = some s') {x : ι × Call I σ} (hx : x ∈ s.calls) : x ∈ s'.calls := by
  refine run_invariant (J := fun s : Pool I σ ι α => x ∈ s.calls) (fun hx hs => ?_) hx hr
  rcases step_calls hs with hc | ⟨y, hc⟩ <;> rw [hc]
  · exact hx
  · exact List.mem_append_left _ hx

theorem meets_of_calls {M : Machine I σ κ ε} {C : Pool I σ ι α → Action ι κ ε → Prop}
    {s s' : Pool I σ ι α} {as : List (Action ι κ ε)} (hr : s.run M as = some s')
    (hC : ∀ t a, (∀ x ∈ t.calls, x ∈ s'.calls) → C t a) : s.Meets M C as := by
  induction as generalizing s with
  | nil => trivial
  | cons a as ih =>
      obtain ⟨u, hu, hr'⟩ := run_cons.mp hr
      refine ⟨hC s a fun x => mem_calls_run hr, fun t ht => ?_⟩
      rw [hu] at ht
      cases ht
      exact ih hr'

theorem run_untouched {M : Machine I σ κ ε} {w : σ} {p : ι → Program I α} {s : Pool I σ ι α}
    {as : List (Action ι κ ε)} (hr : (start w p).run M as = some s) {q : Program I α}
    (hq : s.task i = some q) (hn : ¬ Did (fun _ => True) i s.calls) : q = p i := by
  have h : ∀ i q, s.task i = some q → ¬ Did (fun _ => True) i s.calls → q = p i := by
    refine run_invariant (J := fun s : Pool I σ ι α => ∀ i q, s.task i = some q →
      ¬ Did (fun _ => True) i s.calls → q = p i) ?_ ?_ hr
    · intro s a s' h hs i q hq hn
      cases hs with
      | @answer j =>
          by_cases hij : i = j
          · exact absurd (did_snoc.mpr (.inr ⟨hij, trivial⟩)) hn
          · exact h i q (by simpa [hij] using hq) fun hd => hn (hd.append _)
      | @drop j =>
          by_cases hij : i = j
          · simp [hij] at hq
          · exact h i q (by simpa [hij] using hq) hn
      | @lose j =>
          by_cases hij : i = j
          · simp [hij] at hq
          · exact h i q (by simpa [hij] using hq) fun hd => hn (hd.append _)
      | drift => exact h i q hq hn
    · intro i q hq _
      exact (Option.some.inj hq).symm
  exact h i q hq hn

theorem run_split {M : Machine I σ κ ε} {s s' : Pool I σ ι α} {as : List (Action ι κ ε)}
    {pre post : List (ι × Call I σ)} {x : ι × Call I σ} (hr : s.run M as = some s')
    (hcalls : s'.calls = pre ++ x :: post) (hlen : s.calls.length ≤ pre.length) :
    ∃ bs b cs t t', as = bs ++ b :: cs ∧ s.run M bs = some t ∧ Step M t b t' ∧ t.calls = pre ∧
      t'.calls = pre ++ [x] ∧ t'.run M cs = some s' := by
  induction as using List.reverseRecOn generalizing s' post with
  | nil =>
      cases hr
      rw [hcalls, List.length_append, List.length_cons] at hlen
      omega
  | append_singleton as b ih =>
      obtain ⟨t, ht, hb⟩ := run_append.mp hr
      obtain ⟨t', hb, hn⟩ := run_cons.mp hb
      cases hn
      have hs := next_iff.mp hb
      rcases step_calls hs with hc | ⟨y, hc⟩
      · obtain ⟨bs, b', cs, u, u', rfl, hu, hst, hpre, hpre', hcs⟩ := ih ht (hc ▸ hcalls)
        exact ⟨bs, b', cs ++ [b], u, u', by simp, hu, hst, hpre, hpre',
          run_snoc hcs hs⟩
      · rcases List.eq_nil_or_concat post with rfl | ⟨post, z, rfl⟩
        · have h := List.append_inj' (hc.symm.trans hcalls) rfl
          obtain ⟨h₁, h₂⟩ := h
          cases h₂
          exact ⟨as, b, [], t, s', rfl, ht, hs, h₁, h₁ ▸ hc, rfl⟩
        · have h : t.calls ++ [y] = (pre ++ x :: post) ++ [z] := by
            rw [← hc, hcalls]; simp
          obtain ⟨h₁, -⟩ := List.append_inj' h rfl
          obtain ⟨bs, b', cs, u, u', rfl, hu, hst, hpre, hpre', hcs⟩ := ih ht h₁
          exact ⟨bs, b', cs ++ [b], u, u', by simp, hu, hst, hpre, hpre',
            run_snoc hcs hs⟩

theorem meets_of_invariant {M : Machine I σ κ ε} {J : Pool I σ ι α → Prop}
    {C : Pool I σ ι α → Action ι κ ε → Prop}
    (hstep : ∀ {s a s'}, J s → C s a → Step M s a s' → J s') {s : Pool I σ ι α}
    {as : List (Action ι κ ε)} (h : J s) (hC : s.Meets M C as) :
    s.Meets M (fun s a => J s ∧ C s a) as := by
  induction as generalizing s with
  | nil => trivial
  | cons a as ih =>
      exact ⟨⟨h, hC.1⟩, fun t ht => ih (hstep h hC.1 (next_iff.mp ht)) (hC.2 t ht)⟩

end Pool

end Catapulte.Async
