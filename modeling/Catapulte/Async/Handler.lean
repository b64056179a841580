import Mathlib.Data.List.Forall2
import Catapulte.Async.Answered
import Catapulte.Async.Session

namespace Catapulte.Async

theorem exists_of_map_eq_flatten {β γ : Type} {f : β → γ} {l : List β} {segments : List (List γ)}
    (h : l.map f = segments.flatten) : ∃ cut : List (List β), cut.map (List.map f) = segments ∧ l = cut.flatten := by
  induction segments generalizing l with
  | nil => exact ⟨[], rfl, List.map_eq_nil_iff.mp h⟩
  | cons segment segments ih =>
      obtain ⟨l₁, l₂, rfl, rfl, hrest⟩ := List.map_eq_append_iff.mp h
      obtain ⟨cut, rfl, rfl⟩ := ih hrest
      exact ⟨l₁ :: cut, rfl, rfl⟩

namespace Program

variable {I J : Interface} {α β S : Type} {h : ∀ op : I.Op, Program J (I.Reply op)}

def interpret (h : ∀ op : I.Op, Program J (I.Reply op)) : Program I α → Program J α
  | done a => done a
  | await op next => h op >>= fun r => (next r).interpret h

theorem interpret_bind (p : Program I α) (k : α → Program I β) :
    (p >>= k).interpret h = p.interpret h >>= fun a => (k a).interpret h := by
  induction p with
  | done a => rfl
  | await op next ih =>
      simp only [await_bind, interpret, bind_assoc]
      congr 1
      funext r
      exact ih r

theorem answered_interpret {p : Program I α} {t : List (Exchange J)} {a : α} :
    (p.interpret h).Answered t a ↔ ∃ calls segments, p.Answered calls a ∧
      List.Forall₂ (fun x segment => (h x.1).Answered segment x.2) calls segments ∧ t = segments.flatten := by
  induction p generalizing t with
  | done b =>
      constructor
      · rintro ⟨rfl, rfl⟩
        exact ⟨[], [], ⟨rfl, rfl⟩, .nil, rfl⟩
      · rintro ⟨_, _, ⟨rfl, rfl⟩, hs, rfl⟩
        cases hs
        exact ⟨rfl, rfl⟩
  | await op next ih =>
      rw [interpret, answered_bind]
      constructor
      · rintro ⟨t₁, t₂, r, rfl, hop, hnext⟩
        obtain ⟨calls, segments, hp, hs, rfl⟩ := (ih r).mp hnext
        exact ⟨⟨op, r⟩ :: calls, t₁ :: segments, ⟨r, calls, rfl, hp⟩, .cons hop hs, rfl⟩
      · rintro ⟨_, _, ⟨r, calls, rfl, hp⟩, hs, rfl⟩
        cases hs with
        | @cons _ segment _ segments hop hs =>
            exact ⟨segment, segments.flatten, r, rfl, hop, (ih r).mpr ⟨calls, segments, hp, hs, rfl⟩⟩

theorem Follows.answered_map {β : Type} {f : β → Exchange I} {m : Session I S} {Q : S → α → Prop} {p : Program I α}
    {st : S} {t : List β} {a : α} (hp : p.Follows m Q st) (ht : p.Answered (t.map f) a) {J : S → List β → Prop}
    (hstep : ∀ st l x st', J st l → m st (f x).1 (f x).2 st' → x ∈ t → J st' (l ++ [x]))
    {l : List β} (hJ : J st l) : ∃ st', Q st' a ∧ J st' (l ++ t) := by
  induction p generalizing st t l with
  | done b =>
      obtain ⟨ht, rfl⟩ := ht
      obtain rfl := List.map_eq_nil_iff.mp ht
      exact ⟨st, hp, by rwa [List.append_nil]⟩
  | await op next ih =>
      obtain ⟨r, t', ht, hnext⟩ := ht
      obtain ⟨x, t, rfl, hx, rfl⟩ := List.map_eq_cons_iff.mp ht
      obtain ⟨st', hm, hf⟩ := hp r
      have hJ' := hstep st l x st' hJ (by rwa [hx]) List.mem_cons_self
      obtain ⟨st'', hQ, hend⟩ := ih r hf hnext
        (fun st l y st' hJ hm hy => hstep st l y st' hJ hm (List.mem_cons_of_mem _ hy)) hJ'
      refine ⟨st'', hQ, ?_⟩
      rwa [List.append_assoc] at hend

theorem Follows.answered {m : Session I S} {Q : S → α → Prop} {p : Program I α} {st : S} {t : List (Exchange I)}
    {a : α} (hp : p.Follows m Q st) (ht : p.Answered t a) {J : S → List (Exchange I) → Prop}
    (hstep : ∀ st l op r st', J st l → m st op r st' → ⟨op, r⟩ ∈ t → J st' (l ++ [⟨op, r⟩]))
    {l : List (Exchange I)} (hJ : J st l) : ∃ st', Q st' a ∧ J st' (l ++ t) :=
  hp.answered_map (f := id) ((List.map_id t).symm ▸ ht) (fun st l x => hstep st l x.1 x.2) hJ

end Program

namespace Pool

variable {I : Interface} {σ κ ε ι α : Type} [DecidableEq ι] {M : Machine I σ κ ε}

def trace (i : ι) (calls : List (ι × Call I σ)) : List (Exchange I) :=
  calls.filterMap fun x => if x.1 = i then some ⟨x.2.op, x.2.reply⟩ else none

@[simp] theorem trace_nil (i : ι) : trace i ([] : List (ι × Call I σ)) = [] := rfl

@[simp] theorem trace_snoc_self (i : ι) (calls : List (ι × Call I σ)) (c : Call I σ) :
    trace i (calls ++ [(i, c)]) = trace i calls ++ [⟨c.op, c.reply⟩] := by
  simp [trace]

theorem trace_snoc_of_ne {i j : ι} (h : j ≠ i) (calls : List (ι × Call I σ)) (c : Call I σ) :
    trace i (calls ++ [(j, c)]) = trace i calls := by
  simp [trace, h]

theorem mem_trace {i : ι} {calls : List (ι × Call I σ)} {x : Exchange I} :
    x ∈ trace i calls ↔ ∃ c, (i, c) ∈ calls ∧ (⟨c.op, c.reply⟩ : Exchange I) = x := by
  simp only [trace, List.mem_filterMap]
  constructor
  · rintro ⟨⟨j, c⟩, hc, hx⟩
    split at hx
    · rename_i hj
      exact ⟨c, hj ▸ hc, Option.some.inj hx⟩
    · cases hx
  · rintro ⟨c, hc, rfl⟩
    exact ⟨(i, c), hc, if_pos rfl⟩

theorem answered_of_run {w : σ} {p : ι → Program I α} {as : List (Action ι κ ε)} {s : Pool I σ ι α}
    (hr : (start w p).run M as = some s) {i : ι} {a : α} (hd : s.task i = some (.done a)) :
    (p i).Answered (trace i s.calls) a := by
  have hinv : ∀ i q, s.task i = some q →
      ∀ t a, q.Answered t a → (p i).Answered (trace i s.calls ++ t) a := by
    refine run_invariant (J := fun s => ∀ i q, s.task i = some q →
      ∀ t a, q.Answered t a → (p i).Answered (trace i s.calls ++ t) a) ?_ ?_ hr
    · intro s act s' h hs j q hq t a ha
      cases hs with
      | @answer i op next c w r ht hp =>
          by_cases hji : j = i
          · subst hji
            simp only [Function.update_self, Option.some.injEq] at hq
            subst hq
            rw [trace_snoc_self, List.append_assoc]
            exact h j _ ht _ a ⟨r, t, rfl, ha⟩
          · simp only [Function.update_of_ne hji] at hq
            rw [trace_snoc_of_ne (Ne.symm hji)]
            exact h j q hq t a ha
      | @drop i op next ht =>
          by_cases hji : j = i
          · subst hji
            simp at hq
          · simp only [Function.update_of_ne hji] at hq
            exact h j q hq t a ha
      | @lose i op next c w r ht hp =>
          by_cases hji : j = i
          · subst hji
            simp at hq
          · simp only [Function.update_of_ne hji] at hq
            rw [trace_snoc_of_ne (Ne.symm hji)]
            exact h j q hq t a ha
      | drift hd => exact h j q hq t a ha
    · rintro i q hq t a ha
      cases hq
      exact ha
  simpa using hinv i _ hd [] a ⟨rfl, rfl⟩

theorem trace_runs {w : σ} {p : ι → Program I α} {as : List (Action ι κ ε)} {s : Pool I σ ι α}
    (hr : (start w p).run M as = some s) (i : ι) :
    ∃ q, (p i).Runs (trace i s.calls) q ∧ ∀ q', s.task i = some q' → q' = q := by
  have hinv : ∀ i, ∃ q, (p i).Runs (trace i s.calls) q ∧ ∀ q', s.task i = some q' → q' = q := by
    refine run_invariant (J := fun s => ∀ i, ∃ q, (p i).Runs (trace i s.calls) q ∧
      ∀ q', s.task i = some q' → q' = q) ?_ ?_ hr
    · intro s act s' h hs j
      obtain ⟨q, hq, htask⟩ := h j
      cases hs with
      | @answer i op next c w r ht hp | @lose i op next c w r ht hp =>
          by_cases hji : j = i
          · subst hji
            obtain rfl := htask _ ht
            refine ⟨next r, ?_, fun q' hq' => ?_⟩
            · rw [trace_snoc_self]
              exact hq.call r
            · simp only [Function.update_self, Option.some.injEq, reduceCtorEq] at hq'
              all_goals exact hq'.symm
          · refine ⟨q, ?_, fun q' hq' => htask q' ?_⟩
            · rw [trace_snoc_of_ne (Ne.symm hji)]
              exact hq
            · simpa only [Function.update_of_ne hji] using hq'
      | @drop i op next ht =>
          refine ⟨q, hq, fun q' hq' => ?_⟩
          by_cases hji : j = i
          · subst hji
            simp at hq'
          · exact htask q' (by simpa only [Function.update_of_ne hji] using hq')
      | drift hd => exact ⟨q, hq, htask⟩
    · intro j
      exact ⟨p j, .refl, fun q' hq' => (Option.some.inj hq').symm⟩
  exact hinv i

end Pool

/-- A call as the state performed it. -/
structure Landing {σ κ ε : Type} (M : Machine I σ κ ε) where
  before : σ
  op : I.Op
  choice : κ
  after : σ
  reply : I.Reply op
  performed : M.perform before op choice = some (after, reply)

namespace Landing

variable {σ κ ε : Type} {M : Machine I σ κ ε}

def exchange (x : Landing M) : Exchange I := ⟨x.op, x.reply⟩

def of (w : σ) (op : I.Op) (c : κ) : Option (Landing M) :=
  match h : M.perform w op c with
  | some (w', r) => some ⟨w, op, c, w', r, h⟩
  | none => none

theorem of_eq {w w' : σ} {op : I.Op} {c : κ} {r : I.Reply op} (h : M.perform w op c = some (w', r)) :
    of w op c = some (⟨w, op, c, w', r, h⟩ : Landing M) := by
  unfold of
  split
  · rename_i h'
    obtain ⟨rfl, rfl⟩ := Prod.mk.inj (Option.some.inj (h'.symm.trans h))
    rfl
  · rename_i h'
    cases h'.symm.trans h

end Landing

namespace Pool

variable {σ κ ε ι : Type} [DecidableEq ι] {M : Machine I σ κ ε}

def landing (M : Machine I σ κ ε) (i : ι) (s : Pool I σ ι α) : Action ι κ ε → Option (Landing M)
  | .step j c | .abandon j (some c) =>
      match s.task j with
      | some (.await op _) => if j = i then Landing.of s.world op c else none
      | _ => none
  | .abandon _ none | .drift _ => none

/-- The calls of one task in a run, with the states before and after them. -/
def landings (M : Machine I σ κ ε) (i : ι) (s : Pool I σ ι α) : List (Action ι κ ε) → List (Landing M)
  | [] => []
  | a :: as => (s.landing M i a).toList ++ ((s.next M a).map fun s' => s'.landings M i as).getD []

theorem trace_step {s s' : Pool I σ ι α} {a : Action ι κ ε} (h : Step M s a s') (i : ι) :
    trace i s'.calls = trace i s.calls ++ (s.landing M i a).toList.map Landing.exchange := by
  cases h with
  | @answer j op next c w r ht hp | @lose j op next c w r ht hp =>
      simp only [landing, ht]
      by_cases hji : j = i
      · subst hji
        rw [if_pos rfl, Landing.of_eq hp, trace_snoc_self]
        rfl
      · rw [if_neg hji, trace_snoc_of_ne hji]
        exact (List.append_nil _).symm
  | drop ht => exact (List.append_nil _).symm
  | drift hd => exact (List.append_nil _).symm

theorem trace_of_run {s s' : Pool I σ ι α} {as : List (Action ι κ ε)} (hr : s.run M as = some s') (i : ι) :
    trace i s'.calls = trace i s.calls ++ (s.landings M i as).map Landing.exchange := by
  induction as generalizing s with
  | nil =>
      cases hr
      exact (List.append_nil _).symm
  | cons a as ih =>
      obtain ⟨t, ht, hr⟩ := run_cons.mp hr
      rw [ih hr, trace_step (next_iff.mp ht), List.append_assoc]
      simp only [landings, ht, Option.map_some, Option.getD_some, List.map_append]

end Pool

end Catapulte.Async
