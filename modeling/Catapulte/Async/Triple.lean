import Catapulte.Async.Session

namespace Catapulte.Async

variable {I : Interface} {σ κ ε ι α β : Type}

/-- What may happen while a program runs alone: the calls that may take effect,
and the drifts between them. -/
structure Solo (I : Interface) (σ κ ε : Type) where
  call : κ → Call I σ → Prop
  drift : ε → Prop

/-- The program runs alone to its end, and each of its calls is appended to the history. -/
inductive Runs (M : Machine I σ κ ε) (o : Solo I σ κ ε) :
    σ → List (Call I σ) → Program I α → σ → List (Call I σ) → α → Prop
  | done {w l a} : Runs M o w l (.done a) w l a
  | drift {w w₁ w' l l' e p a} (ho : o.drift e) (hd : M.drift w e = some w₁)
      (h : Runs M o w₁ l p w' l' a) : Runs M o w l p w' l' a
  | await {w w₁ w' l l' op next c r a} (hp : M.perform w op c = some (w₁, r))
      (ho : o.call c ⟨w, op, r, true⟩) (h : Runs M o w₁ (l ++ [⟨w, op, r, true⟩]) (next r) w' l' a) :
      Runs M o w l (.await op next) w' l' a

abbrev Assertion (I : Interface) (σ : Type) := σ → List (Call I σ) → Prop

/-- Where the program runs alone from `P` to its end, `Q` holds of its result. -/
def Triple (M : Machine I σ κ ε) (o : Solo I σ κ ε) (P : Assertion I σ) (p : Program I α)
    (Q : α → Assertion I σ) : Prop :=
  ∀ w l w' l' a, P w l → Runs M o w l p w' l' a → Q a w' l'

/-- The drifts keep the assertion. -/
def Stable (M : Machine I σ κ ε) (o : Solo I σ κ ε) (P : Assertion I σ) : Prop :=
  ∀ w w' l e, P w l → o.drift e → M.drift w e = some w' → P w' l

def Program.play (M : Machine I σ κ ε) : Program I α → List κ → σ → Option (σ × α)
  | .done a, [], w => some (w, a)
  | .await op next, c :: cs, w => (M.perform w op c).bind fun answer => (next answer.2).play M cs answer.1
  | _, _, _ => none

theorem runs_of_play {M : Machine I σ κ ε} {o : Solo I σ κ ε} {p : Program I α} {cs : List κ} {w w' : σ} {a : α}
    (ho : ∀ c ∈ cs, ∀ call, o.call c call) (h : p.play M cs w = some (w', a)) (l : List (Call I σ)) :
    ∃ l', Runs M o w l p w' l' a := by
  induction p generalizing cs w l with
  | done b =>
      cases cs with
      | nil => cases h; exact ⟨l, .done⟩
      | cons => cases h
  | await op next ih =>
      cases cs with
      | nil => cases h
      | cons c cs =>
          obtain ⟨⟨w₁, r⟩, hp, h⟩ := Option.bind_eq_some_iff.mp h
          have hc : o.call c ⟨w, op, r, true⟩ := ho c List.mem_cons_self _
          obtain ⟨l', hr⟩ := ih r (fun c' hc' => ho c' (List.mem_cons_of_mem c hc')) h (l ++ [⟨w, op, r, true⟩])
          exact ⟨l', .await hp hc hr⟩

namespace Triple

variable {M : Machine I σ κ ε} {o : Solo I σ κ ε} {P P' : Assertion I σ} {Q Q' : α → Assertion I σ}
  {R : β → Assertion I σ} {p : Program I α}

theorem conseq (h : Triple M o P p Q) (hP : ∀ w l, P' w l → P w l) (hQ : ∀ a w l, Q a w l → Q' a w l) :
    Triple M o P' p Q' :=
  fun _ _ _ _ _ hp hr => hQ _ _ _ (h _ _ _ _ _ (hP _ _ hp) hr)

theorem done {a : α} (hs : Stable M o P) (h : ∀ w l, P w l → Q a w l) : Triple M o P (.done a) Q := by
  intro w l w' l' a' hp hr
  generalize hq : Program.done a = q at hr
  induction hr with
  | done => cases hq; exact h _ _ hp
  | drift ho hd _ ih => exact ih (hs _ _ _ _ hp ho hd) hq
  | await => cases hq

theorem await {op : I.Op} {next : I.Reply op → Program I α} {R : I.Reply op → Assertion I σ}
    (hs : Stable M o P)
    (hcall : ∀ w l w' r c, P w l → M.perform w op c = some (w', r) → o.call c ⟨w, op, r, true⟩ →
      R r w' (l ++ [⟨w, op, r, true⟩]))
    (hnext : ∀ r, Triple M o (R r) (next r) Q) : Triple M o P (.await op next) Q := by
  intro w l w' l' a hp hr
  generalize hq : Program.await op next = q at hr
  induction hr with
  | done => cases hq
  | drift ho hd _ ih => exact ih (hs _ _ _ _ hp ho hd) hq
  | await hperform ho hr =>
      cases hq
      exact hnext _ _ _ _ _ _ (hcall _ _ _ _ _ hp hperform ho) hr

theorem call {op : I.Op} {R : I.Reply op → Assertion I σ} (hs : Stable M o P)
    (hcall : ∀ w l w' r c, P w l → M.perform w op c = some (w', r) → o.call c ⟨w, op, r, true⟩ →
      R r w' (l ++ [⟨w, op, r, true⟩]))
    (hr : ∀ r, Stable M o (R r)) : Triple M o P (Program.call op) R :=
  await hs hcall fun r => done (hr r) fun _ _ h => h

theorem runs_bind {k : α → Program I β} {w w' : σ} {l l' : List (Call I σ)} {b : β}
    (h : Runs M o w l (p >>= k) w' l' b) :
    ∃ w₁ l₁ a, Runs M o w l p w₁ l₁ a ∧ Runs M o w₁ l₁ (k a) w' l' b := by
  generalize hq : p >>= k = q at h
  induction h generalizing p with
  | @done w l b =>
      cases p with
      | done a =>
          refine ⟨w, l, a, .done, ?_⟩
          rw [show k a = .done b from hq]
          exact .done
      | await => cases hq
  | drift ho hd _ ih =>
      obtain ⟨w₁, l₁, a, hp, hk⟩ := ih hq
      exact ⟨w₁, l₁, a, .drift ho hd hp, hk⟩
  | @await w w₁ w' l l' op next c r b hperform ho hr ih =>
      cases p with
      | done a =>
          refine ⟨w, l, a, .done, ?_⟩
          rw [show k a = .await op next from hq]
          exact .await hperform ho hr
      | await op' next' =>
          cases hq
          obtain ⟨w₂, l₂, a, hp, hk⟩ := ih rfl
          exact ⟨w₂, l₂, a, .await hperform ho hp, hk⟩

theorem bind {k : α → Program I β} (h : Triple M o P p Q) (hk : ∀ a, Triple M o (Q a) (k a) R) :
    Triple M o P (p >>= k) R := by
  intro w l w' l' b hp hr
  obtain ⟨w₁, l₁, a, hp', hr'⟩ := runs_bind hr
  exact hk a _ _ _ _ _ (h _ _ _ _ _ hp hp') hr'

theorem map {f : α → β} (h : Triple M o P p Q) (hs : ∀ a, Stable M o (Q a)) :
    Triple M o P (f <$> p) fun b w l => ∃ a, f a = b ∧ Q a w l :=
  h.bind fun a => done (hs a) fun _ _ hq => ⟨a, rfl, hq⟩

end Triple

section

variable {S : Type} {M : Machine I σ κ ε} {o : Solo I σ κ ε} {m : Session I S} {T : S → Assertion I σ}
  {Q : S → α → Prop} {p : Program I α} {st : S}

/-- What the calls of the session and the drifts between them do to the assertions of its stages. -/
structure Guides (M : Machine I σ κ ε) (o : Solo I σ κ ε) (m : Session I S) (T : S → Assertion I σ) : Prop where
  stable : ∀ st, Stable M o (T st)
  call : ∀ {st op r st' w l w' c}, m st op r st' → T st w l → M.perform w op c = some (w', r) →
    o.call c ⟨w, op, r, true⟩ → T st' w' (l ++ [⟨w, op, r, true⟩])

theorem Guides.triple (h : Guides M o m T) (hf : p.Follows m Q st) :
    Triple M o (T st) p fun a w l => ∃ st', Q st' a ∧ T st' w l := by
  induction p generalizing st with
  | done a => exact Triple.done (h.stable st) fun w l ht => ⟨st, hf, ht⟩
  | await op next ih =>
      refine Triple.await (R := fun r w l => ∃ st', (next r).Follows m Q st' ∧ T st' w l) (h.stable st) ?_ ?_
      · intro w l w' r c ht hp ho
        obtain ⟨st', hm, hn⟩ := hf r
        exact ⟨st', hn, h.call hm ht hp ho⟩
      · rintro r w l w' l' a ⟨st', hn, ht⟩ hr
        exact ih r hn w l w' l' a ht hr

theorem Guides.exists_run (h : Guides M o m T) (hf : p.Follows m Q st) {w : σ} {l : List (Call I σ)} (ht : T st w l)
    (hreply : ∀ op : I.Op, Nonempty (I.Reply op))
    (hcan : ∀ {st op r st' w l}, m st op r st' → T st w l →
      ∃ c w' r', M.perform w op c = some (w', r') ∧ o.call c ⟨w, op, r', true⟩) :
    ∃ w' l' a, Runs M o w l p w' l' a := by
  induction p generalizing st w l with
  | done a => exact ⟨w, l, a, .done⟩
  | await op next ih =>
      obtain ⟨r⟩ := hreply op
      obtain ⟨st', hm, -⟩ := hf r
      obtain ⟨c, w₁, r₁, hp, ho⟩ := hcan hm ht
      obtain ⟨st₁, hm₁, hn⟩ := hf r₁
      obtain ⟨w', l', a, hr⟩ := ih r₁ hn (h.call hm₁ ht hp ho)
      exact ⟨w', l', a, .await hp ho hr⟩

end

namespace Pool

variable [DecidableEq ι] {M : Machine I σ κ ε} {o : Solo I σ κ ε} {i : ι} {s s' : Pool I σ ι α}
  {act : Action ι κ ε}

/-- The action is the next call of task `i`, or an allowed drift. -/
def Alone (M : Machine I σ κ ε) (o : Solo I σ κ ε) (i : ι) (s : Pool I σ ι α) : Action ι κ ε → Prop
  | .step j c => j = i ∧ ∀ x ∈ s.landed M (.step j c), o.call c x.2
  | .drift e => o.drift e
  | .abandon .. => False

theorem runs_of_run {as : List (Action ι κ ε)} {p : Program I α} {a : α} (hr : s.run M as = some s')
    (hm : s.Meets M (Alone M o i) as) (hp : s.task i = some p) (hd : s'.task i = some (.done a)) :
    Runs M o s.world (s.calls.map Prod.snd) p s'.world (s'.calls.map Prod.snd) a := by
  induction as generalizing s p with
  | nil =>
      cases hr
      rw [hp] at hd
      cases hd
      exact .done
  | cons act as ih =>
      obtain ⟨t, ht, hr⟩ := run_cons.mp hr
      obtain ⟨hm, hm'⟩ := hm
      have hm' := hm' t ht
      cases next_iff.mp ht with
      | @answer j op next c w r htask hperform =>
          obtain ⟨rfl, hcall⟩ := hm
          rw [hp] at htask
          cases htask
          have hlanded := landed_of_lands true ⟨next, c, hp, hperform, rfl⟩
          have hrest := ih hr hm' (p := next r) (by simp)
          simp only [List.map_append, List.map_cons, List.map_nil] at hrest
          exact .await hperform (hcall _ hlanded) hrest
      | drop | lose => exact hm.elim
      | drift he => exact .drift hm he (ih hr hm' hp)

end Pool

end Catapulte.Async
