import Catapulte.Async.History

namespace Catapulte.Async

/-- A session says stage by stage which calls a program may await and to which
stage each answer leads. -/
abbrev Session (I : Interface) (S : Type) := S → (op : I.Op) → I.Reply op → S → Prop

namespace Program

variable {I : Interface} {S α β : Type} {m : Session I S} {Q R : S → α → Prop}

/-- From the given stage on the program keeps to the session, and `Q` holds of
the stage and the result it ends with. -/
def Follows (m : Session I S) (Q : S → α → Prop) : Program I α → S → Prop
  | done a, st => Q st a
  | await op next, st => ∀ r, ∃ st', m st op r st' ∧ (next r).Follows m Q st'

@[simp] theorem follows_done {a : α} {st : S} : (done a : Program I α).Follows m Q st ↔ Q st a :=
  Iff.rfl

@[simp] theorem follows_await {op : I.Op} {next : I.Reply op → Program I α} {st : S} :
    (await op next).Follows m Q st ↔ ∀ r, ∃ st', m st op r st' ∧ (next r).Follows m Q st' := Iff.rfl

theorem Follows.mono {p : Program I α} {st : S} (h : p.Follows m Q st)
    (hQ : ∀ st a, Q st a → R st a) : p.Follows m R st := by
  induction p generalizing st with
  | done a => exact hQ st a h
  | await op next ih =>
      intro r
      obtain ⟨st', hm, hn⟩ := h r
      exact ⟨st', hm, ih r hn⟩

theorem Follows.bind {Q' : S → β → Prop} {p : Program I α} {k : α → Program I β} {st : S}
    (h : p.Follows m Q st) (hk : ∀ st a, Q st a → (k a).Follows m Q' st) :
    (p >>= k).Follows m Q' st := by
  induction p generalizing st with
  | done a => exact hk st a h
  | await op next ih =>
      intro r
      obtain ⟨st', hm, hn⟩ := h r
      exact ⟨st', hm, ih r hn⟩

theorem Follows.map {Q' : S → β → Prop} {p : Program I α} {st : S} {f : α → β}
    (h : p.Follows m Q st) (hf : ∀ st a, Q st a → Q' st (f a)) : (f <$> p).Follows m Q' st :=
  h.bind hf

theorem Follows.embed {T : Type} {m' : Session I T} {Q' : T → α → Prop} {f : S → T}
    {p : Program I α} {st : S} (h : p.Follows m Q st)
    (hm : ∀ {st op r st'}, m st op r st' → m' (f st) op r (f st'))
    (hQ : ∀ {st a}, Q st a → Q' (f st) a) : p.Follows m' Q' (f st) := by
  induction p generalizing st with
  | done a => exact hQ h
  | await op next ih =>
      intro r
      obtain ⟨st', hs, hn⟩ := h r
      exact ⟨f st', hm hs, ih r hn⟩

theorem Only.follows {P : I.Op → Prop} {p : Program I α} {st : S} (h : p.Only P)
    (hm : ∀ op r, P op → m st op r st) (hQ : ∀ a, Q st a) : p.Follows m Q st := by
  induction p with
  | done a => exact hQ a
  | await op next ih => exact fun r => ⟨st, hm op r h.1, ih r (h.2 r)⟩

end Program

namespace Pool

variable {I : Interface} {σ κ ε ι α S : Type} [DecidableEq ι]

open Program

/-- The action lets the call of task `i` take effect: the shared state becomes
`w`. The caller hears the answer unless it is abandoned. -/
def Lands (M : Machine I σ κ ε) (s : Pool I σ ι α) (a : Action ι κ ε) (i : ι) (op : I.Op) (w : σ)
    (r : I.Reply op) (heard : Bool) : Prop :=
  ∃ next c, s.task i = some (.await op next) ∧ M.perform s.world op c = some (w, r) ∧
    a = if heard then .step i c else .abandon i (some c)

theorem step_lands {M : Machine I σ κ ε} {s s' : Pool I σ ι α} {a : Action ι κ ε} {i : ι}
    {c : Call I σ} (h : Step M s a s') (hc : s'.calls = s.calls ++ [(i, c)]) :
    Lands M s a i c.op s'.world c.reply c.heard := by
  cases h with
  | answer ht hp =>
      obtain ⟨-, hx⟩ := List.append_inj' hc rfl
      cases hx
      exact ⟨_, _, ht, hp, rfl⟩
  | lose ht hp =>
      obtain ⟨-, hx⟩ := List.append_inj' hc rfl
      cases hx
      exact ⟨_, _, ht, hp, rfl⟩
  | drop | drift => simp at hc

def landed (M : Machine I σ κ ε) (s : Pool I σ ι α) : Action ι κ ε → Option (ι × Call I σ)
  | .step i c =>
      match s.task i with
      | some (.await op _) => (M.perform s.world op c).map fun (_, r) => (i, ⟨s.world, op, r, true⟩)
      | _ => none
  | .abandon i (some c) =>
      match s.task i with
      | some (.await op _) => (M.perform s.world op c).map fun (_, r) => (i, ⟨s.world, op, r, false⟩)
      | _ => none
  | _ => none

omit [DecidableEq ι] in
theorem landed_of_lands {M : Machine I σ κ ε} {s : Pool I σ ι α} {a : Action ι κ ε} {i : ι} {op : I.Op}
    {w : σ} {r : I.Reply op} (heard : Bool) (h : Lands M s a i op w r heard) :
    s.landed M a = some (i, ⟨s.world, op, r, heard⟩) := by
  obtain ⟨next, c, ht, hp, rfl⟩ := h
  cases heard <;> simp [landed, ht, hp]

omit [DecidableEq ι] in
theorem lands_of_landed {M : Machine I σ κ ε} {s : Pool I σ ι α} {a : Action ι κ ε} {i : ι} {c : Call I σ}
    (h : s.landed M a = some (i, c)) : ∃ w, Lands M s a i c.op w c.reply c.heard := by
  unfold landed at h
  split at h
  · split at h
    · rename_i ht
      obtain ⟨⟨w, r⟩, hp, hc⟩ := Option.map_eq_some_iff.mp h
      cases hc
      exact ⟨w, _, _, ht, hp, rfl⟩
    · cases h
  · split at h
    · rename_i ht
      obtain ⟨⟨w, r⟩, hp, hc⟩ := Option.map_eq_some_iff.mp h
      cases hc
      exact ⟨w, _, _, ht, hp, rfl⟩
    · cases h
  · cases h

theorem before_of_step {M : Machine I σ κ ε} {s s' : Pool I σ ι α} {a : Action ι κ ε} {i : ι}
    {c : Call I σ} (h : Step M s a s') (hc : s'.calls = s.calls ++ [(i, c)]) : c.before = s.world := by
  cases h with
  | answer | lose =>
      obtain ⟨-, hx⟩ := List.append_inj' hc rfl
      cases hx
      rfl
  | drop | drift => simp at hc

/-- An outline annotates the tasks with sessions. It speaks about the shared
state and, for each task that is still there, about its stage. -/
structure Outline (I : Interface) (σ ι α S : Type) where
  session : ι → Session I S
  ends : ι → S → α → Prop
  shared : σ → List (ι × Call I σ) → Prop
  task : ι → S → σ → List (ι × Call I σ) → Prop

namespace Outline

def Holds (o : Outline I σ ι α S) (s : Pool I σ ι α) : Prop :=
  o.shared s.world s.calls ∧ ∀ i p, s.task i = some p →
    ∃ st, p.Follows (o.session i) (o.ends i) st ∧ o.task i st s.world s.calls

/-- One landing call keeps the outline: the shared part, the part of the
calling task, and the parts of the tasks it interferes with. -/
structure Keeps (M : Machine I σ κ ε) (o : Outline I σ ι α S) (s : Pool I σ ι α)
    (a : Action ι κ ε) : Prop where
  shared : ∀ {i op w r heard st st'}, Lands M s a i op w r heard → o.session i st op r st' →
    o.task i st s.world s.calls → o.shared w (s.calls ++ [(i, ⟨s.world, op, r, heard⟩)])
  own : ∀ {i op w r st st'}, Lands M s a i op w r true → o.session i st op r st' →
    o.task i st s.world s.calls → o.task i st' w (s.calls ++ [(i, ⟨s.world, op, r, true⟩)])
  other : ∀ {i op w r heard st st'}, Lands M s a i op w r heard → o.session i st op r st' →
    o.task i st s.world s.calls → ∀ {j stj p}, j ≠ i → s.task j = some p →
    p.Follows (o.session j) (o.ends j) stj → o.task j stj s.world s.calls → o.task j stj w (s.calls ++ [(i, ⟨s.world, op, r, heard⟩)])
  drift : ∀ {e w}, M.drift s.world e = some w → o.shared w s.calls ∧
    ∀ {j stj}, o.task j stj s.world s.calls → o.task j stj w s.calls

theorem step {M : Machine I σ κ ε} {o : Outline I σ ι α S} {s s' : Pool I σ ι α}
    {a : Action ι κ ε} (h : o.Holds s) (hk : o.Holds s → Keeps M o s a) (hs : Step M s a s') :
    o.Holds s' := by
  obtain ⟨hshared, htask⟩ := h
  have hk := hk ⟨hshared, htask⟩
  cases hs with
  | @answer i op next c w r ht hp =>
      have hl : Lands M s (.step i c) i op w r true := ⟨next, c, ht, hp, rfl⟩
      obtain ⟨st, hf, hi⟩ := htask i _ ht
      obtain ⟨st', hm, hf'⟩ := hf r
      refine ⟨hk.shared hl hm hi, fun j p hj => ?_⟩
      by_cases hji : j = i
      · subst hji
        simp only [Function.update_self, Option.some.injEq] at hj
        subst hj
        exact ⟨st', hf', hk.own hl hm hi⟩
      · simp only [Function.update_of_ne hji] at hj
        obtain ⟨stj, hfj, hj'⟩ := htask j p hj
        exact ⟨stj, hfj, hk.other hl hm hi hji hj hfj hj'⟩
  | @drop i op next ht =>
      refine ⟨hshared, fun j p hj => ?_⟩
      by_cases hji : j = i
      · subst hji; simp at hj
      · exact htask j p (by simpa [hji] using hj)
  | @lose i op next c w r ht hp =>
      have hl : Lands M s (.abandon i (some c)) i op w r false := ⟨next, c, ht, hp, rfl⟩
      obtain ⟨st, hf, hi⟩ := htask i _ ht
      obtain ⟨st', hm, -⟩ := hf r
      refine ⟨hk.shared hl hm hi, fun j p hj => ?_⟩
      by_cases hji : j = i
      · subst hji; simp at hj
      · simp only [Function.update_of_ne hji] at hj
        obtain ⟨stj, hfj, hj'⟩ := htask j p hj
        exact ⟨stj, hfj, hk.other hl hm hi hji hj hfj hj'⟩
  | drift hd =>
      obtain ⟨hsh, hta⟩ := hk.drift hd
      refine ⟨hsh, fun j p hj => ?_⟩
      obtain ⟨stj, hfj, hj'⟩ := htask j p hj
      exact ⟨stj, hfj, hta hj'⟩

def and (o : Outline I σ ι α S) (P : σ → List (ι × Call I σ) → Prop)
    (T : ι → S → σ → List (ι × Call I σ) → Prop) : Outline I σ ι α S where
  session := o.session
  ends := o.ends
  shared w calls := o.shared w calls ∧ P w calls
  task i st w calls := o.task i st w calls ∧ T i st w calls

section And

variable {o : Outline I σ ι α S} {P : σ → List (ι × Call I σ) → Prop}
  {T : ι → S → σ → List (ι × Call I σ) → Prop} {M : Machine I σ κ ε} {s : Pool I σ ι α} {a : Action ι κ ε}

omit [DecidableEq ι] in
theorem Holds.left (h : (o.and P T).Holds s) : o.Holds s :=
  ⟨h.1.1, fun i p hp => (h.2 i p hp).imp fun _ ht => ⟨ht.1, ht.2.1⟩⟩

omit [DecidableEq ι] in
theorem Holds.right (h : (o.and P T).Holds s) : (Outline.mk o.session o.ends P T).Holds s :=
  ⟨h.1.2, fun i p hp => (h.2 i p hp).imp fun _ ht => ⟨ht.1, ht.2.2⟩⟩

/-- A landing call keeps the further facts, in view of the stage of its task. -/
structure Extends (M : Machine I σ κ ε) (o : Outline I σ ι α S) (P : σ → List (ι × Call I σ) → Prop)
    (T : ι → S → σ → List (ι × Call I σ) → Prop) (s : Pool I σ ι α) (a : Action ι κ ε) : Prop where
  shared : ∀ {i op w r heard st st'}, Lands M s a i op w r heard → o.session i st op r st' →
    (o.and P T).task i st s.world s.calls → P w (s.calls ++ [(i, ⟨s.world, op, r, heard⟩)])
  own : ∀ {i op w r st st'}, Lands M s a i op w r true → o.session i st op r st' →
    (o.and P T).task i st s.world s.calls → T i st' w (s.calls ++ [(i, ⟨s.world, op, r, true⟩)])
  other : ∀ {i op w r heard st st'}, Lands M s a i op w r heard → o.session i st op r st' →
    (o.and P T).task i st s.world s.calls → ∀ {j stj p}, j ≠ i → s.task j = some p →
    p.Follows (o.session j) (o.ends j) stj → T j stj s.world s.calls →
    T j stj w (s.calls ++ [(i, ⟨s.world, op, r, heard⟩)])
  drift : ∀ {e w}, M.drift s.world e = some w → P w s.calls ∧ ∀ {j stj}, T j stj s.world s.calls → T j stj w s.calls

omit [DecidableEq ι] in
theorem Keeps.extends (h : (Outline.mk o.session o.ends P T).Keeps M s a) : Extends M o P T s a where
  shared hl hm ht := h.shared hl hm ht.2
  own hl hm ht := h.own hl hm ht.2
  other hl hm ht := h.other hl hm ht.2
  drift := h.drift

omit [DecidableEq ι] in
theorem Keeps.and (h : o.Keeps M s a) (h' : Extends M o P T s a) : (o.and P T).Keeps M s a where
  shared hl hm ht := ⟨h.shared hl hm ht.1, h'.shared hl hm ht⟩
  own hl hm ht := ⟨h.own hl hm ht.1, h'.own hl hm ht⟩
  other hl hm ht _ _ _ hji hj hf htj := ⟨h.other hl hm ht.1 hji hj hf htj.1, h'.other hl hm ht hji hj hf htj.2⟩
  drift hd := ⟨⟨(h.drift hd).1, (h'.drift hd).1⟩, fun ht => ⟨(h.drift hd).2 ht.1, (h'.drift hd).2 ht.2⟩⟩

end And

theorem run {M : Machine I σ κ ε} {o : Outline I σ ι α S} {C : Pool I σ ι α → Action ι κ ε → Prop}
    (hk : ∀ {s a}, C s a → o.Holds s → Keeps M o s a) {s s' : Pool I σ ι α}
    {as : List (Action ι κ ε)} (h : o.Holds s) (hC : s.Meets M C as) (hr : s.run M as = some s') :
    o.Holds s' :=
  run_preserves (fun hi hc hs => step hi (hk hc) hs) h hC hr

end Outline

end Pool

end Catapulte.Async
