import Catapulte.Async.Handler

namespace Catapulte.Async

variable {I J : Interface} {α β γ δ : Type}

/-- The calls of `I` beside those of `J`; `turn` says which of two futures is polled next. -/
inductive BesideOp (I J : Interface)
  | left (op : I.Op)
  | right (op : J.Op)
  | turn

@[reducible] def BesideOp.Reply : BesideOp I J → Type
  | left op => I.Reply op
  | right op => J.Reply op
  | turn => Bool

@[reducible] def Interface.beside (I J : Interface) : Interface := ⟨BesideOp I J, BesideOp.Reply⟩

namespace Program

/-- A program that makes no calls of `J`. -/
def left (J : Interface) : Program I α → Program (I.beside J) α
  | done a => done a
  | await op next => await (.left op) fun r => left J (next r)

/-- A program that makes no calls of `I`. -/
def right (I : Interface) : Program J α → Program (I.beside J) α
  | done a => done a
  | await op next => await (.right op) fun r => right I (next r)

def joinAwait (op : I.Op) (next : I.Reply op → Program J β → Program (I.beside J) γ) : Program J β → Program (I.beside J) γ
  | done b => await (.left op) fun r => next r (done b)
  | await op' next' => await .turn fun b =>
      if b then await (.left op) fun r => next r (await op' next')
      else await (.right op') fun r => joinAwait op next (next' r)

def join : Program I α → Program J β → Program (I.beside J) (α × β)
  | done a, q => (fun b => (a, b)) <$> right I q
  | await op next, q => joinAwait op (fun r => join (next r)) q

/-- Without its calls of `J` the program is `q`. -/
def Erases (rel : α → β → Prop) : Program (I.beside J) α → Program I β → Prop
  | done a, q => ∃ b, q = done b ∧ rel a b
  | await (.left op) next, q => ∃ next', q = await op next' ∧ ∀ r, (next r).Erases rel (next' r)
  | await (.right _) next, q => ∀ r, (next r).Erases rel q
  | await .turn next, q => ∀ b, (next b).Erases rel q

theorem Erases.mono {rel rel' : α → β → Prop} {p : Program (I.beside J) α} {q : Program I β} (h : p.Erases rel q)
    (hrel : ∀ a b, rel a b → rel' a b) : p.Erases rel' q := by
  induction p generalizing q with
  | done a =>
      obtain ⟨b, hq, hab⟩ := h
      exact ⟨b, hq, hrel a b hab⟩
  | await op next ih =>
      cases op with
      | left op =>
          obtain ⟨next', hq, hn⟩ := h
          exact ⟨next', hq, fun r => ih r (hn r)⟩
      | right op => exact fun r => ih r (h r)
      | turn => exact fun b => ih b (h b)

theorem Erases.bind {rel : α → β → Prop} {rel' : γ → δ → Prop} {p : Program (I.beside J) α} {q : Program I β}
    {k : α → Program (I.beside J) γ} {k' : β → Program I δ} (h : p.Erases rel q)
    (hk : ∀ a b, rel a b → (k a).Erases rel' (k' b)) : (p >>= k).Erases rel' (q >>= k') := by
  induction p generalizing q with
  | done a =>
      obtain ⟨b, rfl, hab⟩ := h
      exact hk a b hab
  | await op next ih =>
      cases op with
      | left op =>
          obtain ⟨next', rfl, hn⟩ := h
          exact ⟨fun r => next' r >>= k', rfl, fun r => ih r (hn r)⟩
      | right op => exact fun r => ih r (h r)
      | turn => exact fun b => ih b (h b)

theorem bind_done (p : Program I α) : p >>= done = p := by
  induction p with
  | done a => rfl
  | await op next ih => exact congrArg (await op) (funext ih)

theorem Erases.map {rel : α → β → Prop} {rel' : γ → β → Prop} {p : Program (I.beside J) α} {q : Program I β}
    (h : p.Erases rel q) (f : α → γ) (hf : ∀ a b, rel a b → rel' (f a) b) : (f <$> p).Erases rel' q := by
  rw [← bind_done q]
  exact h.bind fun a b hab => ⟨b, rfl, hf a b hab⟩

theorem erases_left (p : Program I α) : (p.left J).Erases Eq p := by
  induction p with
  | done a => exact ⟨a, rfl, rfl⟩
  | await op next ih => exact ⟨next, rfl, ih⟩

theorem erases_right (q : Program J β) (a : α) (f : β → γ) (rel : γ → α → Prop) (h : ∀ b, rel (f b) a) :
    (f <$> q.right I).Erases rel (done a) := by
  induction q with
  | done b => exact ⟨a, rfl, h b⟩
  | await op next ih => exact ih

theorem erases_join (p : Program I α) (q : Program J β) : (p.join q).Erases (fun x a => x.1 = a) p := by
  induction p generalizing q with
  | done a => exact erases_right q a _ _ fun _ => rfl
  | await op next ih =>
      have hleft (q : Program J β) : (await (.left op) fun r => (next r).join q : Program (I.beside J) (α × β)).Erases
          (fun x a => x.1 = a) (await op next) := ⟨next, rfl, fun r => ih r q⟩
      simp only [join]
      induction q with
      | done b => exact hleft (done b)
      | await op' next' ihq =>
          intro b
          cases b with
          | true => exact hleft (await op' next')
          | false => exact ihq

section Only

variable {P : (I.beside J).Op → Prop}

theorem only_left (h : ∀ op, P (.left op)) (p : Program I α) : (p.left J).Only P := by
  induction p with
  | done a => trivial
  | await op next ih => exact ⟨h op, ih⟩

theorem Only.right {q : Program J β} (h : q.Only fun op => P (.right op)) : (q.right I).Only P := by
  induction q with
  | done b => trivial
  | await op next ih => exact ⟨h.1, fun r => ih r (h.2 r)⟩

theorem Only.join {q : Program J β} (hq : q.Only fun op => P (.right op)) (hl : ∀ op, P (.left op)) (ht : P .turn)
    (p : Program I α) : (p.join q).Only P := by
  induction p generalizing q with
  | done a => exact hq.right.map _
  | await op next ih =>
      simp only [Program.join]
      induction q with
      | done b => exact ⟨hl op, fun r => ih r hq⟩
      | await op' next' ihq =>
          refine ⟨ht, fun b => ?_⟩
          cases b with
          | true => exact ⟨hl op, fun r => ih r hq⟩
          | false => exact ⟨hq.1, fun r => ihq r (hq.2 r)⟩

end Only

def rights (t : List (Exchange (I.beside J))) : List (Exchange J) :=
  t.filterMap fun
    | ⟨.right op, r⟩ => some ⟨op, r⟩
    | _ => none

@[simp] theorem rights_append (t t' : List (Exchange (I.beside J))) : rights (t ++ t') = rights t ++ rights t' :=
  List.filterMap_append

@[simp] theorem rights_snoc_left (t : List (Exchange (I.beside J))) (op : I.Op) (r : I.Reply op) :
    rights (t ++ [⟨.left op, r⟩]) = rights t := by
  simp [rights]

@[simp] theorem rights_snoc_right (t : List (Exchange (I.beside J))) (op : J.Op) (r : J.Reply op) :
    rights (t ++ [⟨.right op, r⟩]) = rights t ++ [⟨op, r⟩] := by
  simp [rights]

@[simp] theorem rights_snoc_turn (t : List (Exchange (I.beside J))) (b : Bool) :
    rights (t ++ [⟨.turn, b⟩]) = rights t := by
  simp [rights]

def lefts (t : List (Exchange (I.beside J))) : List (Exchange I) :=
  t.filterMap fun
    | ⟨.left op, r⟩ => some ⟨op, r⟩
    | _ => none

@[simp] theorem lefts_append (t t' : List (Exchange (I.beside J))) : lefts (t ++ t') = lefts t ++ lefts t' :=
  List.filterMap_append

theorem Erases.answered {rel : α → β → Prop} {p : Program (I.beside J) α} {q : Program I β}
    {t : List (Exchange (I.beside J))} {a : α} (h : p.Erases rel q) (ht : p.Answered t a) :
    ∃ b, q.Answered (lefts t) b ∧ rel a b := by
  induction p generalizing q t with
  | done a' =>
      obtain ⟨rfl, rfl⟩ := ht
      obtain ⟨b, rfl, hab⟩ := h
      exact ⟨b, ⟨rfl, rfl⟩, hab⟩
  | await op next ih =>
      obtain ⟨r, t, rfl, ht⟩ := ht
      cases op with
      | left op =>
          obtain ⟨next', rfl, hn⟩ := h
          obtain ⟨b, hb, hab⟩ := ih r (hn r) ht
          exact ⟨b, ⟨r, lefts t, rfl, hb⟩, hab⟩
      | right op | turn =>
          obtain ⟨b, hb, hab⟩ := ih r (h r) ht
          exact ⟨b, hb, hab⟩

theorem rights_left {p : Program I α} {t : List (Exchange (I.beside J))} {a : α} (h : (p.left J).Answered t a) :
    rights t = [] := by
  induction p generalizing t with
  | done b =>
      obtain ⟨rfl, -⟩ := h
      rfl
  | await op next ih =>
      obtain ⟨r, t, rfl, h⟩ := h
      have hrest := ih r h
      exact hrest

theorem answered_left {p : Program I α} {t : List (Exchange (I.beside J))} {a : α} (h : (p.left J).Answered t a) :
    p.Answered (lefts t) a ∧ rights t = [] := by
  obtain ⟨b, hb, rfl⟩ := (erases_left p).answered h
  exact ⟨hb, rights_left h⟩

theorem answered_right {q : Program J β} {t : List (Exchange (I.beside J))} {b : β} (h : (q.right I).Answered t b) :
    lefts t = [] ∧ q.Answered (rights t) b := by
  induction q generalizing t with
  | done b' =>
      obtain ⟨rfl, rfl⟩ := h
      exact ⟨rfl, rfl, rfl⟩
  | await op next ih =>
      obtain ⟨r, t, rfl, h⟩ := h
      obtain ⟨hl, hr⟩ := ih r h
      exact ⟨hl, r, rights t, rfl, hr⟩

theorem answered_join {p : Program I α} {q : Program J β} {t : List (Exchange (I.beside J))} {x : α × β}
    (h : (p.join q).Answered t x) : p.Answered (lefts t) x.1 ∧ q.Answered (rights t) x.2 := by
  induction p generalizing q t with
  | done a =>
      obtain ⟨t₁, t₂, b, rfl, hq, rfl, rfl⟩ := answered_bind.mp h
      obtain ⟨hl, hr⟩ := answered_right hq
      rw [List.append_nil]
      exact ⟨⟨hl, rfl⟩, hr⟩
  | await op next ih =>
      have hleft {q : Program J β} {t : List (Exchange (I.beside J))}
          (h : (await (.left op) fun r => (next r).join q : Program (I.beside J) (α × β)).Answered t x) :
          (await op next).Answered (lefts t) x.1 ∧ q.Answered (rights t) x.2 := by
        obtain ⟨r, t, rfl, h⟩ := h
        obtain ⟨hp, hq⟩ := ih r h
        exact ⟨⟨r, lefts t, rfl, hp⟩, hq⟩
      simp only [join] at h
      induction q generalizing t with
      | done b => exact hleft h
      | await op' next' ihq =>
          obtain ⟨first, t, rfl, h⟩ := h
          cases first with
          | true =>
              have hrest := hleft h
              exact hrest
          | false =>
              obtain ⟨r, t, rfl, h⟩ := h
              obtain ⟨hp, hq⟩ := ihq r h
              exact ⟨hp, r, rights t, rfl, hq⟩

/-- The answers to its first calls of `J` settle which program of `Q` it is without them, or that
it ends without a call of `I`. -/
inductive Picks (rel : α → β → Prop) (idle : α → Prop) (Q : List (Exchange J) → Program I β → Prop) :
    List (Exchange J) → Program (I.beside J) α → Prop
  | now {t : List (Exchange J)} {p : Program (I.beside J) α} {q : Program I β} (hq : Q t q) (h : p.Erases rel q) :
      Picks rel idle Q t p
  | idle {t : List (Exchange J)} {a : α} (h : idle a) : Picks rel idle Q t (done a)
  | later {t : List (Exchange J)} {op : J.Op} {next : J.Reply op → Program (I.beside J) α}
      (h : ∀ r, Picks rel idle Q (t ++ [⟨op, r⟩]) (next r)) : Picks rel idle Q t (await (.right op) next)

end Program

structure BesideChoice (κ κ' : Type) where
  left : κ
  right : κ'
  first : Bool

variable {σ τ κ κ' ε ε' ι : Type}

/-- The calls of `I` see the first state only, those of `J` the second. -/
def Machine.beside (M : Machine I σ κ ε) (N : Machine J τ κ' ε') :
    Machine (I.beside J) (σ × τ) (BesideChoice κ κ') (ε ⊕ ε') where
  perform w op c := match op with
    | .left op => (M.perform w.1 op c.left).map fun (v, r) => ((v, w.2), r)
    | .right op => (N.perform w.2 op c.right).map fun (v, r) => ((w.1, v), r)
    | .turn => some (w, c.first)
  drift w
    | .inl e => (M.drift w.1 e).map fun v => (v, w.2)
    | .inr e => (N.drift w.2 e).map fun v => (w.1, v)

/-- Calls that leave nothing behind; the choice is their answer. -/
def Machine.answering (I : Interface) : Machine I Unit (∀ op, I.Reply op) Empty where
  perform _ op c := some ((), c op)
  drift _ e := nomatch e

def leftCall : ι × Call (I.beside J) (σ × τ) → Option (ι × Call I σ)
  | (i, ⟨w, .left op, r, heard⟩) => some (i, ⟨w.1, op, r, heard⟩)
  | _ => none

def leftCalls (calls : List (ι × Call (I.beside J) (σ × τ))) : List (ι × Call I σ) := calls.filterMap leftCall

theorem leftCalls_snoc (calls : List (ι × Call (I.beside J) (σ × τ))) (x : ι × Call (I.beside J) (σ × τ)) :
    leftCalls (calls ++ [x]) = leftCalls calls ++ (leftCall x).toList := by
  rw [leftCalls, List.filterMap_append, List.filterMap_cons, List.filterMap_nil]
  cases leftCall x <;> rfl

theorem trace_leftCalls [DecidableEq ι] (i : ι) (calls : List (ι × Call (I.beside J) (σ × τ))) :
    Pool.trace i (leftCalls calls) = Program.lefts (Pool.trace i calls) := by
  induction calls using List.reverseRecOn with
  | nil => rfl
  | append_singleton calls x ih =>
      obtain ⟨j, w, op, r, heard⟩ := x
      rw [leftCalls_snoc]
      by_cases hji : j = i
      · subst hji
        rw [Pool.trace_snoc_self, Program.lefts_append, ← ih]
        cases op with
        | left op => exact Pool.trace_snoc_self _ _ _
        | right op => exact (congrArg (Pool.trace j) (List.append_nil _)).trans (List.append_nil _).symm
        | turn => exact (congrArg (Pool.trace j) (List.append_nil _)).trans (List.append_nil _).symm
      · rw [Pool.trace_snoc_of_ne hji, ← ih]
        cases op with
        | left op => exact Pool.trace_snoc_of_ne hji _ _
        | right op => exact congrArg (Pool.trace i) (List.append_nil _)
        | turn => exact congrArg (Pool.trace i) (List.append_nil _)

/-- The action is one of task `i`. -/
def Action.By (i : ι) : Action ι κ ε → Prop
  | .step j _ | .abandon j _ => j = i
  | .drift _ => False

/-- What the tasks are without their calls of `J`. -/
structure Erasure (I J : Interface) (ι α β : Type) where
  rel : α → β → Prop
  idle : α → Prop
  picks : ι → List (Exchange J) → Program I β → Prop
  default : ι → Program I β

/-- By these calls of `J` it was settled what the task is. -/
def Erasure.Settled (e : Erasure I J ι α β) (i : ι) (t : List (Exchange J)) (q : Program I β) : Prop :=
  ∃ t', t' <+: t ∧ e.picks i t' q

theorem Erasure.Settled.mono {e : Erasure I J ι α β} {i : ι} {t t' : List (Exchange J)} {q : Program I β}
    (h : e.Settled i t q) (ht : t <+: t') : e.Settled i t' q := by
  obtain ⟨t₀, h₀, hq⟩ := h
  exact ⟨t₀, h₀.trans ht, hq⟩

namespace Pool

open Program

/-- It is still open what the task is without its calls of `J`. -/
structure Undecided (e : Erasure I J ι α β) (i : ι) (t : List (Exchange J)) (p : Program (I.beside J) α) : Prop where
  picks : p.Picks e.rel e.idle (e.picks i) t
  unsettled : ¬ ∃ q, e.picks i t q ∧ p.Erases e.rel q

theorem undecided_or {e : Erasure I J ι α β} {i : ι} {t : List (Exchange J)} {p : Program (I.beside J) α}
    (h : p.Picks e.rel e.idle (e.picks i) t) :
    (∃ q, e.picks i t q ∧ p.Erases e.rel q) ∨ Undecided e i t p := by
  by_cases hq : ∃ q, e.picks i t q ∧ p.Erases e.rel q
  · exact .inl hq
  · exact .inr ⟨h, hq⟩

theorem Undecided.cases {e : Erasure I J ι α β} {i : ι} {t : List (Exchange J)} {p : Program (I.beside J) α}
    (h : Undecided e i t p) : (∃ a, p = .done a ∧ e.idle a) ∨
      ∃ op next, p = .await (.right op) next ∧ ∀ r, (next r).Picks e.rel e.idle (e.picks i) (t ++ [⟨op, r⟩]) := by
  cases h.picks with
  | now hq he => exact absurd ⟨_, hq, he⟩ h.unsettled
  | idle ha => exact .inl ⟨_, rfl, ha⟩
  | later hn => exact .inr ⟨_, _, rfl, hn⟩

/-- The task follows that of the run of `M`, or it is still open what that is. -/
def Mirrors (e : Erasure I J ι α β) (bs : List (Action ι κ ε)) (i : ι) (q : Program I β) (x : Option (Program I β))
    (t : List (Exchange J)) (p : Program (I.beside J) α) : Prop :=
  (e.Settled i t q ∧ ∃ q', x = some q' ∧ p.Erases e.rel q') ∨ (∀ act ∈ bs, ¬ act.By i) ∧ Undecided e i t p

section Mirrors

variable {e : Erasure I J ι α β} {bs : List (Action ι κ ε)} {i : ι} {q : Program I β} {x : Option (Program I β)}
  {t : List (Exchange J)}

theorem not_by_snoc {act : Action ι κ ε} (h : ∀ act ∈ bs, ¬ act.By i) (hact : ¬ act.By i) :
    ∀ act' ∈ bs ++ [act], ¬ act'.By i := by
  intro act' hmem
  rcases List.mem_append.mp hmem with hmem | hmem
  · exact h act' hmem
  · obtain rfl := List.mem_singleton.mp hmem
    exact hact

theorem Mirrors.snoc {p : Program (I.beside J) α} {act : Action ι κ ε} (h : Mirrors e bs i q x t p)
    (hact : ¬ act.By i) : Mirrors e (bs ++ [act]) i q x t p :=
  h.imp_right fun ⟨hby, hu⟩ => ⟨not_by_snoc hby hact, hu⟩

theorem Mirrors.left {op : I.Op} {next : I.Reply op → Program (I.beside J) α}
    (h : Mirrors e bs i q x t (.await (.left op) next)) : e.Settled i t q ∧
      ∃ next', x = some (.await op next') ∧ ∀ r, (next r).Erases e.rel (next' r) := by
  rcases h with ⟨hq, q', hq', next', rfl, hn⟩ | ⟨-, hu⟩
  · exact ⟨hq, next', hq', hn⟩
  · rcases hu.cases with ⟨_, heq, -⟩ | ⟨_, _, heq, -⟩ <;> cases heq

theorem Mirrors.right {op : J.Op} {next : J.Reply op → Program (I.beside J) α}
    (h : Mirrors e bs i q x t (.await (.right op) next)) (r : J.Reply op) :
    Mirrors e bs i q x (t ++ [⟨op, r⟩]) (next r) ∨
      (∀ act ∈ bs, ¬ act.By i) ∧ (next r).Picks e.rel e.idle (e.picks i) (t ++ [⟨op, r⟩]) := by
  rcases h with ⟨hq, q', hq', he⟩ | ⟨hby, hu⟩
  · exact .inl (.inl ⟨hq.mono (List.prefix_append _ _), q', hq', he r⟩)
  · rcases hu.cases with ⟨_, heq, -⟩ | ⟨_, _, heq, hn⟩
    · cases heq
    · cases heq
      exact .inr ⟨hby, hn r⟩

theorem Mirrors.turn {next : Bool → Program (I.beside J) α} (h : Mirrors e bs i q x t (.await .turn next)) (first : Bool) :
    Mirrors e bs i q x t (next first) := by
  rcases h with ⟨hq, q', hq', he⟩ | ⟨-, hu⟩
  · exact .inl ⟨hq, q', hq', he first⟩
  · rcases hu.cases with ⟨_, heq, -⟩ | ⟨_, _, heq, -⟩ <;> cases heq

end Mirrors

variable [DecidableEq ι] {M : Machine I σ κ ε} {N : Machine J τ κ' ε'}

theorem by_of_call {s b : Pool I σ ι β} {bs : List (Action ι κ ε)} {i : ι} {c : Call I σ} (hr : s.run M bs = some b)
    (hc : (i, c) ∈ b.calls) : (i, c) ∈ s.calls ∨ ∃ act ∈ bs, act.By i := by
  induction bs generalizing s with
  | nil =>
      cases hr
      exact .inl hc
  | cons act bs ih =>
      obtain ⟨t, ht, hr⟩ := run_cons.mp hr
      have hby {j : ι} {c' : Call I σ} (hj : act.By j) (h : (i, c) ∈ s.calls ++ [(j, c')]) :
          (i, c) ∈ s.calls ∨ ∃ act' ∈ act :: bs, act'.By i := by
        refine (List.mem_append.mp h).imp_right fun h => ⟨act, List.mem_cons_self, ?_⟩
        cases List.mem_singleton.mp h
        exact hj
      rcases ih hr with h | ⟨act', hmem, hact⟩
      · cases next_iff.mp ht with
        | answer | lose => exact hby rfl h
        | drop | drift => exact .inl h
      · exact .inr ⟨act', List.mem_cons_of_mem _ hmem, hact⟩

theorem run_update {s b : Pool I σ ι β} {i : ι} {bs : List (Action ι κ ε)} (hr : s.run M bs = some b)
    (hn : ∀ act ∈ bs, ¬ act.By i) (x : Option (Program I β)) :
    Pool.run M { s with task := Function.update s.task i x } bs = some { b with task := Function.update b.task i x } := by
  induction bs generalizing s with
  | nil => cases hr; rfl
  | cons act bs ih =>
      obtain ⟨t, ht, hr⟩ := run_cons.mp hr
      have hact : ¬ act.By i := hn act List.mem_cons_self
      refine run_cons.mpr ⟨_, next_iff.mpr ?_, ih hr fun act' h => hn act' (List.mem_cons_of_mem act h)⟩
      cases next_iff.mp ht with
      | @answer j op next c w r htask hp =>
          have hji : j ≠ i := hact
          rw [Function.update_comm hji]
          exact .answer (by simpa [hji] using htask) hp
      | @drop j op next htask =>
          have hji : j ≠ i := hact
          rw [Function.update_comm hji]
          exact .drop (by simpa [hji] using htask)
      | @lose j op next c w r htask hp =>
          have hji : j ≠ i := hact
          rw [Function.update_comm hji]
          exact .lose (by simpa [hji] using htask) hp
      | drift hd => exact .drift hd

theorem update_eq_some {γ : Type} {f : ι → Option γ} {x : Option γ} {j : ι} {y : γ} (h : Function.update f i x j = some y) :
    (j = i ∧ x = some y) ∨ (j ≠ i ∧ f j = some y) := by
  by_cases hji : j = i
  · subst hji
    rw [Function.update_self] at h
    exact .inl ⟨rfl, h⟩
  · rw [Function.update_of_ne hji] at h
    exact .inr ⟨hji, h⟩

/-- The calls of `J` that task `i` has made. -/
def outside (i : ι) (s : Pool (I.beside J) (σ × τ) ι α) : List (Exchange J) := rights (trace i s.calls)

/-- The run of `M` does the calls of `I`. -/
structure Tracks (M : Machine I σ κ ε) (e : Erasure I J ι α β) (w : σ) (q : ι → Program I β)
    (bs : List (Action ι κ ε)) (b : Pool I σ ι β) (s : Pool (I.beside J) (σ × τ) ι α) : Prop where
  run : (start w q).run M bs = some b
  world : b.world = s.world.1
  calls : b.calls = leftCalls s.calls
  chosen : ∀ i, e.Settled i (outside i s) (q i) ∨ (∀ act ∈ bs, ¬ act.By i) ∧ q i = e.default i
  task : ∀ i p, s.task i = some p → Mirrors e bs i (q i) (b.task i) (outside i s) p

section Tracks

variable {e : Erasure I J ι α β} {w : σ} {q : ι → Program I β} {bs : List (Action ι κ ε)}
  {b b' : Pool I σ ι β} {s s' : Pool (I.beside J) (σ × τ) ι α} {i : ι}

theorem Tracks.silent (h : Tracks M e w q bs b s) (hworld : s'.world.1 = s.world.1)
    (hcalls : leftCalls s'.calls = leftCalls s.calls) (hout : ∀ j, outside j s <+: outside j s')
    (htask : ∀ j p, s'.task j = some p →
      (outside j s' = outside j s ∧ s.task j = some p) ∨ Mirrors e bs j (q j) (b.task j) (outside j s') p) :
    Tracks M e w q bs b s' where
  run := h.run
  world := h.world.trans hworld.symm
  calls := h.calls.trans hcalls.symm
  chosen j := (h.chosen j).imp_left fun hj => hj.mono (hout j)
  task j p hj := by
    rcases htask j p hj with ⟨hsame, hj⟩ | hm
    · rw [hsame]
      exact h.task j p hj
    · exact hm

theorem Tracks.acts {act : Action ι κ ε} (h : Tracks M e w q bs b s) (hs : Step M b act b') (hby : ∀ j, act.By j → j = i)
    (hsettled : e.Settled i (outside i s) (q i)) (hworld : b'.world = s'.world.1)
    (hcalls : b'.calls = leftCalls s'.calls) (hout : ∀ j, outside j s' = outside j s)
    (hother : ∀ j, j ≠ i → b'.task j = b.task j)
    (htask : ∀ j p, s'.task j = some p → (j ≠ i ∧ s.task j = some p) ∨
      j = i ∧ ∃ q', b'.task j = some q' ∧ p.Erases e.rel q') :
    Tracks M e w q (bs ++ [act]) b' s' where
  run := run_snoc h.run hs
  world := hworld
  calls := hcalls
  chosen j := by
    rw [hout j]
    by_cases hji : j = i
    · exact .inl (hji ▸ hsettled)
    · exact (h.chosen j).imp_right fun ⟨hn, hq⟩ => ⟨not_by_snoc hn fun hj => hji (hby j hj), hq⟩
  task j p hj := by
    rw [hout j]
    rcases htask j p hj with ⟨hji, hj⟩ | ⟨rfl, hq⟩
    · rw [hother j hji]
      exact (h.task j p hj).snoc fun hj => hji (hby j hj)
    · exact .inl ⟨hsettled, hq⟩

theorem Tracks.settle (h : Tracks M e w q bs b s) {q' : Program I β} (hn : ∀ act ∈ bs, ¬ act.By i)
    (hworld : s'.world.1 = s.world.1) (hcalls : leftCalls s'.calls = leftCalls s.calls)
    (hout : ∀ j, outside j s <+: outside j s') {p : Program (I.beside J) α} (hq' : e.picks i (outside i s') q')
    (hp : p.Erases e.rel q') (htask : ∀ j p', s'.task j = some p' →
      (j = i ∧ p' = p) ∨ j ≠ i ∧ outside j s' = outside j s ∧ s.task j = some p') :
    Tracks M e w (Function.update q i q') bs { b with task := Function.update b.task i (some q') } s' where
  run := by
    have hstart : Pool.start w (Function.update q i q') =
        { Pool.start w q with task := Function.update (Pool.start w q).task i (some q') } := by
      simp only [Pool.start]
      congr 1
      funext j
      by_cases hji : j = i
      · subst hji
        rw [Function.update_self, Function.update_self]
      · rw [Function.update_of_ne hji, Function.update_of_ne hji]
    rw [hstart]
    exact run_update h.run hn (some q')
  world := h.world.trans hworld.symm
  calls := h.calls.trans hcalls.symm
  chosen j := by
    by_cases hji : j = i
    · subst hji
      rw [Function.update_self]
      exact .inl ⟨_, List.prefix_rfl, hq'⟩
    · rw [Function.update_of_ne hji]
      exact (h.chosen j).imp_left fun hj => hj.mono (hout j)
  task j p' hj := by
    rcases htask j p' hj with ⟨rfl, rfl⟩ | ⟨hji, hsame, hj⟩
    · dsimp only
      rw [Function.update_self, Function.update_self]
      exact .inl ⟨⟨_, List.prefix_rfl, hq'⟩, q', rfl, hp⟩
    · dsimp only
      rw [Function.update_of_ne hji, Function.update_of_ne hji, hsame]
      exact h.task j p' hj

theorem Tracks.resume (h : Tracks M e w q bs b s) {p : Program (I.beside J) α} (hworld : s'.world.1 = s.world.1)
    (hcalls : leftCalls s'.calls = leftCalls s.calls) (hout : ∀ j, j ≠ i → outside j s' = outside j s)
    (hown : outside i s <+: outside i s') (htask : s'.task = Function.update s.task i (some p))
    (hp : Mirrors e bs i (q i) (b.task i) (outside i s') p ∨
      (∀ act ∈ bs, ¬ act.By i) ∧ p.Picks e.rel e.idle (e.picks i) (outside i s')) :
    ∃ q bs b, Tracks M e w q bs b s' := by
  have hall (j : ι) : outside j s <+: outside j s' := by
    by_cases hji : j = i
    · exact hji ▸ hown
    · exact (hout j hji) ▸ List.prefix_rfl
  have hmirrors (hp : Mirrors e bs i (q i) (b.task i) (outside i s') p) : ∃ q bs b, Tracks M e w q bs b s' := by
    refine ⟨q, bs, b, h.silent hworld hcalls hall fun j p' hj => ?_⟩
    rw [htask] at hj
    rcases update_eq_some hj with ⟨rfl, hx⟩ | ⟨hji, hj⟩
    · cases hx
      exact .inr hp
    · exact .inl ⟨hout j hji, hj⟩
  rcases hp with hp | ⟨hn, hp⟩
  · exact hmirrors hp
  · rcases undecided_or hp with ⟨q', hq', he⟩ | hu
    · refine ⟨_, bs, _, h.settle hn hworld hcalls hall hq' he fun j p' hj => ?_⟩
      rw [htask] at hj
      rcases update_eq_some hj with ⟨rfl, hx⟩ | ⟨hji, hj⟩
      · exact .inl ⟨rfl, (Option.some.inj hx).symm⟩
      · exact .inr ⟨hji, hout j hji, hj⟩
    · exact hmirrors (.inr ⟨hn, hu⟩)

theorem Tracks.forget (h : Tracks M e w q bs b s) (hworld : s'.world.1 = s.world.1)
    (hcalls : leftCalls s'.calls = leftCalls s.calls) (hout : ∀ j, j ≠ i → outside j s' = outside j s)
    (hown : outside i s <+: outside i s') (htask : s'.task = Function.update s.task i none) : Tracks M e w q bs b s' := by
  refine h.silent hworld hcalls (fun j => ?_) fun j p hj => ?_
  · by_cases hji : j = i
    · exact hji ▸ hown
    · exact (hout j hji) ▸ List.prefix_rfl
  · rw [htask] at hj
    rcases update_eq_some hj with ⟨-, hx⟩ | ⟨hji, hj⟩
    · cases hx
    · exact .inl ⟨hout j hji, hj⟩

section Outside

variable {u v : σ × τ} {f : ι → Option (Program (I.beside J) α)} {c : Call (I.beside J) (σ × τ)}

theorem outside_of_ne {j : ι} (hji : j ≠ i) : outside j ⟨v, f, s.calls ++ [(i, c)]⟩ = outside j s := by
  rw [outside, trace_snoc_of_ne (Ne.symm hji)]
  rfl

theorem outside_same (hc : ∀ t, rights (t ++ [⟨c.op, c.reply⟩]) = rights t) :
    outside i ⟨v, f, s.calls ++ [(i, c)]⟩ = outside i s := by
  rw [outside, trace_snoc_self]
  exact hc _

theorem outside_right {op : J.Op} {r : J.Reply op} {heard : Bool} :
    outside i ⟨v, f, s.calls ++ [(i, ⟨u, .right op, r, heard⟩)]⟩ = outside i s ++ [⟨op, r⟩] := by
  rw [outside, trace_snoc_self]
  exact rights_snoc_right _ _ _

end Outside

omit [DecidableEq ι] in
theorem leftCalls_other {x : ι × Call (I.beside J) (σ × τ)} (hx : leftCall x = none) :
    leftCalls (s.calls ++ [x]) = leftCalls s.calls := by
  rw [leftCalls_snoc, hx]
  exact List.append_nil _

theorem Tracks.step {act : Action ι (BesideChoice κ κ') (ε ⊕ ε')} (h : Tracks M e w q bs b s)
    (hs : Step (M.beside N) s act s') : ∃ q bs b, Tracks M e w q bs b s' := by
  cases hs with
  | @answer i op next c v r ht hp =>
      cases op with
      | left op =>
          obtain ⟨⟨u, r⟩, hp, heq⟩ := Option.map_eq_some_iff.mp hp
          cases heq
          obtain ⟨hsettled, next', hq', hn⟩ := (h.task i _ ht).left
          rw [← h.world] at hp
          refine ⟨q, _, _, h.acts (i := i) (.answer hq' hp) (fun j hj => hj.symm) hsettled rfl ?_ (fun j => ?_)
            (fun j hji => Function.update_of_ne hji _ _) fun j p hj => ?_⟩
          · rw [leftCalls_snoc, ← h.calls, h.world]
            rfl
          · by_cases hji : j = i
            · subst hji
              exact outside_same fun t => rights_snoc_left _ _ _
            · exact outside_of_ne hji
          · rcases update_eq_some hj with ⟨rfl, hx⟩ | hj
            · cases hx
              exact .inr ⟨rfl, next' r, Function.update_self _ _ _, hn r⟩
            · exact .inl hj
      | right op =>
          obtain ⟨⟨u, r⟩, hp, heq⟩ := Option.map_eq_some_iff.mp hp
          cases heq
          have hmirrors := (h.task i _ ht).right r
          have hmore : outside i ⟨(s.world.1, u), Function.update s.task i (some (next r)),
              s.calls ++ [(i, ⟨s.world, .right op, r, true⟩)]⟩ = outside i s ++ [⟨op, r⟩] := outside_right
          rw [← hmore] at hmirrors
          exact h.resume rfl (leftCalls_other rfl) (fun _ => outside_of_ne) (hmore ▸ List.prefix_append _ _) rfl hmirrors
      | turn =>
          cases hp
          have hrest : outside i ⟨s.world, Function.update s.task i (some (next c.first)),
              s.calls ++ [(i, ⟨s.world, .turn, c.first, true⟩)]⟩ = outside i s := outside_same fun t => rights_snoc_turn _ _
          have hmirrors := (h.task i _ ht).turn c.first
          rw [← hrest] at hmirrors
          exact h.resume rfl (leftCalls_other rfl) (fun _ => outside_of_ne) (hrest ▸ List.prefix_rfl) rfl (.inl hmirrors)
  | @drop i op next ht => exact ⟨q, bs, b, h.forget rfl rfl (fun _ _ => rfl) List.prefix_rfl rfl⟩
  | @lose i op next c v r ht hp =>
      cases op with
      | left op =>
          obtain ⟨⟨u, r⟩, hp, heq⟩ := Option.map_eq_some_iff.mp hp
          cases heq
          obtain ⟨hsettled, next', hq', -⟩ := (h.task i _ ht).left
          rw [← h.world] at hp
          refine ⟨q, _, _, h.acts (i := i) (.lose hq' hp) (fun j hj => hj.symm) hsettled rfl ?_ (fun j => ?_)
            (fun j hji => Function.update_of_ne hji _ _) fun j p hj => ?_⟩
          · rw [leftCalls_snoc, ← h.calls, h.world]
            rfl
          · by_cases hji : j = i
            · subst hji
              exact outside_same fun t => rights_snoc_left _ _ _
            · exact outside_of_ne hji
          · rcases update_eq_some hj with ⟨-, hx⟩ | hj
            · cases hx
            · exact .inl hj
      | right op =>
          obtain ⟨⟨u, r⟩, hp, heq⟩ := Option.map_eq_some_iff.mp hp
          cases heq
          have hmore : outside i ⟨(s.world.1, u), Function.update s.task i none,
              s.calls ++ [(i, ⟨s.world, .right op, r, false⟩)]⟩ = outside i s ++ [⟨op, r⟩] := outside_right
          exact ⟨q, bs, b, h.forget rfl (leftCalls_other rfl) (fun _ => outside_of_ne) (hmore ▸ List.prefix_append _ _) rfl⟩
      | turn =>
          cases hp
          have hrest : outside i ⟨s.world, Function.update s.task i none,
              s.calls ++ [(i, ⟨s.world, .turn, c.first, false⟩)]⟩ = outside i s := outside_same fun t => rights_snoc_turn _ _
          exact ⟨q, bs, b, h.forget rfl (leftCalls_other rfl) (fun _ => outside_of_ne) (hrest ▸ List.prefix_rfl) rfl⟩
  | @drift e v hd =>
      cases e with
      | inl e =>
          obtain ⟨u, hu, rfl⟩ := Option.map_eq_some_iff.mp hd
          rw [← h.world] at hu
          exact ⟨q, bs ++ [.drift e], ⟨u, b.task, b.calls⟩, run_snoc h.run (.drift hu), rfl, h.calls,
            fun i => (h.chosen i).imp_right fun ⟨hn, hq⟩ => ⟨not_by_snoc hn id, hq⟩,
            fun j p hj => (h.task j p hj).snoc id⟩
      | inr e =>
          obtain ⟨u, -, rfl⟩ := Option.map_eq_some_iff.mp hd
          exact ⟨q, bs, b, h.silent rfl rfl (fun _ => List.prefix_rfl) fun j p hj => .inl ⟨rfl, hj⟩⟩

end Tracks

theorem Tracks.start {e : Erasure I J ι α β} {w : σ} {p : ι → Program (I.beside J) α} {v : τ}
    (hp : ∀ i, (p i).Picks e.rel e.idle (e.picks i) []) :
    ∃ q, Tracks M e w q [] (Pool.start w q) (Pool.start (w, v) p) := by
  have hq (i : ι) : ∃ q, (e.picks i [] q ∧ (p i).Erases e.rel q) ∨ (Undecided e i [] (p i) ∧ q = e.default i) := by
    rcases undecided_or (hp i) with ⟨q, hq, he⟩ | hu
    · exact ⟨q, .inl ⟨hq, he⟩⟩
    · exact ⟨_, .inr ⟨hu, rfl⟩⟩
  choose q hq using hq
  refine ⟨q, rfl, rfl, rfl, fun i => ?_, fun i p' hp' => ?_⟩
  · rcases hq i with ⟨hi, -⟩ | ⟨-, hi⟩
    · exact .inl ⟨[], List.prefix_rfl, hi⟩
    · exact .inr ⟨fun act h => absurd h List.not_mem_nil, hi⟩
  · cases hp'
    rcases hq i with ⟨hi, he⟩ | ⟨hu, -⟩
    · exact .inl ⟨⟨[], List.prefix_rfl, hi⟩, q i, rfl, he⟩
    · exact .inr ⟨fun act h => absurd h List.not_mem_nil, hu⟩

theorem exists_tracks {e : Erasure I J ι α β} {p : ι → Program (I.beside J) α} {w : σ} {v : τ}
    {acts : List (Action ι (BesideChoice κ κ') (ε ⊕ ε'))} {s : Pool (I.beside J) (σ × τ) ι α}
    (hp : ∀ i, (p i).Picks e.rel e.idle (e.picks i) []) (hr : (start (w, v) p).run (M.beside N) acts = some s) :
    ∃ q bs b, Tracks M e w q bs b s := by
  refine run_invariant (J := fun s => ∃ q bs b, Tracks M e w q bs b s) ?_ ?_ hr
  · rintro s act s' ⟨q, bs, b, h⟩ hs
    exact h.step hs
  · obtain ⟨q, h⟩ := Tracks.start (M := M) hp
    exact ⟨q, [], _, h⟩

end Pool

end Catapulte.Async
