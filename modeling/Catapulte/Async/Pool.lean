import Mathlib.Logic.Function.Basic
import Catapulte.Async.Program

namespace Catapulte.Async

/-- What the calls of an interface do to the shared state. The choice settles
everything the caller cannot know: success or failure, fresh names, the data
the outside answers with. `drift` is what happens to the state by itself. -/
structure Machine (I : Interface) (σ κ ε : Type) where
  perform : σ → (op : I.Op) → κ → Option (σ × I.Reply op)
  drift : σ → ε → Option σ

/-- A performed call. A caller that was abandoned while waiting has not `heard`
the reply. -/
structure Call (I : Interface) (σ : Type) where
  before : σ
  op : I.Op
  reply : I.Reply op
  heard : Bool

inductive Action (ι κ ε : Type)
  | step (i : ι) (c : κ)
  | abandon (i : ι) (landed : Option κ)
  | drift (e : ε)

/-- Programs interleaved at their awaits over one shared state. A task that was
abandoned is `none`; the calls are kept in the order in which they were performed. -/
structure Pool (I : Interface) (σ ι α : Type) where
  world : σ
  task : ι → Option (Program I α)
  calls : List (ι × Call I σ)

namespace Pool

variable {I : Interface} {σ κ ε ι α : Type} [DecidableEq ι]

open Program

def start (w : σ) (p : ι → Program I α) : Pool I σ ι α := ⟨w, fun i => some (p i), []⟩

def next (M : Machine I σ κ ε) (s : Pool I σ ι α) : Action ι κ ε → Option (Pool I σ ι α)
  | .step i c =>
      match s.task i with
      | some (.await op next) =>
          (M.perform s.world op c).map fun (w, r) =>
            ⟨w, Function.update s.task i (some (next r)), s.calls ++ [(i, ⟨s.world, op, r, true⟩)]⟩
      | _ => none
  | .abandon i none =>
      match s.task i with
      | some (.await _ _) => some ⟨s.world, Function.update s.task i none, s.calls⟩
      | _ => none
  | .abandon i (some c) =>
      match s.task i with
      | some (.await op _) =>
          (M.perform s.world op c).map fun (w, r) =>
            ⟨w, Function.update s.task i none, s.calls ++ [(i, ⟨s.world, op, r, false⟩)]⟩
      | _ => none
  | .drift e => (M.drift s.world e).map fun w => ⟨w, s.task, s.calls⟩

inductive Step (M : Machine I σ κ ε) (s : Pool I σ ι α) : Action ι κ ε → Pool I σ ι α → Prop
  | answer {i op next c w r} (ht : s.task i = some (.await op next))
      (hp : M.perform s.world op c = some (w, r)) :
      Step M s (.step i c)
        ⟨w, Function.update s.task i (some (next r)), s.calls ++ [(i, ⟨s.world, op, r, true⟩)]⟩
  | drop {i op next} (ht : s.task i = some (.await op next)) :
      Step M s (.abandon i none) ⟨s.world, Function.update s.task i none, s.calls⟩
  | lose {i op next c w r} (ht : s.task i = some (.await op next))
      (hp : M.perform s.world op c = some (w, r)) :
      Step M s (.abandon i (some c))
        ⟨w, Function.update s.task i none, s.calls ++ [(i, ⟨s.world, op, r, false⟩)]⟩
  | drift {e w} (hd : M.drift s.world e = some w) : Step M s (.drift e) ⟨w, s.task, s.calls⟩

theorem next_iff {M : Machine I σ κ ε} {s s' : Pool I σ ι α} {a : Action ι κ ε} :
    s.next M a = some s' ↔ Step M s a s' := by
  constructor
  · intro h
    cases a with
    | step i c =>
        cases ht : s.task i with
        | none => simp [next, ht] at h
        | some p =>
            cases p with
            | done a => simp [next, ht] at h
            | await op nxt =>
                simp only [next, ht, Option.map_eq_some_iff] at h
                obtain ⟨⟨w, r⟩, hp, rfl⟩ := h
                exact .answer ht hp
    | abandon i landed =>
        cases ht : s.task i with
        | none => cases landed <;> simp [next, ht] at h
        | some p =>
            cases p with
            | done a => cases landed <;> simp [next, ht] at h
            | await op nxt =>
                cases landed with
                | none =>
                    simp only [next, ht, Option.some.injEq] at h
                    subst h
                    exact .drop ht
                | some c =>
                    simp only [next, ht, Option.map_eq_some_iff] at h
                    obtain ⟨⟨w, r⟩, hp, rfl⟩ := h
                    exact .lose ht hp
    | drift e =>
        simp only [next, Option.map_eq_some_iff] at h
        obtain ⟨w, hd, rfl⟩ := h
        exact .drift hd
  · intro h
    cases h with
    | answer ht hp => simp [next, ht, hp]
    | drop ht => simp [next, ht]
    | lose ht hp => simp [next, ht, hp]
    | drift hd => simp [next, hd]

def run (M : Machine I σ κ ε) (s : Pool I σ ι α) : List (Action ι κ ε) → Option (Pool I σ ι α)
  | [] => some s
  | a :: as => (s.next M a).bind fun s' => s'.run M as

/-- Every action of the run is taken in a state in which `C` allows it. -/
def Meets (M : Machine I σ κ ε) (C : Pool I σ ι α → Action ι κ ε → Prop) (s : Pool I σ ι α) :
    List (Action ι κ ε) → Prop
  | [] => True
  | a :: as => C s a ∧ ∀ s', s.next M a = some s' → s'.Meets M C as

/-- For a condition that can be checked, a run can be checked to meet it. -/
instance decidableMeets (M : Machine I σ κ ε) (C : Pool I σ ι α → Action ι κ ε → Prop)
    [∀ s a, Decidable (C s a)] : ∀ (s : Pool I σ ι α) (as : List (Action ι κ ε)), Decidable (s.Meets M C as)
  | _, [] => isTrue trivial
  | s, a :: as =>
      match hn : s.next M a with
      | none => decidable_of_iff (C s a) ⟨fun h => ⟨h, fun _ ht => by rw [hn] at ht; cases ht⟩, And.left⟩
      | some t =>
          have := decidableMeets M C t as
          decidable_of_iff (C s a ∧ t.Meets M C as)
            ⟨fun h => ⟨h.1, fun _ ht => by rw [hn] at ht; cases ht; exact h.2⟩, fun h => ⟨h.1, h.2 t hn⟩⟩

@[simp] theorem run_nil (M : Machine I σ κ ε) (s : Pool I σ ι α) : s.run M [] = some s := rfl

theorem run_cons {M : Machine I σ κ ε} {s s' : Pool I σ ι α} {a : Action ι κ ε}
    {as : List (Action ι κ ε)} :
    s.run M (a :: as) = some s' ↔ ∃ t, s.next M a = some t ∧ t.run M as = some s' := by
  simp [run, Option.bind_eq_some_iff]

theorem run_append {M : Machine I σ κ ε} {s s' : Pool I σ ι α} {as bs : List (Action ι κ ε)} :
    s.run M (as ++ bs) = some s' ↔ ∃ t, s.run M as = some t ∧ t.run M bs = some s' := by
  induction as generalizing s with
  | nil => simp
  | cons a as ih => simp only [List.cons_append, run_cons, ih]; grind

theorem Meets.mono {M : Machine I σ κ ε} {C D : Pool I σ ι α → Action ι κ ε → Prop}
    {s : Pool I σ ι α} {as : List (Action ι κ ε)} (h : s.Meets M C as)
    (hCD : ∀ t a, C t a → D t a) : s.Meets M D as := by
  induction as generalizing s with
  | nil => trivial
  | cons a as ih => exact ⟨hCD s a h.1, fun t ht => ih (h.2 t ht)⟩

theorem meets_true (M : Machine I σ κ ε) (s : Pool I σ ι α) (as : List (Action ι κ ε)) :
    s.Meets M (fun _ _ => True) as := by
  induction as generalizing s with
  | nil => trivial
  | cons a as ih => exact ⟨trivial, fun t _ => ih t⟩

theorem run_preserves {M : Machine I σ κ ε} {C : Pool I σ ι α → Action ι κ ε → Prop}
    {J : Pool I σ ι α → Prop}
    (hstep : ∀ {s a s'}, J s → C s a → Step M s a s' → J s')
    {s s' : Pool I σ ι α} {as : List (Action ι κ ε)} (h : J s) (hC : s.Meets M C as)
    (hr : s.run M as = some s') : J s' := by
  induction as generalizing s with
  | nil => cases hr; exact h
  | cons a as ih =>
      obtain ⟨t, ht, hr⟩ := run_cons.mp hr
      exact ih (hstep h hC.1 (next_iff.mp ht)) (hC.2 t ht) hr

theorem run_invariant {M : Machine I σ κ ε} {J : Pool I σ ι α → Prop}
    (hstep : ∀ {s a s'}, J s → Step M s a s' → J s')
    {s s' : Pool I σ ι α} {as : List (Action ι κ ε)} (h : J s)
    (hr : s.run M as = some s') : J s' :=
  run_preserves (C := fun _ _ => True) (fun hi _ hs => hstep hi hs) h (meets_true M s as) hr

end Pool

end Catapulte.Async
