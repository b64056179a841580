import Catapulte.Async.Program

namespace Catapulte.Async

abbrev Exchange (I : Interface) := (op : I.Op) × I.Reply op

namespace Program

variable {I : Interface} {α β : Type}

/-- With these answers to its calls, in this order, the program ends with the given result. -/
def Answered : Program I α → List (Exchange I) → α → Prop
  | done a, t, b => t = [] ∧ b = a
  | await op next, t, b => ∃ r t', t = ⟨op, r⟩ :: t' ∧ (next r).Answered t' b

@[simp] theorem answered_done {a b : α} {t : List (Exchange I)} :
    (done a : Program I α).Answered t b ↔ t = [] ∧ b = a := Iff.rfl

@[simp] theorem answered_await {op : I.Op} {next : I.Reply op → Program I α} {t : List (Exchange I)} {b : α} :
    (await op next).Answered t b ↔ ∃ r t', t = ⟨op, r⟩ :: t' ∧ (next r).Answered t' b := Iff.rfl

theorem answered_bind {p : Program I α} {k : α → Program I β} {t : List (Exchange I)} {b : β} :
    (p >>= k).Answered t b ↔ ∃ t₁ t₂ a, t = t₁ ++ t₂ ∧ p.Answered t₁ a ∧ (k a).Answered t₂ b := by
  induction p generalizing t with
  | done a =>
      constructor
      · intro h
        exact ⟨[], t, a, rfl, ⟨rfl, rfl⟩, h⟩
      · rintro ⟨_, t₂, a, rfl, ⟨rfl, rfl⟩, h⟩
        exact h
  | await op next ih =>
      constructor
      · rintro ⟨r, t', rfl, h⟩
        obtain ⟨t₁, t₂, a, rfl, hp, hk⟩ := (ih r).mp h
        exact ⟨⟨op, r⟩ :: t₁, t₂, a, rfl, ⟨r, t₁, rfl, hp⟩, hk⟩
      · rintro ⟨_, t₂, a, rfl, ⟨r, t₁, rfl, hp⟩, hk⟩
        exact ⟨r, t₁ ++ t₂, rfl, (ih r).mpr ⟨t₁, t₂, a, rfl, hp, hk⟩⟩

variable {p q : Program I α} {calls : List (Exchange I)}

theorem runs_done {a : α} (h : Runs (done a) calls q) : calls = [] ∧ q = done a := by
  induction h with
  | refl => exact ⟨rfl, rfl⟩
  | call h r ih =>
      obtain ⟨-, hq⟩ := ih
      cases hq

theorem runs_await {op : I.Op} {next : I.Reply op → Program I α} (h : Runs (await op next) calls q) :
    (calls = [] ∧ q = await op next) ∨ ∃ r rest, calls = ⟨op, r⟩ :: rest ∧ Runs (next r) rest q := by
  induction h with
  | refl => exact .inl ⟨rfl, rfl⟩
  | call h r ih =>
      rcases ih with ⟨rfl, hq⟩ | ⟨r', rest, rfl, hrest⟩
      · cases hq
        exact .inr ⟨r, [], rfl, .refl⟩
      · exact .inr ⟨r', _, List.cons_append, hrest.call r⟩

theorem Runs.cons {op : I.Op} {next : I.Reply op → Program I α} {r : I.Reply op} (h : Runs (next r) calls q) :
    Runs (await op next) (⟨op, r⟩ :: calls) q := by
  induction h with
  | refl =>
      have hstart : Runs (await op next) [] (await op next) := .refl
      exact hstart.call r
  | call h r' ih => exact ih.call r'

theorem runs_bind {k : α → Program I β} {q : Program I β} (h : Runs (p >>= k) calls q) :
    (∃ op next, Runs p calls (await op next) ∧ q = await op fun r => next r >>= k) ∨
    ∃ calls₁ calls₂ a, calls = calls₁ ++ calls₂ ∧ p.Answered calls₁ a ∧ Runs (k a) calls₂ q := by
  induction p generalizing calls with
  | done a => exact .inr ⟨[], calls, a, rfl, ⟨rfl, rfl⟩, h⟩
  | await op next ih =>
      rcases runs_await h with ⟨rfl, rfl⟩ | ⟨r, rest, rfl, hrest⟩
      · exact .inl ⟨op, next, .refl, rfl⟩
      · rcases ih r hrest with ⟨op', next', hp, rfl⟩ | ⟨calls₁, calls₂, a, rfl, hp, hk⟩
        · exact .inl ⟨op', next', hp.cons, rfl⟩
        · exact .inr ⟨⟨op, r⟩ :: calls₁, calls₂, a, rfl, ⟨r, calls₁, rfl, hp⟩, hk⟩

theorem Only.runs {P : I.Op → Prop} (hp : p.Only P) (h : Runs p calls q) : (∀ x ∈ calls, P x.1) ∧ q.Only P := by
  induction h with
  | refl => exact ⟨fun x hx => (by cases hx), hp⟩
  | call h r ih =>
      refine ⟨fun x hx => ?_, ih.2.2 r⟩
      rcases List.mem_append.mp hx with hx | hx
      · exact ih.1 x hx
      · rw [List.mem_singleton.mp hx]
        exact ih.2.1

theorem Only.answered {P : I.Op → Prop} {a : α} (hp : p.Only P) (h : p.Answered calls a) : ∀ x ∈ calls, P x.1 := by
  induction p generalizing calls with
  | done b =>
      obtain ⟨rfl, -⟩ := h
      exact fun x hx => absurd hx List.not_mem_nil
  | await op next ih =>
      obtain ⟨r, t, rfl, hn⟩ := h
      exact List.forall_mem_cons.mpr ⟨hp.1, ih r (hp.2 r) hn⟩

end Program

end Catapulte.Async
