namespace Catapulte.Async

/-- The calls a program may await, with the type of each answer. -/
structure Interface where
  Op : Type
  Reply : Op → Type

/-- An asynchronous program: it has finished, or it awaits the answer of one
call. Everything between two awaits is ordinary evaluation. -/
inductive Program (I : Interface) (α : Type) : Type
  | done (a : α)
  | await (op : I.Op) (next : I.Reply op → Program I α)

namespace Program

variable {I : Interface} {α β γ : Type}

def bind : Program I α → (α → Program I β) → Program I β
  | done a, k => k a
  | await op next, k => await op (fun r => (next r).bind k)

instance : Monad (Program I) where
  pure := done
  bind := bind

def call (op : I.Op) : Program I (I.Reply op) := await op done

@[simp] theorem pure_eq (a : α) : (pure a : Program I α) = done a := rfl

@[simp] theorem done_bind (a : α) (k : α → Program I β) : (done a >>= k) = k a := rfl

@[simp] theorem await_bind (op : I.Op) (next : I.Reply op → Program I α) (k : α → Program I β) :
    (await op next >>= k) = await op (fun r => next r >>= k) := rfl

@[simp] theorem call_bind (op : I.Op) (k : I.Reply op → Program I β) :
    (call op >>= k) = await op k := rfl

theorem map_eq (f : α → β) (p : Program I α) : f <$> p = p >>= fun a => done (f a) := rfl

@[simp] theorem map_done (f : α → β) (a : α) : f <$> (done a : Program I α) = done (f a) := rfl

@[simp] theorem map_await (f : α → β) (op : I.Op) (next : I.Reply op → Program I α) :
    f <$> await op next = await op (fun r => f <$> next r) := rfl

theorem bind_assoc (p : Program I α) (f : α → Program I β) (g : β → Program I γ) :
    (p >>= f) >>= g = p >>= fun a => f a >>= g := by
  induction p with
  | done a => rfl
  | await op next ih =>
      simp only [await_bind]
      congr 1
      funext r
      exact ih r

/-- With these calls and answers the program `p` gets to `q`. -/
inductive Runs (p : Program I α) : List ((op : I.Op) × I.Reply op) → Program I α → Prop
  | refl : Runs p [] p
  | call {calls op next} (h : Runs p calls (await op next)) (r : I.Reply op) : Runs p (calls ++ [⟨op, r⟩]) (next r)

/-- Whatever the answers, every call of the program satisfies `P`. -/
def Only (P : I.Op → Prop) : Program I α → Prop
  | done _ => True
  | await op next => P op ∧ ∀ r, (next r).Only P

@[simp] theorem only_done (P : I.Op → Prop) (a : α) : (done a : Program I α).Only P := trivial

@[simp] theorem only_await (P : I.Op → Prop) (op : I.Op) (next : I.Reply op → Program I α) :
    (await op next).Only P ↔ P op ∧ ∀ r, (next r).Only P := Iff.rfl

theorem Only.bind {P : I.Op → Prop} {p : Program I α} {k : α → Program I β}
    (hp : p.Only P) (hk : ∀ a, (k a).Only P) : (p >>= k).Only P := by
  induction p with
  | done a => exact hk a
  | await op next ih => exact ⟨hp.1, fun r => ih r (hp.2 r)⟩

theorem Only.map {P : I.Op → Prop} {p : Program I α} (hp : p.Only P) (f : α → β) :
    (f <$> p).Only P := hp.bind fun _ => trivial

theorem Only.mono {P Q : I.Op → Prop} {p : Program I α} (hp : p.Only P) (h : ∀ op, P op → Q op) :
    p.Only Q := by
  induction p with
  | done a => trivial
  | await op next ih => exact ⟨h op hp.1, fun r => ih r (hp.2 r)⟩

end Program

end Catapulte.Async
