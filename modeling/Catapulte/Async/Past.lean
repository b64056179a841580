import Catapulte.Async.Pool

namespace Catapulte.Async.Pool

variable {I : Interface} {σ κ ε ι α : Type} [DecidableEq ι] {M : Machine I σ κ ε} {s s' : Pool I σ ι α}
  {as : List (Action ι κ ε)}

/-- The actions of a run, each with the state in which it was taken. -/
def past (M : Machine I σ κ ε) (s : Pool I σ ι α) : List (Action ι κ ε) → List (Pool I σ ι α × Action ι κ ε)
  | [] => []
  | a :: as => (s, a) :: ((s.next M a).map fun s' => s'.past M as).getD []

/-- Every action is allowed by `C` after what came before it. -/
def Heeds (M : Machine I σ κ ε) (C : List (Pool I σ ι α × Action ι κ ε) → Pool I σ ι α → Action ι κ ε → Prop)
    (before : List (Pool I σ ι α × Action ι κ ε)) (s : Pool I σ ι α) : List (Action ι κ ε) → Prop
  | [] => True
  | a :: as => C before s a ∧ ∀ s', s.next M a = some s' → s'.Heeds M C (before ++ [(s, a)]) as

instance decidableHeeds (M : Machine I σ κ ε)
    (C : List (Pool I σ ι α × Action ι κ ε) → Pool I σ ι α → Action ι κ ε → Prop) [∀ before s a, Decidable (C before s a)] :
    ∀ (before : List (Pool I σ ι α × Action ι κ ε)) (s : Pool I σ ι α) (as : List (Action ι κ ε)),
      Decidable (s.Heeds M C before as)
  | _, _, [] => isTrue trivial
  | before, s, a :: as =>
      match hn : s.next M a with
      | none => decidable_of_iff (C before s a) ⟨fun h => ⟨h, fun _ ht => by rw [hn] at ht; cases ht⟩, And.left⟩
      | some t =>
          have := decidableHeeds M C (before ++ [(s, a)]) t as
          decidable_of_iff (C before s a ∧ t.Heeds M C (before ++ [(s, a)]) as)
            ⟨fun h => ⟨h.1, fun _ ht => by rw [hn] at ht; cases ht; exact h.2⟩, fun h => ⟨h.1, h.2 t hn⟩⟩

theorem run_past {C : List (Pool I σ ι α × Action ι κ ε) → Pool I σ ι α → Action ι κ ε → Prop}
    {J : List (Pool I σ ι α × Action ι κ ε) → Pool I σ ι α → Prop}
    (hstep : ∀ {before s a s'}, J before s → C before s a → Step M s a s' → J (before ++ [(s, a)]) s')
    {before : List (Pool I σ ι α × Action ι κ ε)} (h : J before s) (hC : s.Heeds M C before as)
    (hr : s.run M as = some s') : J (before ++ s.past M as) s' := by
  induction as generalizing s before with
  | nil =>
      cases hr
      rw [past, List.append_nil]
      exact h
  | cons a as ih =>
      obtain ⟨t, ht, hr⟩ := run_cons.mp hr
      have hrest := ih (hstep h hC.1 (next_iff.mp ht)) (hC.2 t ht) hr
      rw [List.append_assoc] at hrest
      simpa only [past, ht, Option.map_some, Option.getD_some, List.singleton_append] using hrest

end Catapulte.Async.Pool
